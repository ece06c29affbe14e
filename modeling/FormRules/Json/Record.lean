/-
  FormRules.Json.Record

  Reading records with fixed members from JSON data. A record is an object, whose
  other members are ignored, or an array of its members in their order.
-/

import FormRules.Json.Basic

namespace FormRules.Json

/-- The members of a record with the given names. In an array, members at the end may be
    missing but there must not be more of them than names. -/
def recordMembers? (names : List String) : Json → Option (List (String × Json))
  | .object members => some members
  | .array items => if items.length ≤ names.length then some (names.zip items) else none
  | _ => none

/-- A member that must be a boolean. -/
def booleanMember? (name : String) (members : List (String × Json)) : Option Bool :=
  match Table.find? name members with
  | some (.boolean b) => some b
  | _ => none

/-- A member that may be missing; null stands for its absence. -/
def optionalMember? (name : String) (members : List (String × Json)) : Option Json :=
  match Table.find? name members with
  | none | some .null => none
  | some data => some data

/-- A member that is a string or absent. The outer `none` means that it is neither. -/
def stringMember? (name : String) (members : List (String × Json)) : Option (Option String) :=
  match optionalMember? name members with
  | none => some none
  | some (.string s) => some (some s)
  | some _ => none

/-- A member that is an unsigned integer of 64 bits, or missing and then has a default. -/
def countMember? (name : String) (default : Nat) (members : List (String × Json)) : Option Nat :=
  match Table.find? name members with
  | none => some default
  | some (.number (.integer n)) => if 0 ≤ n ∧ n < 2 ^ 64 then some n.toNat else none
  | some _ => none

end FormRules.Json
