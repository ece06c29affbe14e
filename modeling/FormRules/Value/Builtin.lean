/-
  FormRules.Value.Builtin

  The functions that expressions may call. The table is closed and names are case
  sensitive. A missing argument is undefined, and superfluous ones are ignored.
-/

import FormRules.Json.Printer
import FormRules.Value.Comparing

namespace FormRules

/-- A function of the table. -/
inductive Builtin where
  | empty
  | has
  | isIn
  | length
  | oneOf
  | present
deriving DecidableEq

namespace Builtin

/-- All functions, by their names in ascending order. -/
def all : List Builtin := [.empty, .has, .isIn, .length, .oneOf, .present]

/-- The name by which a function is called. -/
def name : Builtin → String
  | .empty => "empty"
  | .has => "has"
  | .isIn => "in"
  | .length => "length"
  | .oneOf => "oneOf"
  | .present => "present"

/-- The function of a name. -/
def named? (name : String) : Option Builtin := all.find? (·.name = name)

/-! ## What the functions do -/

/-- Undefined, null, the empty string and the array without items. -/
def isEmpty : Value → Bool
  | none | some .null => true
  | some (.string s) => s = ""
  | some (.array items) => items.isEmpty
  | some _ => false

/-- Whether a value strictly equals an item of an array; nothing is in anything else. -/
def isAmong (needle : Value) : Value → Bool
  | some (.array items) => items.any fun item => needle.strictEquals (some item)
  | _ => false

/-- The number of characters of a string or of items of an array. -/
def lengthOf : Value → Value
  | some (.string s) => some (.count s.length)
  | some (.array items) => some (.count items.length)
  | _ => none

/-- An argument by its place; undefined if it is missing. -/
def argument (arguments : List Value) (place : Nat) : Value := arguments[place]?.join

/-- The result of a call. -/
def apply (function : Builtin) (arguments : List Value) : Value :=
  let first := argument arguments 0
  match function with
  | .empty => .ofBool (isEmpty first)
  | .present => .ofBool (!isEmpty first)
  | .has => .ofBool (!first.isNullish)
  | .isIn | .oneOf => .ofBool (isAmong first (argument arguments 1))
  | .length => lengthOf first

/-! ## The table as text -/

/-- A listing of the table. -/
def tableText : String :=
  "FunctionRegistry \x7b functions: [" ++
    ", ".intercalate (all.map fun function => Json.quoted function.name) ++ "] \x7d"

end Builtin

end FormRules
