/-
  FormRules.Json.Basic

  JSON data. A number is either an integer, kept exactly, or a double; `1` and
  `1.0` are different data although they are equal as numbers. The members of an
  object are those of a table, so their order carries no meaning. An inductive type
  cannot hold that its own members are in order, so that an object only has their
  list, and objects are made from tables.
-/

import FormRules.Data.Table
import FormRules.Number.Layout

namespace FormRules

/-! ## Numbers -/

/-- A number of a JSON document. -/
inductive Number where
  | integer (n : Int)
  | double (x : Binary64)
deriving DecidableEq

namespace Number

/-- The double nearest to a number. -/
def toExtended : Number → Extended
  | .integer n => (Decimal.mk (n < 0) n.natAbs 0).nearest
  | .double x => .finite x

/-- The form of a number in JSON documents. -/
def text : Number → String
  | .integer n => integerText n
  | .double x => x.documentText

end Number

/-! ## Values -/

/-- A JSON value. -/
inductive Json where
  | null
  | boolean (b : Bool)
  | number (n : Number)
  | string (s : String)
  | array (items : List Json)
  | object (members : List (String × Json))

namespace Json

instance : Inhabited Json := ⟨.null⟩

/-- The object without members. -/
def emptyObject : Json := .object []

/-- A count as a number. -/
def count (n : Nat) : Json := .number (.integer n)

/-- The object of a table. -/
def ofTable (table : Table Json) : Json := .object table.list

/-- An object of members given in any order; of two with one name the later stays. -/
def ofMembers (members : List (String × Json)) : Json := .ofTable (.collect members)

/-- A member that is left out when there is nothing to hold. -/
def optionalMember (name : String) (value : Option Json) : List (String × Json) :=
  value.toList.map fun v => (name, v)

/-! ## Equality of data -/

mutual

/-- Whether two values are the same data, number forms included. -/
def same : Json → Json → Bool
  | .null, .null => true
  | .boolean a, .boolean b => a == b
  | .number a, .number b => a == b
  | .string a, .string b => a == b
  | .array a, .array b => sameItems a b
  | .object a, .object b => sameMembers a b
  | _, _ => false

def sameItems : List Json → List Json → Bool
  | [], [] => true
  | a :: as, b :: bs => same a b && sameItems as bs
  | _, _ => false

def sameMembers : List (String × Json) → List (String × Json) → Bool
  | [], [] => true
  | (m, a) :: as, (n, b) :: bs => m == n && same a b && sameMembers as bs
  | _, _ => false

end

mutual

theorem same_iff : ∀ a b : Json, same a b = true ↔ a = b
  | .null, b => by cases b <;> simp [same]
  | .boolean _, b => by cases b <;> simp [same]
  | .number _, b => by cases b <;> simp [same]
  | .string _, b => by cases b <;> simp [same]
  | .array a, b => by cases b <;> simp [same, sameItems_iff a]
  | .object a, b => by cases b <;> simp [same, sameMembers_iff a]

theorem sameItems_iff : ∀ a b : List Json, sameItems a b = true ↔ a = b
  | [], b => by cases b <;> simp [sameItems]
  | a :: as, b => by cases b <;> simp [sameItems, same_iff a, sameItems_iff as]

theorem sameMembers_iff : ∀ a b : List (String × Json), sameMembers a b = true ↔ a = b
  | [], b => by cases b <;> simp [sameMembers]
  | (m, a) :: as, b => by
    cases b <;> simp [sameMembers, same_iff a, sameMembers_iff as, Prod.ext_iff]

end

instance : DecidableEq Json := fun a b => decidable_of_iff _ (same_iff a b)

end Json

end FormRules
