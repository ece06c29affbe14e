/-
  FormRules.Value.Comparing

  What the eight comparisons mean.

  Strict equality compares data of one kind: numbers by value, arrays and objects by
  their contents. Loose equality first converts operands of different kinds. The
  ordering comparisons compare two strings by code points and everything else as
  numbers.
-/

import FormRules.Rule.Operator
import FormRules.Value.Conversion

namespace FormRules

namespace Json

/-! ## Strict equality -/

mutual

/-- Equality of data without conversion. An object equals another one if it has as many
    members and each of its members has an equal one there. -/
def strictEquals : Json → Json → Bool
  | .null, .null => true
  | .boolean a, .boolean b => a == b
  | .number a, .number b => a.toExtended.equals b.toExtended
  | .string a, .string b => a == b
  | .array a, .array b => strictEqualsItems a b
  | .object a, .object b => a.length == b.length && strictEqualsMembers a b
  | _, _ => false

/-- Equality of two lists of items, one by one. -/
def strictEqualsItems : List Json → List Json → Bool
  | [], [] => true
  | a :: as, b :: bs => strictEquals a b && strictEqualsItems as bs
  | _, _ => false

/-- Whether each member has an equal one of the same name in another object. -/
def strictEqualsMembers : List (String × Json) → List (String × Json) → Bool
  | [], _ => true
  | (name, a) :: as, others =>
    (match Table.find? name others with
      | some b => strictEquals a b
      | none => false) && strictEqualsMembers as others

end

/-! ## Loose equality -/

/-- An array or an object. -/
def isComposite : Json → Bool
  | .array _ | .object _ => true
  | _ => false

/-- Data without parts: arrays and objects become their text. -/
def toPrimitive (data : Json) : Json :=
  if data.isComposite then .string data.displayText else data

/-- The kinds of data without parts between which equality needs no conversion. -/
def sameKind : Json → Json → Bool
  | .boolean _, .boolean _ | .number _, .number _ | .string _, .string _ => true
  | _, _ => false

/-- Equality of data that is neither null: two arrays or objects are compared strictly,
    and an array or object is compared with anything else as its text. Of different
    kinds, data is compared as numbers. -/
def looseEquals (a b : Json) : Bool :=
  if a.isComposite && b.isComposite then strictEquals a b
  else
    let a := a.toPrimitive
    let b := b.toPrimitive
    if sameKind a b then strictEquals a b else a.toExtended.equals b.toExtended

/-! ## Order -/

/-- How two values without parts are ordered: strings by code points, everything else as
    numbers; none if one of them is not a number. -/
def primitiveOrder? : Json → Json → Option Ordering
  | .string a, .string b => some (compare a b)
  | a, b => a.toExtended.order? b.toExtended

end Json

namespace Value

/-- Strict equality; undefined equals itself only. -/
def strictEquals : Value → Value → Bool
  | none, none => true
  | some a, some b => Json.strictEquals a b
  | _, _ => false

/-- Loose equality; undefined and null equal each other and nothing else. -/
def looseEquals (a b : Value) : Bool :=
  if a.isNullish || b.isNullish then a.isNullish && b.isNullish
  else
    match a, b with
    | some a, some b => Json.looseEquals a b
    | _, _ => false

/-- The order of two values; undefined has no order. -/
def order? : Value → Value → Option Ordering
  | some a, some b => Json.primitiveOrder? a.toPrimitive b.toPrimitive
  | _, _ => none

end Value

/-- Whether a comparison holds between two values. An ordering comparison holds only
    between values that have an order. -/
def Comparison.holds (op : Comparison) (a b : Value) : Bool :=
  match op with
  | .looseEqual => a.looseEquals b
  | .looseUnequal => !a.looseEquals b
  | .strictEqual => a.strictEquals b
  | .strictUnequal => !a.strictEquals b
  | .greater => a.order? b == some .gt
  | .less => a.order? b == some .lt
  | .greaterOrEqual => (a.order? b).any (· != .lt)
  | .lessOrEqual => (a.order? b).any (· != .gt)

end FormRules
