/-
  FormRules.Value.Basic

  The values of expressions: JSON data, or nothing where a path leads nowhere. What
  is undefined is not an error and is passed on like any other value.
-/

import FormRules.Json.Basic

namespace FormRules

/-- A value: JSON data, or `none` for undefined. -/
abbrev Value := Option Json

namespace Value

/-- A boolean as a value. -/
def ofBool (b : Bool) : Value := some (.boolean b)

/-- Undefined or null. -/
def isNullish : Value → Bool
  | none | some .null => true
  | _ => false

end Value

/-! ## Truth -/

/-- Whether data counts as true: everything but null, false, zero and the empty string.
    Arrays and objects do, even empty ones. -/
def Json.isTruthy : Json → Bool
  | .null => false
  | .boolean b => b
  | .number n => match n.toExtended.position? with
    | some position => position != 0
    | none => false
  | .string s => s != ""
  | .array _ | .object _ => true

/-- Whether a value counts as true; undefined does not. -/
def Value.isTruthy : Value → Bool
  | none => false
  | some data => data.isTruthy

/-! ## Members -/

/-- The index that a path segment names: decimal digits, possibly behind a plus sign. -/
def indexOf? (segment : String) : Option Nat :=
  let digits := match segment.toList with
    | '+' :: rest => rest
    | text => text
  if digits ≠ [] ∧ digits.all Char.isDigit then some (Decimal.digitsValue digits) else none

/-- The value that one path segment leads to: a member of an object, an item of an array
    by its index, or the length of an array or a string. -/
def Json.member (segment : String) : Json → Value
  | .object members => Table.find? segment members
  | .array items =>
    if segment = "length" then some (.count items.length)
    else (indexOf? segment).bind fun index => items[index]?
  | .string s => if segment = "length" then some (.count s.length) else none
  | _ => none

/-- The value that one path segment leads to; from undefined it leads nowhere. -/
def Value.member (segment : String) (value : Value) : Value := value.bind (Json.member segment)

end FormRules
