/-
  FormRules.Value.Conversion

  The two conversions behind the loose comparisons: data as text and data as a
  number.
-/

import FormRules.Text.Blank
import FormRules.Value.Basic

namespace FormRules

/-! ## Text -/

mutual

/-- Data as text. The items of an array are joined by commas, where null items are
    empty; all objects look alike. -/
def Json.displayText : Json → String
  | .null => "null"
  | .boolean b => if b then "true" else "false"
  | .number n => n.toExtended.displayText
  | .string s => s
  | .array items => ",".intercalate (Json.displayItems items)
  | .object _ => "[object Object]"

/-- The items of an array as texts. -/
def Json.displayItems : List Json → List String
  | [] => []
  | .null :: items => "" :: Json.displayItems items
  | item :: items => Json.displayText item :: Json.displayItems items

end

/-! ## Numbers -/

/-- A character of decimals. -/
def isNumeralChar (c : Char) : Bool :=
  c.isDigit || c == '+' || c == '-' || c == '.' || c == 'e' || c == 'E'

/-- A text as a number: zero if it is blank, an infinity by its name, the nearest double
    to a decimal, and otherwise not a number. Blanks around it do not count. -/
def Extended.ofText (text : String) : Extended :=
  let trimmed := trimBlanks text.toList
  if trimmed = [] then .finite (Binary64.zero false)
  else if trimmed = "Infinity".toList ∨ trimmed = "+Infinity".toList then .infinite false
  else if trimmed = "-Infinity".toList then .infinite true
  -- the other words and spellings of the general reader are kept from it
  else if trimmed.all isNumeralChar then (Extended.read? trimmed).getD .nan
  else .nan

/-- Data as a number. Arrays and objects convert by way of their text. -/
def Json.toExtended : Json → Extended
  | .null => .finite (Binary64.zero false)
  | .boolean b => (Number.integer (if b then 1 else 0)).toExtended
  | .number n => n.toExtended
  | .string s => .ofText s
  | data => .ofText data.displayText

end FormRules
