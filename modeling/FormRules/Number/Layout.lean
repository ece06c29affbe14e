/-
  FormRules.Number.Layout

  The two texts of a double.

  `Binary64.documentText` is its form in JSON documents, which always shows that
  it is no integer: `1.0`, `0.00001`, `1e-6`, `1e+16`.

  `Extended.displayText` is its form when a value is turned into text for a
  comparison: whole numbers below `10^21` with all their digits, everything else
  in the fewest digits, and never with an exponent.
-/

import FormRules.Number.Shortest

namespace FormRules

/-! ## Decimals as text -/

/-- The decimal digits of a natural number. -/
def decimalDigits (n : Nat) : List Char := Nat.toDigits 10 n

/-- The text of an integer. -/
def integerText (n : Int) : String :=
  String.ofList (if n < 0 then '-' :: decimalDigits n.natAbs else decimalDigits n.natAbs)

theorem integerText_eq_repr (n : Int) : integerText n = n.repr := by
  cases n with
  | ofNat n => rfl
  | negSucc n => exact String.ext (by simp [integerText, decimalDigits, Int.repr])

namespace Decimal

/-- The sign of a decimal, as it stands in front of its digits. -/
def signText (d : Decimal) : List Char := if d.negative then ['-'] else []

/-- Zeros in a row. -/
def zeros (n : Nat) : List Char := List.replicate n '0'

/-- Digits with a point `places` digits before their end; a zero stands before a
    point that nothing else stands before. -/
def pointed (digits : List Char) (places : Nat) : List Char :=
  if places < digits.length then
    digits.take (digits.length - places) ++ '.' :: digits.drop (digits.length - places)
  else '0' :: '.' :: zeros (places - digits.length) ++ digits

/-- Positional notation, with a point only before a fraction. -/
def positional (d : Decimal) : List Char :=
  let digits := decimalDigits d.coefficient
  d.signText ++
    if d.exponent < 0 then pointed digits (-d.exponent).toNat
    else digits ++ zeros d.exponent.toNat

/-- The power of ten of the first digit. -/
def leadingExponent (d : Decimal) : Int :=
  (decimalDigits d.coefficient).length - 1 + d.exponent

/-- Exponent notation: one digit, a point if there are more, and a signed exponent. -/
def scientific (d : Decimal) : List Char :=
  let digits := decimalDigits d.coefficient
  let exponent := d.leadingExponent
  d.signText ++ digits.take 1 ++
    (if digits.length = 1 then [] else '.' :: digits.drop 1) ++
    'e' :: (if exponent < 0 then '-' else '+') :: decimalDigits exponent.natAbs

end Decimal

/-! ## Texts of doubles -/

/-- The form of a double in JSON documents: positional from `10^-5` up to `10^16`
    and for zero, with at least one digit after the point, and in exponent notation
    elsewhere. Of two equally short decimals the even one is taken. -/
def Binary64.documentText (x : Binary64) : String :=
  let d := x.shortest .toEven
  String.ofList <|
    if x.units = 0 ∨ (-5 ≤ d.leadingExponent ∧ d.leadingExponent < 16) then
      if d.exponent < 0 then d.positional else d.positional ++ ['.', '0']
    else d.scientific

/-- The form of a double in comparisons. Zero has no sign, whole numbers below
    `10^21` show their exact digits, and of two equally short decimals the larger
    magnitude is taken. -/
def Binary64.displayText (x : Binary64) : String :=
  String.ofList <|
    if x.units = 0 then ['0']
    else if x.isIntegral ∧ x.integerPart < 10 ^ 21 then
      Decimal.positional ⟨x.negative, x.integerPart, 0⟩
    else (x.shortest .away).positional

/-- The form of a number in comparisons. -/
def Extended.displayText : Extended → String
  | .finite x => x.displayText
  | .infinite negative => if negative then "-Infinity" else "Infinity"
  | .nan => "NaN"

end FormRules
