/-
  FormRules.Number.Decimal

  Decimal numbers `± coefficient · 10^exponent` and the two ways of turning one
  into a double.

  `Decimal.nearest` rounds the exact value once. `Decimal.stepwise` is the rule
  of JSON documents: the coefficient is rounded first and then multiplied or
  divided by a power of ten that is itself rounded, so the last bit may differ
  from the nearest double's.

  `Decimal.read?` reads the decimal texts that convert to numbers:
  `[+-]? (digits [. digits?] | . digits) ([eE] [+-]? digits)?`. `Extended.read?` also knows
  the words for numbers that are not finite.
-/

import FormRules.Number.Rounding

namespace FormRules

/-- A written decimal number. Zero keeps its sign. -/
structure Decimal where
  negative : Bool
  coefficient : Nat
  exponent : Int
deriving DecidableEq

namespace Decimal

/-! ## Rounding once -/

/-- An exponent between the bounds beyond which the value no longer depends on
    it: from `10^310` on every coefficient but zero overflows, and a coefficient
    of `b` bits divided by `10^(b + 1080)` is nearer to zero than to any other
    double. -/
def clampedExponent (d : Decimal) : Int :=
  max (-(d.coefficient.log2 + 1080 : Nat)) (min d.exponent 310)

/-- The double nearest to the exact value, ties to even. -/
def nearest (d : Decimal) : Extended :=
  Extended.ofRatio d.negative
    (d.coefficient * 10 ^ d.clampedExponent.toNat * Binary64.one)
    (10 ^ (-d.clampedExponent).toNat)

/-! ## Rounding in steps -/

/-- The magnitude of the double nearest to a whole number, in units. -/
def wholeUnits (n : Nat) : Nat := roundUnits (n * Binary64.one) 1

/-- Divides by powers of ten until the exponent is used up, at most `10^308` at a
    time, rounding after each division. What has become zero stays zero. -/
def divideStepwise (units shift : Nat) : Nat :=
  if units = 0 then 0
  else if shift ≤ 308 then roundUnits (units * Binary64.one) (wholeUnits (10 ^ shift))
  else divideStepwise (roundUnits (units * Binary64.one) (wholeUnits (10 ^ 308))) (shift - 308)
termination_by shift

/-- The double reached by rounding the coefficient and then scaling it by the
    power of ten; none if the value leaves the range of doubles. -/
def stepwise (d : Decimal) : Option Binary64 :=
  let start := wholeUnits d.coefficient
  let units :=
    if start = 0 then 0
    else if d.exponent < 0 then divideStepwise start (-d.exponent).toNat
    else roundUnits (start * wholeUnits (10 ^ (min d.exponent 310).toNat)) Binary64.one
  match Extended.ofUnits d.negative units with
  | .finite x => some x
  | _ => none

/-! ## Reading texts -/

/-- The number written by a run of decimal digits. -/
def digitsValue (digits : List Char) : Nat := Nat.ofDigitChars 10 digits 0

/-- The value of digits with and without a point: `whole.fraction · 10^exponent`. -/
def ofDigits (negative : Bool) (whole fraction : List Char) (exponent : Int) : Decimal :=
  ⟨negative, digitsValue (whole ++ fraction), exponent - fraction.length⟩

/-- An optional sign and what follows it. -/
def readSign : List Char → Bool × List Char
  | '-' :: rest => (true, rest)
  | '+' :: rest => (false, rest)
  | rest => (false, rest)

/-- An exponent, which is everything up to the end of the text: nothing at all, or
    `e` or `E`, an optional sign and digits. -/
def readExponent? : List Char → Option Int
  | [] => some 0
  | c :: rest =>
    let (negative, digits) := readSign rest
    if (c = 'e' ∨ c = 'E') ∧ digits ≠ [] ∧ digits.all Char.isDigit then
      some (if negative then -(digitsValue digits : Int) else digitsValue digits)
    else none

/-- The part after the whole digits: a point with the digits behind it, if there
    is one, and what follows. -/
def readFraction : List Char → List Char × List Char
  | '.' :: rest => (rest.takeWhile Char.isDigit, rest.dropWhile Char.isDigit)
  | rest => ([], rest)

/-- Reads a whole text as a decimal number: at least one digit before or after the
    point, with an optional sign and exponent. -/
def read? (text : List Char) : Option Decimal :=
  let (negative, unsigned) := readSign text
  let whole := unsigned.takeWhile Char.isDigit
  let (fraction, rest) := readFraction (unsigned.dropWhile Char.isDigit)
  if whole = [] ∧ fraction = [] then none
  else (readExponent? rest).map (ofDigits negative whole fraction)

end Decimal

/-! ## Reading words -/

/-- What a word stands for, in any letter case: an infinity, or not a number. -/
def Extended.ofWord? (negative : Bool) (word : List Char) : Option Extended :=
  let lower := word.map Char.toLower
  if lower = "inf".toList ∨ lower = "infinity".toList then some (.infinite negative)
  else if lower = "nan".toList then some .nan
  else none

/-- Reads a whole text as a number: the double nearest to a decimal, or what a word behind an
    optional sign stands for. -/
def Extended.read? (text : List Char) : Option Extended :=
  match Decimal.read? text with
  | some d => some d.nearest
  | none =>
    let (negative, word) := Decimal.readSign text
    Extended.ofWord? negative word

end FormRules
