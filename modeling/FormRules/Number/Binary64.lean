/-
  FormRules.Number.Binary64

  Double-precision numbers, kept exactly. Every finite double is a whole
  multiple of the smallest positive one, `2^-1074`, so a double is a sign and a
  natural number of these units: comparing two doubles compares two integers,
  and rounding a number to a double rounds a ratio of natural numbers.

  `Binary64` holds the finite doubles and `Extended` adds the infinities and
  "not a number", which arise when a text or a composite value is read as a
  number but never inside a JSON document.
-/

namespace FormRules

-- Powers are the core ones everywhere, also beside those of monoids.
attribute [instance (10000), default_instance 10000] instPowNat

/-! ## Finite doubles -/

/-- The smallest positive double is `2^-scale`. -/
def Binary64.scale : Nat := 1074

/-- The number of units in one. -/
def Binary64.one : Nat := 2 ^ scale

/-- The first magnitude beyond the doubles, `2^1024`, in units. -/
def Binary64.overflow : Nat := 2 ^ (1024 + scale)

/-- How many low bits of a magnitude are always zero: a double keeps 53 bits, so
    the doubles around a magnitude lie `2 ^ spacing units` units apart. -/
def Binary64.spacing (units : Nat) : Nat := units.log2 - 52

/-- A number of units is the magnitude of a finite double if it lies below
    `2^1024` and is a multiple of the spacing of doubles around it. -/
def Binary64.Representable (units : Nat) : Prop :=
  units < Binary64.overflow ∧ 2 ^ Binary64.spacing units ∣ units

instance (units : Nat) : Decidable (Binary64.Representable units) :=
  inferInstanceAs (Decidable (_ ∧ _))

/-- A finite double: a sign and a magnitude counted in units of `2^-1074`. Zero
    keeps its sign. -/
structure Binary64 where
  negative : Bool
  units : Nat
  representable : Binary64.Representable units
deriving DecidableEq

namespace Binary64

theorem one_pos : 0 < one := Nat.two_pow_pos _

theorem overflow_pos : 0 < overflow := Nat.two_pow_pos _

theorem representable_zero : Representable 0 :=
  ⟨overflow_pos, Nat.dvd_zero _⟩

/-- Zero with the given sign. -/
def zero (negative : Bool) : Binary64 := ⟨negative, 0, representable_zero⟩

/-- The value in units of `2^-1074`; both zeros have the value `0`. -/
def value (x : Binary64) : Int := if x.negative then -x.units else x.units

/-- The value is a whole number. -/
def isIntegral (x : Binary64) : Bool := x.units % one == 0

/-- The magnitude of the value without its fraction. -/
def integerPart (x : Binary64) : Nat := x.units / one

end Binary64

/-! ## Doubles with infinities -/

/-- The outcome of reading something as a number. -/
inductive Extended where
  | finite (x : Binary64)
  | infinite (negative : Bool)
  | nan
deriving DecidableEq

namespace Extended

/-- Where a number lies on the line, in units of `2^-1074`. An infinity lies at
    `2^1024`, just beyond the largest double; what is not a number lies nowhere. -/
def position? : Extended → Option Int
  | .finite x => some x.value
  | .infinite negative => some (if negative then -Binary64.overflow else Binary64.overflow)
  | .nan => none

/-- Two numbers are equal if they lie at the same place, so `-0` equals `0`. What
    is not a number equals nothing. -/
def equals (x y : Extended) : Bool :=
  match x.position?, y.position? with
  | some a, some b => a == b
  | _, _ => false

/-- The order of two numbers, none if one of them is not a number. -/
def order? (x y : Extended) : Option Ordering :=
  match x.position?, y.position? with
  | some a, some b => some (compare a b)
  | _, _ => none

/-- The interchange form of a sign and a magnitude of at most `2^1024`: a sign
    bit, eleven bits of exponent and fifty-two of fraction. Each doubling of the
    spacing adds one to the exponent field, and the leading bit of a normal
    magnitude adds one more. -/
def pattern (negative : Bool) (units : Nat) : Nat :=
  let spacing := Binary64.spacing units
  (if negative then 2 ^ 63 else 0) + spacing * 2 ^ 52 + units / 2 ^ spacing

/-- The sixty-four bits of a number, none if it is not a number. -/
def bits? : Extended → Option Nat
  | .finite x => some (pattern x.negative x.units)
  | .infinite negative => some (pattern negative Binary64.overflow)
  | .nan => none

end Extended

end FormRules
