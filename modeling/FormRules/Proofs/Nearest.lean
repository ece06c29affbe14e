/-
  FormRules.Proofs.Nearest

  The double nearest to a decimal number. `Decimal.Rounds` says what it is, in terms of exact
  values: a finite double that no other double is nearer to, and whose last bit is zero if
  another one is as near; with the sign of the decimal, which matters for zero; and an infinity
  from the middle between the largest double and `2^1024` on.

  In units of `2^-1074` the value of a decimal is a ratio of whole numbers. Its nearest whole
  number is one of two neighbours (`IsRounded`). Between doubles that are more than one unit
  apart, the neighbours are multiples of their spacing, and doubles with a smaller spacing are
  further away (`near_roundUnits`).

  Main statements: `Decimal.nearest_eq_iff_rounds`, there is one such number and it is the one
  that `Decimal.nearest` computes, and `Decimal.nearest_congr`, it is up to the value.
-/

import Mathlib.Algebra.Order.Field.Rat
import Mathlib.Algebra.Order.AbsoluteValue.Basic
import Mathlib.Tactic.FieldSimp
import Mathlib.Tactic.Linarith
import Mathlib.Tactic.Ring
import FormRules.Proofs.Overflow

namespace FormRules

/-! ## The nearest whole number -/

/-- A whole number is not further than one half from `num / den`, and it is even if it is as
    far as that. -/
structure IsRounded (m num den : Nat) : Prop where
  le : 2 * (m * den) ≤ 2 * num + den
  ge : 2 * num ≤ 2 * (m * den) + den
  even : 2 * (m * den) = 2 * num + den ∨ 2 * num = 2 * (m * den) + den → m % 2 = 0

theorem isRounded_roundHalfEven {den : Nat} (hden : 0 < den) (num : Nat) :
    IsRounded (roundHalfEven num den) num den := by
  have hsplit : num / den * den + num % den = num := Nat.div_add_mod' num den
  have hmod := Nat.mod_lt num hden
  have hnext : (num / den + 1) * den = num / den * den + den := Nat.succ_mul _ _
  unfold roundHalfEven
  dsimp only
  split
  · constructor <;> omega
  · constructor <;> omega

section IsRounded

variable {m n num den : Nat}

/-- A larger number is larger by one step at least. -/
theorem add_le_mul_of_lt (den : Nat) (h : m < n) : m * den + den ≤ n * den := by
  rw [← Nat.succ_mul]
  exact Nat.mul_le_mul_right den h

/-- There is one such number. -/
theorem IsRounded.unique (hden : 0 < den) (hm : IsRounded m num den) (hn : IsRounded n num den) :
    m = n := by
  obtain ⟨hle, hge, heven⟩ := hm
  obtain ⟨hle', hge', heven'⟩ := hn
  rcases Nat.lt_trichotomy m n with hlt | heq | hgt
  · -- neighbours are as near as each other only if both are even
    have hstep := add_le_mul_of_lt den hlt
    have htwo : m + 1 < n := by omega
    have hsteps := add_le_mul_of_lt den htwo
    rw [Nat.succ_mul] at hsteps
    omega
  · exact heq
  · have hstep := add_le_mul_of_lt den hgt
    have htwo : n + 1 < m := by omega
    have hsteps := add_le_mul_of_lt den htwo
    rw [Nat.succ_mul] at hsteps
    omega

/-- No other whole number is nearer. -/
theorem IsRounded.near (h : IsRounded n num den) (m : Nat) :
    ((n * den : Nat) - num : Int).natAbs ≤ ((m * den : Nat) - num : Int).natAbs := by
  obtain ⟨hle, hge, -⟩ := h
  rcases Nat.lt_trichotomy m n with hlt | rfl | hgt
  · have hstep := add_le_mul_of_lt den hlt
    omega
  · exact Nat.le_refl _
  · have hstep := add_le_mul_of_lt den hgt
    omega

/-- Another whole number is as near only if this one is even. -/
theorem IsRounded.even_of_tie (h : IsRounded n num den) (hden : 0 < den) (hne : m ≠ n)
    (htie : ((m * den : Nat) - num : Int).natAbs = ((n * den : Nat) - num : Int).natAbs) :
    n % 2 = 0 := by
  obtain ⟨hle, hge, heven⟩ := h
  apply heven
  rcases Nat.lt_or_gt_of_ne hne with hlt | hgt
  · have hstep := add_le_mul_of_lt den hlt
    omega
  · have hstep := add_le_mul_of_lt den hgt
    omega

end IsRounded

/-! ## Rounding is up to the ratio -/

theorem roundHalfEven_scale {k : Nat} (hk : 0 < k) (num den : Nat) :
    roundHalfEven (k * num) (k * den) = roundHalfEven num den := by
  unfold roundHalfEven
  simp only [Nat.mul_div_mul_left _ _ hk, Nat.mul_mod_mul_left, Nat.mul_left_comm 2 k,
    Nat.mul_lt_mul_left hk, Nat.mul_right_inj (Nat.ne_of_gt hk)]

theorem roundUnits_scale {k : Nat} (hk : 0 < k) (num den : Nat) :
    roundUnits (k * num) (k * den) = roundUnits num den := by
  unfold roundUnits
  dsimp only
  rw [Nat.mul_div_mul_left _ _ hk, Nat.mul_assoc, roundHalfEven_scale hk]

/-- Two forms of one ratio are rounded alike. -/
theorem roundUnits_congr {num den num' den' : Nat} (hden : 0 < den) (hden' : 0 < den')
    (h : num * den' = num' * den) : roundUnits num den = roundUnits num' den' := by
  calc roundUnits num den
      = roundUnits (den' * num) (den' * den) := (roundUnits_scale hden' _ _).symm
    _ = roundUnits (den * num') (den * den') := by
      rw [Nat.mul_comm den' num, h, Nat.mul_comm num' den, Nat.mul_comm den' den]
    _ = roundUnits num' den' := roundUnits_scale hden _ _

/-- Less than half a unit is rounded to zero. -/
theorem roundUnits_eq_zero {num den : Nat} (h : 2 * num < den) : roundUnits num den = 0 := by
  have hquotient : num / den = 0 := Nat.div_eq_of_lt (by omega)
  have hspacing : Binary64.spacing 0 = 0 := by decide
  have hmod : num % den = num := Nat.mod_eq_of_lt (by omega)
  rw [roundUnits, hquotient, hspacing, Nat.pow_zero, Nat.mul_one, Nat.mul_one, roundHalfEven,
    hmod, hquotient, if_pos (Or.inl h)]

/-! ## The nearest magnitude -/

namespace Binary64

/-- The last bit of a magnitude is zero. -/
def EvenMagnitude (units : Nat) : Prop := units / 2 ^ spacing units % 2 = 0

/-- From some spacing on, a magnitude has its leading bit. -/
theorem two_pow_le_of_spacing {units : Nat} (h : 0 < spacing units) :
    2 ^ (52 + spacing units) ≤ units := by
  unfold spacing at h ⊢
  have hne : units ≠ 0 := by
    rintro rfl
    rw [Nat.log2_zero] at h
    omega
  rw [Nat.add_sub_cancel' (by omega)]
  exact Nat.log2_self_le hne

/-- A double is a multiple of a spacing, or smaller than all doubles with that spacing. -/
theorem Representable.dvd_or_lt {units : Nat} (h : Representable units) (k : Nat) :
    2 ^ k ∣ units ∨ (0 < k ∧ units < 2 ^ (52 + k)) := by
  by_cases hk : k ≤ spacing units
  · exact Or.inl (Nat.dvd_trans (Nat.pow_dvd_pow 2 hk) h.2)
  · unfold spacing at hk
    refine Or.inr ⟨by omega, ?_⟩
    exact Nat.lt_of_lt_of_le Nat.lt_log2_self (Nat.pow_le_pow_right (by decide) (by omega))

/-- An even number of up to 53 bits and zeros behind it are an even magnitude, also where the
    number is `2^53` and the zeros are one more than they seem. -/
theorem evenMagnitude_mul_two_pow {m k : Nat} (hm : m % 2 = 0) (hle : m ≤ 2 ^ 53)
    (hk : 0 < k → 2 ^ 52 ≤ m) : EvenMagnitude (m * 2 ^ k) := by
  have hpos := Nat.two_pow_pos k
  unfold EvenMagnitude spacing
  rcases Nat.lt_or_eq_of_le hle with hlt | rfl
  · rcases Nat.eq_zero_or_pos k with rfl | hkpos
    · have hlog : m.log2 - 52 = 0 := by
        rcases Nat.eq_zero_or_pos m with rfl | hmpos
        · rfl
        · have hbits := (Nat.log2_lt (Nat.ne_of_gt hmpos)).2 hlt
          omega
      rw [Nat.pow_zero, Nat.mul_one, hlog, Nat.pow_zero, Nat.div_one]
      exact hm
    · have hleading := hk hkpos
      have hne : m * 2 ^ k ≠ 0 := Nat.ne_of_gt (Nat.mul_pos (by omega) hpos)
      have hlog : (m * 2 ^ k).log2 = 52 + k := by
        rw [Nat.log2_eq_iff hne]
        constructor
        · rw [Nat.pow_add]
          exact Nat.mul_le_mul_right _ hleading
        · rw [Nat.add_right_comm, Nat.pow_add]
          exact Nat.mul_lt_mul_of_pos_right hlt hpos
      rw [hlog, Nat.add_sub_cancel_left, Nat.mul_div_cancel _ hpos]
      exact hm
  · have hspacing : 53 + k - 52 = k + 1 := by omega
    have hbits : 53 + k - (k + 1) = 52 := by omega
    rw [← Nat.pow_add, Nat.log2_two_pow, hspacing, Nat.pow_div (by omega) (by decide), hbits]

end Binary64

section RoundUnits

variable {num den units : Nat}

/-- Rounding to multiples of a spacing. -/
theorem roundUnits_mul_eq (num den : Nat) :
    roundUnits num den * den =
      roundHalfEven num (den * 2 ^ Binary64.spacing (num / den)) *
        (den * 2 ^ Binary64.spacing (num / den)) := by
  unfold roundUnits
  dsimp only
  rw [Nat.mul_assoc, Nat.mul_comm _ den]

/-- A double that is no multiple of the spacing around a ratio is further from it than the
    smallest double with that spacing. -/
theorem lt_of_lt_two_pow {k : Nat} (hk : Binary64.spacing (num / den) = k) (hpos : 0 < k)
    (hden : 0 < den) (hlt : units < 2 ^ (52 + k)) :
    units * den < 2 ^ 52 * (den * 2 ^ k) ∧ 2 ^ 52 * (den * 2 ^ k) ≤ num := by
  have hmul : 2 ^ (52 + k) * den = 2 ^ 52 * (den * 2 ^ k) := by
    rw [Nat.pow_add, Nat.mul_assoc, Nat.mul_comm (2 ^ k) den]
  have hle : 2 ^ (52 + k) ≤ num / den := by
    rw [← hk] at hpos ⊢
    exact Binary64.two_pow_le_of_spacing hpos
  rw [← hmul]
  exact ⟨Nat.mul_lt_mul_of_pos_right hlt hden, (Nat.le_div_iff_mul_le hden).1 hle⟩

/-- No double is nearer to a ratio than what it is rounded to. -/
theorem near_roundUnits (hden : 0 < den) (h : Binary64.Representable units) :
    ((roundUnits num den * den : Nat) - num : Int).natAbs ≤
      ((units * den : Nat) - num : Int).natAbs := by
  rw [roundUnits_mul_eq]
  generalize hk : Binary64.spacing (num / den) = k
  have hround := isRounded_roundHalfEven (Nat.mul_pos hden (Nat.two_pow_pos k)) num
  rcases h.dvd_or_lt k with ⟨m, rfl⟩ | ⟨hpos, hlt⟩
  · have hnear := hround.near m
    rwa [Nat.mul_comm (2 ^ k) m, Nat.mul_assoc, Nat.mul_comm (2 ^ k) den]
  · have hnear := hround.near (2 ^ 52)
    have hbelow := lt_of_lt_two_pow hk hpos hden hlt
    omega

/-- Another double is as near only if the last bit of what the ratio is rounded to is zero. -/
theorem even_roundUnits (hden : 0 < den) (h : Binary64.Representable units)
    (hne : units ≠ roundUnits num den)
    (htie : ((units * den : Nat) - num : Int).natAbs =
      ((roundUnits num den * den : Nat) - num : Int).natAbs) :
    Binary64.EvenMagnitude (roundUnits num den) := by
  rw [roundUnits_mul_eq] at htie
  have hquotient := div_spacing_lt num den
  have hupper := roundHalfEven_le num (den * 2 ^ Binary64.spacing (num / den))
  have hlower := le_roundHalfEven num (den * 2 ^ Binary64.spacing (num / den))
  unfold roundUnits at hne ⊢
  dsimp only at hne ⊢
  generalize hk : Binary64.spacing (num / den) = k at *
  have hstep : 0 < den * 2 ^ k := Nat.mul_pos hden (Nat.two_pow_pos k)
  have hround := isRounded_roundHalfEven hstep num
  have hleading : 0 < k → 2 ^ 52 ≤ roundHalfEven num (den * 2 ^ k) := by
    intro hpos
    have hbelow := lt_of_lt_two_pow hk hpos hden (Nat.two_pow_pos (52 + k))
    exact Nat.le_trans ((Nat.le_div_iff_mul_le hstep).2 hbelow.2) hlower
  refine Binary64.evenMagnitude_mul_two_pow ?_ (by omega) hleading
  rcases h.dvd_or_lt k with ⟨m, rfl⟩ | ⟨hpos, hlt⟩
  · refine hround.even_of_tie (m := m) hstep ?_ ?_
    · rintro rfl
      exact hne (Nat.mul_comm _ _)
    · rwa [Nat.mul_comm (2 ^ k) m, Nat.mul_assoc, Nat.mul_comm (2 ^ k) den] at htie
  · -- a double with a smaller spacing is further away
    have hnear := hround.near (2 ^ 52)
    have hbelow := lt_of_lt_two_pow hk hpos hden hlt
    omega

end RoundUnits

/-! ## Decimals as ratios -/

namespace Decimal

/-- The value of a decimal without its sign, in units, is `numerator / denominator`. -/
def numerator (d : Decimal) : Nat := d.coefficient * 10 ^ d.exponent.toNat * Binary64.one

def denominator (d : Decimal) : Nat := 10 ^ (-d.exponent).toNat

theorem denominator_pos (d : Decimal) : 0 < d.denominator := Nat.pow_pos (by decide)

theorem overflows_iff_ratio {d : Decimal} :
    d.Overflows ↔ Binary64.threshold * Binary64.one * d.denominator ≤ d.numerator := by
  rw [Overflows, numerator, denominator, Nat.mul_right_comm,
    Nat.mul_le_mul_right_iff Binary64.one_pos]

/-- What is divided by so large a power of ten is rounded to zero. -/
theorem roundUnits_of_small {d : Decimal} (h : d.exponent ≤ -(d.coefficient.log2 + 1080 : Nat)) :
    roundUnits d.numerator d.denominator = 0 := by
  apply roundUnits_eq_zero
  have hzero : d.exponent.toNat = 0 := by omega
  have hbits := Nat.mul_lt_mul_of_pos_right (Nat.lt_log2_self (n := d.coefficient))
    Binary64.one_pos
  rw [numerator, denominator, hzero, Nat.pow_zero, Nat.mul_one]
  calc 2 * (d.coefficient * Binary64.one)
      < 2 * (2 ^ (d.coefficient.log2 + 1) * Binary64.one) := by omega
    _ = 2 ^ (d.coefficient.log2 + 1076) := by
      rw [Binary64.one, ← Nat.pow_add, ← Nat.pow_succ']
      rfl
    _ ≤ 10 ^ (d.coefficient.log2 + 1076) := Nat.pow_le_pow_left (by decide) _
    _ ≤ 10 ^ (-d.exponent).toNat := Nat.pow_le_pow_right (by decide) (by omega)

/-- A decimal with its exponent between the bounds. -/
def clamped (d : Decimal) : Decimal := ⟨d.negative, d.coefficient, d.clampedExponent⟩

/-- The bounds do not change the nearest number. -/
theorem nearest_eq_ofRatio (d : Decimal) :
    d.nearest = Extended.ofRatio d.negative d.numerator d.denominator := by
  have hnearest : d.nearest =
    Extended.ofRatio d.negative d.clamped.numerator d.clamped.denominator := rfl
  have hbounds : d.clampedExponent =
    max (-((d.coefficient.log2 + 1080 : Nat) : Int)) (min d.exponent 310) := rfl
  by_cases hoverflows : d.Overflows
  · rw [(nearest_eq_infinite_iff d).2 hoverflows, eq_comm,
      Extended.ofRatio_eq_infinite_iff _ d.denominator_pos]
    exact overflows_iff_ratio.1 hoverflows
  rw [hnearest, Extended.ofRatio, Extended.ofRatio]
  by_cases hlarge : 310 < d.exponent
  · -- nothing but zero does not overflow
    have hzero : d.coefficient = 0 :=
      not_not.1 fun hne => hoverflows ((overflows_iff_of_large (by omega)).2 hne)
    have hrounded : ∀ e : Decimal, e.coefficient = 0 →
        roundUnits e.numerator e.denominator = 0 := by
      intro e he
      apply roundUnits_eq_zero
      rw [numerator, he, Nat.zero_mul, Nat.zero_mul]
      exact e.denominator_pos
    rw [hrounded d hzero, hrounded d.clamped hzero]
  by_cases hsmall : d.exponent < -(d.coefficient.log2 + 1080 : Nat)
  · have hclamped : d.clamped.exponent ≤ -(d.clamped.coefficient.log2 + 1080 : Nat) := by
      show d.clampedExponent ≤ -(d.coefficient.log2 + 1080 : Nat)
      omega
    rw [roundUnits_of_small hclamped, roundUnits_of_small (by omega)]
  · have hsame : d.clamped = d := by
      have hexponent : d.clampedExponent = d.exponent := by omega
      rw [clamped, hexponent]
    rw [hsame]

/-- A decimal is rounded to a double of the same sign if its magnitude is. -/
theorem nearest_eq_finite {d : Decimal} {x : Binary64} (hsign : d.negative = x.negative)
    (hunits : roundUnits d.numerator d.denominator = x.units) : d.nearest = .finite x := by
  rw [nearest_eq_ofRatio, Extended.ofRatio, hunits, Extended.ofUnits, dif_pos x.representable,
    hsign]

/-- Nothing is rounded to zero, with its sign. -/
theorem nearest_of_zero {d : Decimal} (h : d.coefficient = 0) :
    d.nearest = .finite (Binary64.zero d.negative) := by
  refine nearest_eq_finite rfl (roundUnits_eq_zero ?_)
  rw [numerator, h, Nat.zero_mul, Nat.zero_mul]
  exact d.denominator_pos

/-- The nearest number is up to the value of a decimal. -/
theorem nearest_congr {d e : Decimal} (hsign : d.negative = e.negative)
    (h : d.numerator * e.denominator = e.numerator * d.denominator) : d.nearest = e.nearest := by
  rw [nearest_eq_ofRatio, nearest_eq_ofRatio, hsign, Extended.ofRatio, Extended.ofRatio,
    roundUnits_congr d.denominator_pos e.denominator_pos h]

end Decimal

/-! ## Values -/

/-- A whole number with a sign. -/
def withSign (negative : Bool) (n : Nat) : Int := if negative then -n else n

/-- The value of a double. -/
def Binary64.toRat (x : Binary64) : ℚ := x.value / 2 ^ scale

/-- The value of a decimal. -/
def Decimal.toRat (d : Decimal) : ℚ := withSign d.negative d.coefficient * 10 ^ d.exponent

theorem natAbs_withSign (negative : Bool) (n : Nat) : (withSign negative n).natAbs = n := by
  unfold withSign
  split
  · rw [Int.natAbs_neg, Int.natAbs_natCast]
  · exact Int.natAbs_natCast n

theorem Binary64.value_eq_zero {x : Binary64} (h : x.units = 0) : x.value = 0 := by
  rw [value, h]
  split <;> rfl

/-- No double is nearer to a number than this one, and if another one is as near then the last
    bit of this one is zero. -/
structure Binary64.IsNearest (x : Binary64) (q : ℚ) : Prop where
  le : ∀ y : Binary64, |x.toRat - q| ≤ |y.toRat - q|
  even : ∀ y : Binary64, |y.toRat - q| = |x.toRat - q| →
    y.toRat = x.toRat ∨ EvenMagnitude x.units

/-- The number that a decimal is rounded to: the nearest double, with the same sign, or an
    infinity from the middle between the largest double and `2^1024` on. -/
inductive Decimal.Rounds (d : Decimal) : Extended → Prop
  | finite {x : Binary64} (hsign : x.negative = d.negative) (hnearest : x.IsNearest d.toRat)
      (hrange : |d.toRat| < 2 ^ 1024 - 2 ^ 970) : Rounds d (.finite x)
  | infinite (hrange : 2 ^ 1024 - 2 ^ 970 ≤ |d.toRat|) : Rounds d (.infinite d.negative)

/-- The distance between two numbers is that of their magnitudes if they have one sign, and
    otherwise the sum of their magnitudes. -/
theorem natAbs_withSign_sub (negative other : Bool) (m n : Nat) :
    (withSign negative m - withSign other n).natAbs =
      if negative = other then (m - n : Int).natAbs else m + n := by
  cases negative <;> cases other <;> simp [withSign] <;> omega

namespace Decimal

/-- A common measure of doubles and of the value of a decimal. -/
def measure (d : Decimal) : ℚ := Binary64.one * d.denominator

theorem measure_pos (d : Decimal) : 0 < d.measure := by
  have hpos : 0 < Binary64.one * d.denominator := Nat.mul_pos Binary64.one_pos d.denominator_pos
  rw [measure]
  exact_mod_cast hpos

theorem ten_zpow_mul (e : Int) : (10 : ℚ) ^ e * (10 ^ (-e).toNat : Nat) = (10 ^ e.toNat : Nat) := by
  rw [Nat.cast_pow, Nat.cast_pow, ← zpow_natCast, ← zpow_natCast, Nat.cast_ofNat,
    ← zpow_add₀ (by norm_num)]
  congr 1
  omega

theorem withSign_mul_natCast (negative : Bool) (m n : Nat) :
    withSign negative m * n = withSign negative (m * n) := by
  cases negative <;> simp [withSign]

theorem toRat_mul_measure (d : Decimal) :
    d.toRat * d.measure = (withSign d.negative d.numerator : Int) := by
  rw [numerator, ← withSign_mul_natCast, ← withSign_mul_natCast, Int.cast_mul, Int.cast_mul,
    Int.cast_natCast, Int.cast_natCast, ← ten_zpow_mul, toRat, measure, denominator]
  ring

end Decimal

theorem Binary64.toRat_mul_measure (x : Binary64) (d : Decimal) :
    x.toRat * d.measure = (withSign x.negative (x.units * d.denominator) : Int) := by
  have hone : (one : ℚ) = 2 ^ scale := by rw [one, Nat.cast_pow, Nat.cast_ofNat]
  have hne : (2 : ℚ) ^ scale ≠ 0 := pow_ne_zero _ (by norm_num)
  rw [← Decimal.withSign_mul_natCast, Int.cast_mul, Int.cast_natCast, toRat, Decimal.measure, hone,
    ← mul_assoc, div_mul_cancel₀ _ hne]
  rfl

/-- The distance of a double from the value of a decimal, in whole numbers. -/
def Decimal.distance (d : Decimal) (x : Binary64) : Nat :=
  (withSign x.negative (x.units * d.denominator) - withSign d.negative d.numerator).natAbs

namespace Decimal

variable {d : Decimal} {x y : Binary64}

theorem abs_sub_mul_measure (d : Decimal) (x : Binary64) :
    |x.toRat - d.toRat| * d.measure = d.distance x := by
  have hscaled : (x.toRat - d.toRat) * d.measure =
      (withSign x.negative (x.units * d.denominator) - withSign d.negative d.numerator : Int) := by
    rw [sub_mul, x.toRat_mul_measure, d.toRat_mul_measure, Int.cast_sub]
  calc |x.toRat - d.toRat| * d.measure
      = |(x.toRat - d.toRat) * d.measure| := by rw [abs_mul, abs_of_pos d.measure_pos]
    _ = d.distance x := by
      rw [hscaled, ← Int.cast_abs, Int.abs_eq_natAbs, Int.cast_natCast]
      rfl

theorem abs_sub_le_iff :
    |x.toRat - d.toRat| ≤ |y.toRat - d.toRat| ↔ d.distance x ≤ d.distance y := by
  rw [← mul_le_mul_iff_of_pos_right d.measure_pos, abs_sub_mul_measure, abs_sub_mul_measure,
    Nat.cast_le]

theorem abs_sub_eq_iff :
    |x.toRat - d.toRat| = |y.toRat - d.toRat| ↔ d.distance x = d.distance y := by
  rw [← mul_left_inj' (ne_of_gt d.measure_pos), abs_sub_mul_measure, abs_sub_mul_measure,
    Nat.cast_inj]

theorem cast_two_pow_sub (a b : Nat) (h : b ≤ a) : ((2 ^ a - 2 ^ b : Nat) : ℚ) = 2 ^ a - 2 ^ b := by
  rw [Nat.cast_sub (Nat.pow_le_pow_right Nat.two_pos h), Nat.cast_pow, Nat.cast_pow, Nat.cast_ofNat]

/-- The bound of the range as an exact value. -/
theorem le_abs_toRat_iff : 2 ^ 1024 - 2 ^ 970 ≤ |d.toRat| ↔ d.Overflows := by
  have hthreshold : (2 ^ 1024 - 2 ^ 970 : ℚ) = Binary64.threshold := by
    rw [Binary64.threshold, cast_two_pow_sub 1024 970 (by decide)]
  have hvalue : |d.toRat| * d.measure = d.numerator := by
    calc |d.toRat| * d.measure = |d.toRat * d.measure| := by rw [abs_mul, abs_of_pos d.measure_pos]
      _ = (withSign d.negative d.numerator).natAbs := by
        rw [toRat_mul_measure, ← Int.cast_abs, Int.abs_eq_natAbs, Int.cast_natCast]
      _ = d.numerator := by rw [natAbs_withSign]
  rw [hthreshold, ← mul_le_mul_iff_of_pos_right d.measure_pos, hvalue, overflows_iff_ratio, measure,
    ← mul_assoc, ← Nat.cast_mul, ← Nat.cast_mul, Nat.cast_le]

/-- The distance is that of the magnitudes if the signs are the same. -/
theorem distance_eq (d : Decimal) (x : Binary64) :
    d.distance x =
      if x.negative = d.negative then ((x.units * d.denominator : Nat) - d.numerator : Int).natAbs
      else x.units * d.denominator + d.numerator :=
  natAbs_withSign_sub _ _ _ _

theorem distance_zero (d : Decimal) : d.distance (Binary64.zero d.negative) = d.numerator := by
  have hsign : (Binary64.zero d.negative).negative = d.negative := rfl
  have hunits : (Binary64.zero d.negative).units = 0 := rfl
  rw [distance_eq, if_pos hsign, hunits]
  omega

/-- No double is nearer than the one with the rounded magnitude and the same sign. -/
theorem distance_le (hsign : x.negative = d.negative)
    (hunits : x.units = roundUnits d.numerator d.denominator) (y : Binary64) :
    d.distance x ≤ d.distance y := by
  have hnear :
      ((roundUnits d.numerator d.denominator * d.denominator : Nat) - d.numerator : Int).natAbs ≤
      ((y.units * d.denominator : Nat) - d.numerator : Int).natAbs :=
    near_roundUnits d.denominator_pos y.representable
  rw [distance_eq, distance_eq, if_pos hsign, hunits]
  split
  · exact hnear
  · -- the other sign is on the other side of zero
    omega

/-- A double with the rounded magnitude and the same sign is nearest. -/
theorem isNearest_of_units (hsign : x.negative = d.negative)
    (hunits : x.units = roundUnits d.numerator d.denominator) : x.IsNearest d.toRat where
  le y := abs_sub_le_iff.2 (distance_le hsign hunits y)
  even y htie := by
    rw [abs_sub_eq_iff] at htie
    have heven {units : Nat} (hrepresentable : Binary64.Representable units)
        (hne : units ≠ x.units)
        (heq : ((units * d.denominator : Nat) - d.numerator : Int).natAbs = d.distance x) :
        Binary64.EvenMagnitude x.units := by
      rw [distance_eq, if_pos hsign, hunits] at heq
      rw [hunits] at hne ⊢
      exact even_roundUnits d.denominator_pos hrepresentable hne heq
    have hsame (hvalue : y.value = x.value) : y.toRat = x.toRat := by
      rw [Binary64.toRat, Binary64.toRat, hvalue]
    rw [distance_eq d y] at htie
    split at htie
    · rename_i hsame_sign
      by_cases hne : y.units = x.units
      · left
        apply hsame
        rw [Binary64.value, Binary64.value, hne, hsign, hsame_sign]
      · exact Or.inr (heven y.representable hne htie)
    · -- with the other sign, only zero is not further away
      have hle := distance_le hsign hunits (Binary64.zero d.negative)
      rw [distance_zero, ← htie] at hle
      have hzero : y.units = 0 := by
        have hmul : y.units * d.denominator = 0 := by omega
        exact (Nat.mul_eq_zero.1 hmul).resolve_right (Nat.ne_of_gt d.denominator_pos)
      by_cases hxzero : x.units = 0
      · left
        apply hsame
        rw [Binary64.value_eq_zero hzero, Binary64.value_eq_zero hxzero]
      · refine Or.inr (heven Binary64.representable_zero (Ne.symm hxzero) ?_)
        rw [← htie, hzero]
        omega

end Decimal

/-! ## There is one nearest number -/

namespace Binary64

/-- An even magnitude is a multiple of twice its spacing. -/
theorem EvenMagnitude.dvd {units : Nat} (h : EvenMagnitude units) (hunits : Representable units) :
    2 ^ (spacing units + 1) ∣ units := by
  obtain ⟨half, hhalf⟩ := Nat.dvd_of_mod_eq_zero h
  refine ⟨half, ?_⟩
  calc units = units / 2 ^ spacing units * 2 ^ spacing units := (Nat.div_mul_cancel hunits.2).symm
    _ = 2 ^ (spacing units + 1) * half := by
      rw [hhalf, Nat.pow_succ']
      exact Nat.mul_right_comm _ _ _

/-- Between two even magnitudes lies another one, which is odd. -/
theorem exists_magnitude_between {m n : Nat} (hm : Representable m) (hn : Representable n)
    (hmeven : EvenMagnitude m) (hneven : EvenMagnitude n) (h : m < n) :
    ∃ k, Representable k ∧ m < k ∧ k < n := by
  have hlog : spacing m ≤ spacing n := by
    unfold spacing
    rcases Nat.eq_zero_or_pos m with rfl | hpos
    · simp
    · have hle := (Nat.le_log2 (Nat.ne_of_gt (Nat.lt_trans hpos h))).2
        (Nat.le_trans (Nat.log2_self_le (Nat.ne_of_gt hpos)) (Nat.le_of_lt h))
      omega
  -- both are multiples of twice the smaller spacing, and the middle behind the first is odd
  obtain ⟨a, ha⟩ := hmeven.dvd hm
  obtain ⟨b, hb⟩ : 2 ^ (spacing m + 1) ∣ n :=
    Nat.dvd_trans (Nat.pow_dvd_pow 2 (Nat.succ_le_succ hlog)) (hneven.dvd hn)
  have hpos := Nat.two_pow_pos (spacing m)
  have hdouble : 2 ^ (spacing m + 1) = 2 * 2 ^ spacing m := Nat.pow_succ'
  have hlt : a < b := by
    rw [ha, hb] at h
    exact Nat.lt_of_mul_lt_mul_left h
  have hnext : 2 ^ (spacing m + 1) * a + 2 ^ (spacing m + 1) ≤ 2 ^ (spacing m + 1) * b := by
    rw [← Nat.mul_succ]
    exact Nat.mul_le_mul_left _ hlt
  have hmiddle : (2 * a + 1) * 2 ^ spacing m = 2 ^ (spacing m + 1) * a + 2 ^ spacing m := by
    rw [hdouble, Nat.add_mul, Nat.one_mul, Nat.mul_right_comm]
  have hbits : 2 * a + 1 ≤ 2 ^ 53 := by
    have hquotient := div_spacing_lt m 1
    have heven : m / 2 ^ spacing m = 2 * a := by
      refine Nat.div_eq_of_eq_mul_left hpos (ha.trans ?_)
      rw [hdouble, Nat.mul_right_comm]
    rw [Nat.div_one, Nat.one_mul, heven] at hquotient
    omega
  refine ⟨(2 * a + 1) * 2 ^ spacing m, ⟨?_, spacing_dvd_mul_two_pow _ hbits⟩, ?_, ?_⟩
  · have hrange := hn.1
    omega
  · omega
  · omega

/-- Between two different doubles with even magnitudes lies another double. -/
theorem exists_between {x y : Binary64} (hx : EvenMagnitude x.units) (hy : EvenMagnitude y.units)
    (h : x.value < y.value) : ∃ z : Binary64, x.value < z.value ∧ z.value < y.value := by
  obtain ⟨negative, m, hm⟩ := x
  obtain ⟨negative', n, hn⟩ := y
  dsimp only at hx hy
  cases negative with
  | false =>
    cases negative' with
    | false =>
      have hlt : m < n := by simpa [value] using h
      obtain ⟨k, hk, hmk, hkn⟩ := exists_magnitude_between hm hn hx hy hlt
      exact ⟨⟨false, k, hk⟩, by simpa [value] using hmk, by simpa [value] using hkn⟩
    | true =>
      simp [value] at h
      omega
  | true =>
    cases negative' with
    | true =>
      have hlt : n < m := by simpa [value] using h
      obtain ⟨k, hk, hnk, hkm⟩ := exists_magnitude_between hn hm hy hx hlt
      exact ⟨⟨true, k, hk⟩, by simpa [value] using hkm, by simpa [value] using hnk⟩
    | false =>
      -- zero lies between them, or one of them is zero
      rcases Nat.eq_zero_or_pos m with rfl | hmpos
      · have hlt : 0 < n := by simpa [value] using h
        obtain ⟨k, hk, hmk, hkn⟩ := exists_magnitude_between hm hn hx hy hlt
        exact ⟨⟨false, k, hk⟩, by simpa [value] using hmk, by simpa [value] using hkn⟩
      rcases Nat.eq_zero_or_pos n with rfl | hnpos
      · obtain ⟨k, hk, hnk, hkm⟩ := exists_magnitude_between hn hm hy hx hmpos
        exact ⟨⟨true, k, hk⟩, by simpa [value] using hkm, by simpa [value] using hnk⟩
      · exact ⟨zero false, by simpa [value, zero] using hmpos, by simpa [value, zero] using hnpos⟩

variable {x y : Binary64}

theorem toRat_lt_iff : x.toRat < y.toRat ↔ x.value < y.value := by
  rw [toRat, toRat, div_lt_div_iff_of_pos_right (pow_pos (by norm_num) _), Int.cast_lt]

/-- Of two doubles that are both nearest, the second one is not smaller. -/
theorem IsNearest.toRat_le {q : ℚ} (hx : x.IsNearest q) (hy : y.IsNearest q) :
    y.toRat ≤ x.toRat := by
  by_contra hnot
  have hlt : x.toRat < y.toRat := not_le.1 hnot
  have htie : |x.toRat - q| = |y.toRat - q| := le_antisymm (hx.le y) (hy.le x)
  have hxeven := (hx.even y htie.symm).resolve_left (ne_of_gt hlt)
  have hyeven := (hy.even x htie).resolve_left (ne_of_lt hlt)
  obtain ⟨z, hxz, hzy⟩ := exists_between hxeven hyeven (toRat_lt_iff.1 hlt)
  rw [← toRat_lt_iff] at hxz hzy
  have hle := hx.le z
  -- the number is in the middle, and what lies between is nearer to it
  rcases abs_eq_abs.1 htie with heq | hopposite
  · linarith
  · rw [abs_of_neg (by linarith)] at hle
    have hnearer : |z.toRat - q| < -(x.toRat - q) := abs_lt.2 ⟨by linarith, by linarith⟩
    linarith

theorem IsNearest.toRat_eq {q : ℚ} (hx : x.IsNearest q) (hy : y.IsNearest q) :
    x.toRat = y.toRat :=
  le_antisymm (hy.toRat_le hx) (hx.toRat_le hy)

/-- Doubles of one value and one sign are the same. -/
theorem eq_of_toRat_eq (hsign : x.negative = y.negative) (h : x.toRat = y.toRat) : x = y := by
  have hvalue : x.value = y.value := by
    have hle : ¬x.value < y.value := by rw [← toRat_lt_iff, h]; exact lt_irrefl _
    have hge : ¬y.value < x.value := by rw [← toRat_lt_iff, h]; exact lt_irrefl _
    omega
  obtain ⟨negative, m, hm⟩ := x
  obtain ⟨negative', n, hn⟩ := y
  obtain rfl : negative = negative' := hsign
  obtain rfl : m = n := by
    simp only [value] at hvalue
    split at hvalue <;> omega
  rfl

end Binary64

namespace Decimal

variable {d : Decimal}

/-- The nearest number is what a decimal is rounded to. -/
theorem rounds_nearest (d : Decimal) : d.Rounds d.nearest := by
  by_cases hoverflows : d.Overflows
  · rw [(nearest_eq_infinite_iff d).2 hoverflows]
    exact .infinite (le_abs_toRat_iff.2 hoverflows)
  · obtain ⟨x, hx⟩ := exists_nearest_eq_finite hoverflows
    have hrange : |d.toRat| < 2 ^ 1024 - 2 ^ 970 :=
      not_le.1 fun hle => hoverflows (le_abs_toRat_iff.1 hle)
    obtain ⟨hsign, hunits⟩ :
        x.negative = d.negative ∧ x.units = roundUnits d.numerator d.denominator := by
      have hratio := hx
      rw [nearest_eq_ofRatio, Extended.ofRatio, Extended.ofUnits] at hratio
      split at hratio
      · obtain rfl := Extended.finite.inj hratio
        exact ⟨rfl, rfl⟩
      · cases hratio
    rw [hx]
    exact .finite hsign (isNearest_of_units hsign hunits) hrange

/-- There is one number that a decimal is rounded to. -/
theorem Rounds.unique {x y : Extended} (hx : d.Rounds x) (hy : d.Rounds y) : x = y := by
  cases hx with
  | finite hsign hnearest hrange =>
    cases hy with
    | finite hsign' hnearest' _ =>
      exact congrArg Extended.finite
        (Binary64.eq_of_toRat_eq (hsign.trans hsign'.symm) (hnearest.toRat_eq hnearest'))
    | infinite hrange' => exact absurd hrange (not_lt.2 hrange')
  | infinite hrange =>
    cases hy with
    | finite _ _ hrange' => exact absurd hrange' (not_lt.2 hrange)
    | infinite _ => rfl

/-- The nearest number is the one that a decimal is rounded to. -/
theorem nearest_eq_iff_rounds {x : Extended} : d.nearest = x ↔ d.Rounds x := by
  constructor
  · rintro rfl
    exact rounds_nearest d
  · exact (rounds_nearest d).unique

end Decimal

end FormRules
