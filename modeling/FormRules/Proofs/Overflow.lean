/-
  FormRules.Proofs.Overflow

  When the double nearest to a decimal number is an infinity. The largest double is
  `2^1024 - 2^971`, and the middle between it and `2^1024` is the first magnitude that is
  rounded to infinity: below it the largest double is at least as near, and in the middle
  the tie goes to `2^1024`, whose last bit is even.

  Main statements: `Decimal.nearest_eq_infinite_iff`, and `Decimal.Overflows.exceeds`, a
  number that overflows is larger than every double.
-/

import FormRules.Number.Decimal

namespace FormRules

/-- The middle between the largest double and `2^1024`. -/
def Binary64.threshold : Nat := 2 ^ 1024 - 2 ^ 970

/-! ## Rounding up to a magnitude -/

/-- Rounding reaches an even number from half a unit below it. -/
theorem le_roundHalfEven_iff {m num den : Nat} (heven : m % 2 = 0) (hden : 0 < den) :
    m ≤ roundHalfEven num den ↔ 2 * (m * den) ≤ 2 * num + den := by
  have hsplit : num / den * den + num % den = num := by
    rw [Nat.mul_comm]
    exact Nat.div_add_mod num den
  have hmod := Nat.mod_lt num hden
  unfold roundHalfEven
  -- the result is the quotient or the number behind it, so that only this one is in question
  rcases Nat.lt_trichotomy m (num / den + 1) with hlt | rfl | hgt
  · -- the quotient itself is not smaller
    have hle : m * den ≤ num / den * den := Nat.mul_le_mul_right den (by omega)
    dsimp only
    split <;> omega
  · -- the quotient is odd, so that a half is rounded up
    rw [Nat.add_mul]
    dsimp only
    split <;> omega
  · -- more than the number behind the quotient is never reached
    have hle : (num / den + 2) * den ≤ m * den := Nat.mul_le_mul_right den (by omega)
    rw [Nat.add_mul] at hle
    dsimp only
    split <;> omega

/-- The spacing of doubles is not larger than the magnitude, zero apart. -/
theorem two_pow_spacing_le (units : Nat) : 2 ^ Binary64.spacing units ≤ units + 1 := by
  unfold Binary64.spacing
  rcases Nat.eq_zero_or_pos units with rfl | hpos
  · simp
  · have hlog : 2 ^ units.log2 ≤ units := Nat.log2_self_le (by omega)
    have hpow : 2 ^ (units.log2 - 52) ≤ 2 ^ units.log2 :=
      Nat.pow_le_pow_right (by decide) (Nat.sub_le _ _)
    omega

/-- Rounding no more than doubles a magnitude of at least one unit. -/
theorem roundUnits_le (num den : Nat) : roundUnits num den ≤ 2 * (num / den) + 1 := by
  have hround := roundHalfEven_le num (den * 2 ^ Binary64.spacing (num / den))
  rw [← Nat.div_div_eq_div_mul] at hround
  have hmul := Nat.mul_le_mul_right (2 ^ Binary64.spacing (num / den)) hround
  have hdiv := Nat.div_mul_le_self (num / den) (2 ^ Binary64.spacing (num / den))
  have hspacing := two_pow_spacing_le (num / den)
  rw [Nat.add_mul, Nat.one_mul] at hmul
  unfold roundUnits
  dsimp only
  omega

theorem le_roundHalfEven (num den : Nat) : num / den ≤ roundHalfEven num den := by
  unfold roundHalfEven
  dsimp only
  split <;> omega

/-- Rounding does not go below a power of two, from `2^52` units on. -/
theorem two_pow_le_roundUnits {num den k : Nat} (hk : 52 ≤ k) (h : 2 ^ k ≤ num / den) :
    2 ^ k ≤ roundUnits num den := by
  have hne : num / den ≠ 0 := Nat.ne_of_gt (Nat.lt_of_lt_of_le (Nat.two_pow_pos k) h)
  have hlog : k ≤ (num / den).log2 := (Nat.le_log2 hne).2 h
  -- the power of two at or below the magnitude is a multiple of the spacing
  have hpow : 2 ^ (num / den).log2 = 2 ^ 52 * 2 ^ Binary64.spacing (num / den) := by
    rw [← Nat.pow_add, Binary64.spacing, Nat.add_sub_cancel' (Nat.le_trans hk hlog)]
  have hquotient : 2 ^ 52 ≤ num / (den * 2 ^ Binary64.spacing (num / den)) := by
    rw [← Nat.div_div_eq_div_mul, Nat.le_div_iff_mul_le (Nat.two_pow_pos _), ← hpow]
    exact Nat.log2_self_le hne
  have hround : 2 ^ (num / den).log2 ≤ roundUnits num den := by
    rw [hpow, roundUnits]
    exact Nat.mul_le_mul_right _ (Nat.le_trans hquotient (le_roundHalfEven _ _))
  exact Nat.le_trans (Nat.pow_le_pow_right (by decide) hlog) hround

/-- The next power of two is reached from half a spacing below it. -/
theorem two_pow_le_roundUnits_iff {num den k : Nat} (hden : 0 < den)
    (hlog : (num / den).log2 = 53 + k) :
    2 ^ (54 + k) ≤ roundUnits num den ↔ (2 ^ 54 - 1) * 2 ^ k * den ≤ num := by
  have hspacing : Binary64.spacing (num / den) = k + 1 := by
    rw [Binary64.spacing, hlog]
    omega
  have hpow : 2 ^ (54 + k) = 2 ^ 53 * 2 ^ (k + 1) := by
    rw [← Nat.pow_add]
    congr 1
    omega
  -- the power of two is an even number of spacings, so that a tie is rounded up to it
  have hhalf : den * 2 ^ (k + 1) = 2 * (2 ^ k * den) := by
    rw [Nat.pow_succ', Nat.mul_left_comm, Nat.mul_comm den]
  have hpos : 0 < den * 2 ^ (k + 1) := Nat.mul_pos hden (Nat.two_pow_pos _)
  rw [roundUnits, hspacing, hpow, Nat.mul_le_mul_right_iff (Nat.two_pow_pos _),
    le_roundHalfEven_iff rfl hpos, hhalf, Nat.mul_assoc]
  omega

/-- Rounding leaves the range of doubles from the middle between the largest of them and
    `2^1024` on. -/
theorem overflow_le_roundUnits_iff {num den : Nat} (hden : 0 < den) :
    Binary64.overflow ≤ roundUnits num den ↔ Binary64.threshold * Binary64.one * den ≤ num := by
  have hoverflow : Binary64.overflow = 2 ^ (54 + 2044) := by decide +kernel
  have hthreshold : Binary64.threshold * Binary64.one = (2 ^ 54 - 1) * 2 ^ 2044 := by
    decide +kernel
  have hbetween : 2 * 2 ^ (53 + 2044) = Binary64.overflow ∧
      2 ^ (53 + 2044) ≤ Binary64.threshold * Binary64.one ∧
      Binary64.threshold * Binary64.one ≤ Binary64.overflow := by decide +kernel
  -- below `2^1023`, between it and `2^1024`, or beyond
  rcases Nat.lt_or_ge (num / den) (2 ^ (53 + 2044)) with hsmall | hlarge
  · have hround := roundUnits_le num den
    rw [← Nat.le_div_iff_mul_le hden]
    omega
  have hne : num / den ≠ 0 := Nat.ne_of_gt (Nat.lt_of_lt_of_le (Nat.two_pow_pos _) hlarge)
  rcases Nat.lt_or_ge (num / den) (2 ^ (54 + 2044)) with hlt | hge
  · have hle := (Nat.le_log2 hne).2 hlarge
    have hlt' := (Nat.log2_lt hne).2 hlt
    rw [hoverflow, hthreshold]
    exact two_pow_le_roundUnits_iff (k := 2044) hden (by omega)
  · have hround := two_pow_le_roundUnits (by decide) hge
    rw [← Nat.le_div_iff_mul_le hden]
    omega

/-- A double is the nearest one to itself. -/
theorem roundUnits_of_representable {units : Nat} (h : Binary64.Representable units) :
    roundUnits units 1 = units := by
  rw [roundUnits, Nat.div_one, Nat.one_mul, roundHalfEven, Nat.mod_eq_zero_of_dvd h.2,
    if_pos (Or.inl (Nat.two_pow_pos _)), Nat.div_mul_cancel h.2]

/-- All doubles lie below the threshold. -/
theorem Binary64.units_lt_threshold (x : Binary64) :
    x.units < Binary64.threshold * Binary64.one := by
  have hiff := @overflow_le_roundUnits_iff x.units 1 Nat.one_pos
  rw [roundUnits_of_representable x.representable, Nat.mul_one] at hiff
  exact Nat.lt_of_not_le fun hle => Nat.not_lt.2 (hiff.2 hle) x.representable.1

/-! ## Infinities -/

/-- The nearest number is an infinity from the threshold on. -/
theorem Extended.ofRatio_eq_infinite_iff (negative : Bool) {num den : Nat} (hden : 0 < den) :
    Extended.ofRatio negative num den = .infinite negative ↔
      Binary64.threshold * Binary64.one * den ≤ num := by
  rw [← overflow_le_roundUnits_iff hden, Extended.ofRatio, Extended.ofUnits]
  split
  · rename_i hfinite
    simpa using hfinite.1
  · rename_i hbeyond
    simpa using Nat.not_lt.1 fun hlt => hbeyond (representable_roundUnits hlt)

namespace Decimal

/-- The magnitude is not below the middle between the largest double and `2^1024`. -/
def Overflows (d : Decimal) : Prop :=
  Binary64.threshold * 10 ^ (-d.exponent).toNat ≤ d.coefficient * 10 ^ d.exponent.toNat

/-- With a large exponent every coefficient but zero overflows. -/
theorem overflows_iff_of_large {d : Decimal} (h : 310 ≤ d.exponent) :
    d.Overflows ↔ d.coefficient ≠ 0 := by
  obtain ⟨k, hk, hthreshold⟩ : ∃ k, k ≤ 310 ∧ Binary64.threshold ≤ 10 ^ k :=
    ⟨310, Nat.le_refl _, by decide +kernel⟩
  have hpow : 10 ^ k ≤ 10 ^ d.exponent.toNat := Nat.pow_le_pow_right (by decide) (by omega)
  have hzero : (-d.exponent).toNat = 0 := by omega
  rw [Overflows, hzero, Nat.pow_zero, Nat.mul_one]
  constructor
  · intro hle hcoefficient
    rw [hcoefficient, Nat.zero_mul] at hle
    exact absurd hle (by decide +kernel)
  · intro hne
    have hmul := Nat.mul_le_mul_right (10 ^ d.exponent.toNat) (Nat.one_le_iff_ne_zero.2 hne)
    omega

/-- A coefficient that is divided by a power of ten with as many digits as it has bits does
    not overflow. -/
theorem not_overflows_of_small {d : Decimal} (h : d.exponent ≤ -(d.coefficient.log2 + 1 : Nat)) :
    ¬d.Overflows := by
  have hzero : d.exponent.toNat = 0 := by omega
  have hbits : d.coefficient < 2 ^ (d.coefficient.log2 + 1) := Nat.lt_log2_self
  have hbase : 2 ^ (d.coefficient.log2 + 1) ≤ 10 ^ (d.coefficient.log2 + 1) :=
    Nat.pow_le_pow_left (by decide) _
  have hpow : 10 ^ (d.coefficient.log2 + 1) ≤ 10 ^ (-d.exponent).toNat :=
    Nat.pow_le_pow_right (by decide) (by omega)
  have hthreshold : 1 ≤ Binary64.threshold := by decide +kernel
  have hmul := Nat.mul_le_mul_right (10 ^ (-d.exponent).toNat) hthreshold
  rw [Overflows, hzero, Nat.pow_zero, Nat.mul_one]
  omega

/-- Whether a number overflows does not change with the bounds of its exponent. -/
theorem overflows_clamped (d : Decimal) :
    (Decimal.mk d.negative d.coefficient d.clampedExponent).Overflows ↔ d.Overflows := by
  have hclamped : d.clampedExponent =
    max (-((d.coefficient.log2 + 1080 : Nat) : Int)) (min d.exponent 310) := rfl
  -- beyond a bound the outcome does not change, whatever the exponent is
  by_cases hlarge : 310 ≤ d.exponent
  · have hbound : 310 ≤ d.clampedExponent := by omega
    exact (@overflows_iff_of_large ⟨_, _, _⟩ hbound).trans (overflows_iff_of_large hlarge).symm
  by_cases hsmall : d.exponent ≤ -(d.coefficient.log2 + 1080 : Nat)
  · have hbound : d.clampedExponent ≤ -(d.coefficient.log2 + 1 : Nat) := by omega
    exact iff_of_false (@not_overflows_of_small ⟨_, _, _⟩ hbound)
      (not_overflows_of_small (by omega))
  · -- between the bounds nothing is changed
    have hsame : d.clampedExponent = d.exponent := by omega
    rw [hsame]

/-- The nearest number is an infinity exactly if the number overflows. -/
theorem nearest_eq_infinite_iff (d : Decimal) :
    d.nearest = .infinite d.negative ↔ d.Overflows := by
  have hden : 0 < 10 ^ (-d.clampedExponent).toNat := Nat.pow_pos (by decide)
  rw [nearest, Extended.ofRatio_eq_infinite_iff d.negative hden, ← overflows_clamped, Overflows,
    Nat.mul_right_comm, Nat.mul_le_mul_right_iff Binary64.one_pos]

/-- The nearest number of a decimal one is finite, unless it overflows. -/
theorem exists_nearest_eq_finite {d : Decimal} (h : ¬d.Overflows) :
    ∃ x, d.nearest = .finite x := by
  rw [← nearest_eq_infinite_iff, nearest, Extended.ofRatio, Extended.ofUnits] at h
  rw [nearest, Extended.ofRatio, Extended.ofUnits]
  split
  · exact ⟨_, rfl⟩
  · rename_i hbeyond
    exact absurd (dif_neg hbeyond) h

/-- A number that overflows is larger than every double. -/
theorem Overflows.exceeds {d : Decimal} (h : d.Overflows) (x : Binary64) :
    x.units * 10 ^ (-d.exponent).toNat < d.coefficient * 10 ^ d.exponent.toNat * Binary64.one := by
  calc x.units * 10 ^ (-d.exponent).toNat
      < Binary64.threshold * Binary64.one * 10 ^ (-d.exponent).toNat :=
        Nat.mul_lt_mul_of_pos_right x.units_lt_threshold (Nat.pow_pos (by decide))
    _ = Binary64.threshold * 10 ^ (-d.exponent).toNat * Binary64.one := Nat.mul_right_comm _ _ _
    _ ≤ d.coefficient * 10 ^ d.exponent.toNat * Binary64.one := Nat.mul_le_mul_right _ h

end Decimal

end FormRules
