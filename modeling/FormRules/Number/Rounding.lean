/-
  FormRules.Number.Rounding

  Rounding an exact ratio to a double: to the nearest one, and from the middle
  between two to the one whose last bit is even. Magnitudes from the middle
  between the largest double and `2^1024` on round to infinity.

  The main lemma is `representable_roundUnits`: what rounding yields below
  `2^1024` is the magnitude of a double, so `Extended.ofRatio` needs no case for
  a magnitude that is none.
-/

import FormRules.Number.Binary64

namespace FormRules

/-! ## Rounding magnitudes -/

/-- The whole number nearest to `num / den`; a half goes to the even neighbour. -/
def roundHalfEven (num den : Nat) : Nat :=
  let quotient := num / den
  let twice := 2 * (num % den)
  if twice < den ∨ (twice = den ∧ quotient % 2 = 0) then quotient else quotient + 1

/-- The magnitude nearest to `num / den` units among the multiples of the spacing
    of doubles there. -/
def roundUnits (num den : Nat) : Nat :=
  let spacing := Binary64.spacing (num / den)
  roundHalfEven num (den * 2 ^ spacing) * 2 ^ spacing

/-- The double nearest to `num / den` units of `2^-1074`, with the given sign. -/
def Extended.ofUnits (negative : Bool) (units : Nat) : Extended :=
  if h : Binary64.Representable units then .finite ⟨negative, units, h⟩ else .infinite negative

/-- The number nearest to `num / den` units of `2^-1074`, with the given sign. -/
def Extended.ofRatio (negative : Bool) (num den : Nat) : Extended :=
  Extended.ofUnits negative (roundUnits num den)

/-! ## Rounded magnitudes are doubles -/

theorem roundHalfEven_le (num den : Nat) : roundHalfEven num den ≤ num / den + 1 := by
  unfold roundHalfEven
  dsimp only
  split <;> omega

/-- Up to 53 bits followed by zeros make the magnitude of a double. -/
theorem spacing_dvd_mul_two_pow {m : Nat} (k : Nat) (hm : m ≤ 2 ^ 53) :
    2 ^ Binary64.spacing (m * 2 ^ k) ∣ m * 2 ^ k := by
  unfold Binary64.spacing
  rcases Nat.eq_zero_or_pos m with rfl | hpos
  · simp
  rcases Nat.lt_or_eq_of_le hm with hlt | rfl
  · have hne : m * 2 ^ k ≠ 0 := Nat.ne_of_gt (Nat.mul_pos hpos (Nat.two_pow_pos k))
    have hlog : (m * 2 ^ k).log2 < 53 + k := by
      rw [Nat.log2_lt hne, Nat.pow_add]
      exact Nat.mul_lt_mul_of_pos_right hlt (Nat.two_pow_pos k)
    exact Nat.dvd_trans (Nat.pow_dvd_pow 2 (by omega)) (Nat.dvd_mul_left _ _)
  · rw [← Nat.pow_add, Nat.log2_two_pow]
    exact Nat.pow_dvd_pow 2 (by omega)

/-- A ratio divided by the spacing around it has at most 53 bits. -/
theorem div_spacing_lt (num den : Nat) :
    num / (den * 2 ^ Binary64.spacing (num / den)) < 2 ^ 53 := by
  rw [← Nat.div_div_eq_div_mul, Nat.div_lt_iff_lt_mul (Nat.two_pow_pos _), ← Nat.pow_add]
  refine Nat.lt_of_lt_of_le Nat.lt_log2_self (Nat.pow_le_pow_right (by decide) ?_)
  unfold Binary64.spacing
  omega

/-- Below `2^1024`, rounding yields the magnitude of a double. -/
theorem representable_roundUnits {num den : Nat} (h : roundUnits num den < Binary64.overflow) :
    Binary64.Representable (roundUnits num den) := by
  refine ⟨h, ?_⟩
  have hle := roundHalfEven_le num (den * 2 ^ Binary64.spacing (num / den))
  have hlt := div_spacing_lt num den
  exact spacing_dvd_mul_two_pow _ (by omega)

end FormRules
