/-
  FormRules.Proofs.Truth

  Which values count as false, shape by shape, and when the first operand of a connective is
  the value of the whole.

  Of the numbers it is the zeros, and a number that is not zero is never taken for one: a
  double counts its units, and an integer is rounded to at least one.

  Main statements: `Value.isTruthy_eq_false_iff` and `Connective.decides_iff`.
-/

import FormRules.Proofs.Content
import FormRules.Proofs.Nearest
import FormRules.Rule.Evaluation

namespace FormRules

/-! ## Zero -/

/-- The zeros among the numbers of JSON documents. -/
inductive Number.IsZero : Number → Prop
  | integer : IsZero (.integer 0)
  | double (negative : Bool) : IsZero (.double (.zero negative))

theorem Binary64.value_eq_zero_iff {x : Binary64} :
    x.value = 0 ↔ ∃ negative, x = .zero negative := by
  constructor
  · intro h
    have hunits : x.units = 0 := by
      unfold value at h
      split at h <;> omega
    exact ⟨x.negative, by cases x; cases hunits; rfl⟩
  · rintro ⟨negative, rfl⟩
    exact value_eq_zero rfl

/-- A magnitude of some units does not lie at zero, even if it is beyond all doubles. -/
theorem Extended.position?_ofUnits_ne (negative : Bool) {units : Nat} (h : 0 < units) :
    (ofUnits negative units).position? ≠ some 0 := by
  have hoverflow := Binary64.overflow_pos
  intro hzero
  unfold ofUnits at hzero
  split at hzero
  · have hvalue := Option.some.inj hzero
    dsimp only [Binary64.value] at hvalue
    split at hvalue <;> omega
  · have hbound := Option.some.inj hzero
    split at hbound <;> omega

theorem Number.position?_integer_ne {n : Int} (h : n ≠ 0) :
    (Number.integer n).toExtended.position? ≠ some 0 := by
  rw [toExtended, Decimal.nearest_eq_ofRatio]
  apply Extended.position?_ofUnits_ne
  -- an integer has at least the units of one, and rounding keeps a power of two below
  have hnum : (Decimal.mk (n < 0) n.natAbs 0).numerator = n.natAbs * Binary64.one := by
    simp [Decimal.numerator]
  have hden : (Decimal.mk (n < 0) n.natAbs 0).denominator = 1 := rfl
  have hone : 2 ^ Binary64.scale ≤ n.natAbs * Binary64.one :=
    Nat.le_mul_of_pos_left _ (Int.natAbs_pos.2 h)
  rw [hnum, hden]
  refine Nat.lt_of_lt_of_le (Nat.two_pow_pos Binary64.scale) (two_pow_le_roundUnits (by decide) ?_)
  rwa [Nat.div_one]

/-- The numbers that lie at zero are the zeros. -/
theorem Number.position?_eq_zero_iff {n : Number} :
    n.toExtended.position? = some 0 ↔ n.IsZero := by
  constructor
  · intro h
    cases n with
    | integer n =>
      by_cases hn : n = 0
      · exact hn ▸ .integer
      · exact absurd h (position?_integer_ne hn)
    | double x =>
      obtain ⟨negative, rfl⟩ := Binary64.value_eq_zero_iff.1 (Option.some.inj h)
      exact .double negative
  · rintro (_ | negative)
    · rw [toExtended, Decimal.nearest_of_zero rfl]
      rfl
    · exact congrArg some (Binary64.value_eq_zero rfl)

/-! ## Values -/

/-- The values that count as false. -/
inductive Value.IsFalsy : Value → Prop
  | undefined : IsFalsy none
  | null : IsFalsy (some .null)
  | no : IsFalsy (some (.boolean false))
  | zero {n : Number} (h : n.IsZero) : IsFalsy (some (.number n))
  | empty : IsFalsy (some (.string ""))

/-- A number counts as false if it is zero; none of them lies nowhere. -/
theorem Json.isTruthy_number {n : Number} : (Json.number n).isTruthy = false ↔ n.IsZero := by
  obtain ⟨position, hposition⟩ := Option.ne_none_iff_exists'.1 n.position?_ne_none
  rw [← Number.position?_eq_zero_iff]
  simp [isTruthy, hposition]

theorem Value.isTruthy_eq_false_iff {value : Value} : value.isTruthy = false ↔ value.IsFalsy := by
  constructor
  · intro h
    rcases value with _ | data
    · exact .undefined
    cases data with
    | null => exact .null
    | boolean b =>
      obtain rfl : b = false := h
      exact .no
    | number n => exact .zero (Json.isTruthy_number.1 h)
    | string s =>
      obtain rfl : s = "" := by simpa [isTruthy, Json.isTruthy] using h
      exact .empty
    | array | object => cases h
  · rintro (_ | _ | _ | hzero | _)
    · rfl
    · rfl
    · rfl
    · exact Json.isTruthy_number.2 hzero
    · rfl

instance : DecidablePred Value.IsFalsy :=
  fun _ => decidable_of_iff _ Value.isTruthy_eq_false_iff

/-! ## Connectives -/

/-- The first operand is the value of a connective: a false one of `&&`, and a true one
    of `||`. -/
inductive Connective.Decides : Connective → Value → Prop
  | and {value : Value} (h : value.IsFalsy) : Decides .and value
  | or {value : Value} (h : ¬value.IsFalsy) : Decides .or value

theorem Connective.decides_iff {op : Connective} {value : Value} :
    op.Decides value ↔ op.decidedBy value = true := by
  have hfalsy := @Value.isTruthy_eq_false_iff value
  constructor
  · rintro (h | h)
    · simp [decidedBy, hfalsy.2 h]
    · simpa [decidedBy, ← hfalsy] using h
  · intro h
    cases op with
    | and => exact .and (hfalsy.1 (by simpa [decidedBy] using h))
    | or => exact .or (by simpa [decidedBy, ← hfalsy] using h)

instance (op : Connective) : DecidablePred op.Decides :=
  fun _ => decidable_of_iff _ Connective.decides_iff.symm

end FormRules
