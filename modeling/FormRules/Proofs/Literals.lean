/-
  FormRules.Proofs.Literals

  Number literals keep their value.

  A literal writes a decimal number (`Lexeme.Writes`). The reader takes one of two ways. Without
  a point, and in the range of the integers of 64 bits with a sign, the token is the integer;
  otherwise it is what the decimal number is rounded to, which has to be finite. The two ways
  meet: an integer is compared as the double that it is rounded to, so that the token lies where
  the rounded number does (`Writes.position?_eq`), on whichever side of a bound the literal is.

  Main statement: `Tokens.scan_number`.
-/

import Mathlib.Algebra.Group.Defs
import FormRules.Proofs.Equivalence
import FormRules.Proofs.FirstFault
import FormRules.Proofs.Nearest

namespace FormRules

/-! ## Integers as doubles -/

/-- An integer is compared as the double that it is rounded to, whatever the sign of zero. -/
theorem Number.position?_integer (negative : Bool) (n : Nat) :
    (Number.integer (withSign negative n)).toExtended.position? =
      (Decimal.mk negative n 0).nearest.position? := by
  have hwritten : (Number.integer (withSign negative n)).toExtended =
    (Decimal.mk (withSign negative n < 0) (withSign negative n).natAbs 0).nearest := rfl
  rw [hwritten, natAbs_withSign]
  by_cases hzero : n = 0
  · rw [Decimal.nearest_of_zero hzero, Decimal.nearest_of_zero hzero, Extended.position?,
      Extended.position?, Binary64.value_eq_zero rfl, Binary64.value_eq_zero rfl]
  · have hsign : decide (withSign negative n < 0) = negative := by
      cases negative with
      | false => simp [withSign]
      | true =>
        simp only [withSign, if_true, decide_eq_true_eq]
        omega
    rw [hsign]

/-- No integer of 64 bits overflows. -/
theorem Decimal.not_overflows_of_lt {d : Decimal} (hexponent : d.exponent = 0)
    (h : d.coefficient < 2 ^ 64) : ¬d.Overflows := by
  have hthreshold : 2 ^ 64 ≤ Binary64.threshold := by decide +kernel
  rw [Overflows, hexponent]
  simp only [Int.neg_zero, Int.toNat_zero, Nat.pow_zero, Nat.mul_one]
  omega

namespace Lexeme

variable {literal : List Char} {d : Decimal} {n : Number}

/-! ## The value of a literal -/

theorem point_not_mem_of_isDigits {digits : List Char} (h : IsDigits digits) : '.' ∉ digits :=
  fun hmem => absurd (h.2 '.' hmem) (by decide)

/-- A literal without a point writes its digits. -/
theorem Writes.exponent_eq_zero (h : Writes literal d) (hpoint : '.' ∉ literal) :
    d.exponent = 0 := by
  cases h with
  | whole => rfl
  | fractional => exact absurd (by simp) hpoint

/-- The value of a literal is reached in one of two ways. -/
theorem Writes.value_cases (h : Writes literal d) (hvalue : numberValue literal = some n) :
    ('.' ∉ literal ∧ FitsInteger (withSign d.negative d.coefficient) ∧
        n = .integer (withSign d.negative d.coefficient)) ∨
      (¬('.' ∉ literal ∧ FitsInteger (withSign d.negative d.coefficient)) ∧
        ∃ x, n = .double x ∧ d.nearest = .finite x) := by
  cases h with
  | @whole negative whole hwhole =>
    obtain ⟨htake, hread⟩ := parts_of_whole hwhole
    have hpoint : '.' ∉ sign negative ++ whole := by
      rw [List.mem_append, not_or]
      exact ⟨by cases negative <;> decide, point_not_mem_of_isDigits hwhole⟩
    rw [numberValue_sign negative hwhole.isUnsigned] at hvalue
    rcases unsignedValue_cases htake hread hvalue with ⟨-, hfits, hn⟩ | ⟨hwide, x, hn, hx⟩
    · exact Or.inl ⟨hpoint, hfits, hn⟩
    · rw [List.append_nil] at hx
      exact Or.inr ⟨fun hboth => hwide ⟨rfl, hboth.2⟩, x, hn, hx⟩
  | @fractional negative whole fraction hwhole hfraction =>
    obtain ⟨htake, hread⟩ := parts_of_fractional hwhole hfraction
    have hpoint : '.' ∈ sign negative ++ (whole ++ '.' :: fraction) := by simp
    rw [numberValue_sign negative ⟨whole, hwhole, Or.inr ⟨fraction, hfraction, rfl⟩⟩] at hvalue
    rcases unsignedValue_cases htake hread hvalue with ⟨hempty, -⟩ | ⟨-, x, hn, hx⟩
    · exact absurd hempty hfraction.1
    · exact Or.inr ⟨fun hboth => hboth.1 hpoint, x, hn, hx⟩

theorem Writes.exists_value (h : Writes literal d) (hrange : ¬d.Overflows) :
    ∃ n, numberValue literal = some n :=
  Option.ne_none_iff_exists'.1 fun hnone => hrange (h.numberValue_eq_none_iff.1 hnone)

/-- An integer of 64 bits is the value of its literal. -/
theorem Writes.value_of_fits (h : Writes literal d) (hpoint : '.' ∉ literal)
    (hfits : FitsInteger (withSign d.negative d.coefficient)) :
    numberValue literal = some (.integer (withSign d.negative d.coefficient)) := by
  -- a bound for both signs, which is far below the overflow of doubles
  have hbound : d.coefficient < 2 ^ 64 := by
    unfold FitsInteger withSign at hfits
    split at hfits <;> omega
  obtain ⟨n, hvalue⟩ :=
    h.exists_value (Decimal.not_overflows_of_lt (h.exponent_eq_zero hpoint) hbound)
  rcases h.value_cases hvalue with ⟨-, -, rfl⟩ | ⟨hwide, -⟩
  · exact hvalue
  · exact absurd ⟨hpoint, hfits⟩ hwide

/-- Every other literal has as its value the double that its number is rounded to, if that is
    finite. -/
theorem Writes.value_eq_double_iff (h : Writes literal d)
    (hwide : ¬('.' ∉ literal ∧ FitsInteger (withSign d.negative d.coefficient))) {x : Binary64} :
    numberValue literal = some (.double x) ↔ d.Rounds (.finite x) := by
  rw [← Decimal.nearest_eq_iff_rounds]
  constructor
  · intro hvalue
    rcases h.value_cases hvalue with ⟨hpoint, hfits, -⟩ | ⟨-, y, hn, hy⟩
    · exact absurd ⟨hpoint, hfits⟩ hwide
    · rw [hy, Number.double.inj hn]
  · intro hx
    have hrange : ¬d.Overflows := by
      rw [← Decimal.nearest_eq_infinite_iff, hx]
      nofun
    obtain ⟨n, hvalue⟩ := h.exists_value hrange
    rcases h.value_cases hvalue with ⟨hpoint, hfits, -⟩ | ⟨-, y, rfl, hy⟩
    · exact absurd ⟨hpoint, hfits⟩ hwide
    · rw [hvalue, Extended.finite.inj (hx.symm.trans hy)]

/-- The value of a literal lies where the number does that it is rounded to, and that is
    finite. -/
theorem Writes.position?_eq (h : Writes literal d) (hvalue : numberValue literal = some n) :
    ∃ x, d.Rounds (.finite x) ∧ n.toExtended.position? = (Extended.finite x).position? := by
  have hrange : ¬d.Overflows := by
    rw [← h.numberValue_eq_none_iff, hvalue]
    nofun
  obtain ⟨x, hx⟩ := Decimal.exists_nearest_eq_finite hrange
  refine ⟨x, Decimal.nearest_eq_iff_rounds.1 hx, ?_⟩
  rcases h.value_cases hvalue with ⟨hpoint, -, rfl⟩ | ⟨-, y, rfl, hy⟩
  · -- the digits are written back as the same decimal, up to the sign of zero
    have hwritten : Decimal.mk d.negative d.coefficient 0 = d := by
      rw [← h.exponent_eq_zero hpoint]
    rw [Number.position?_integer, hwritten, hx]
  · exact congrArg Extended.position? (hy.symm.trans hx)

/-! ## The lexeme of a literal -/

/-- A literal is taken as a whole, and is a number or a fault by its value. -/
theorem IsNumber.next_eq (h : IsNumber literal) :
    ∃ first tail, literal = first :: tail ∧ isBlank first = false ∧ ∀ position,
      next position first tail =
        match numberValue literal with
        | some n => .ok ⟨literal, .number n⟩
        | none => .error (.invalidNumber (String.ofList literal) position) := by
  have hwhole : numberText literal = literal := by
    have happend := @numberText_append literal [] h nofun
    rwa [List.append_nil] at happend
  obtain ⟨first, tail, rfl, hfirst⟩ := h.exists_eq_cons
  obtain ⟨hdouble, hsingle, hblank⟩ : first ≠ '"' ∧ first ≠ '\'' ∧ isBlank first = false := by
    rcases hfirst with hdigit | rfl
    · exact not_quote_of_isDigit hdigit
    · decide
  refine ⟨first, tail, rfl, hblank, fun position => ?_⟩
  cases hvalue : numberValue (first :: tail) with
  | some n =>
    show next position first tail = .ok ⟨first :: tail, .number n⟩
    rw [next, if_neg (not_or.2 ⟨hdouble, hsingle⟩), hwhole]
    simp only [hvalue]
  | none =>
    show next position first tail = .error (.invalidNumber (String.ofList (first :: tail)) position)
    rw [next, if_neg (not_or.2 ⟨hdouble, hsingle⟩), hwhole]
    simp only [hvalue]

end Lexeme

namespace Tokens

open Lexeme

/-! ## Sources that are one literal -/

/-- A source that is a number literal is one token or one fault. -/
theorem scan_eq_of_isNumber {literal : List Char} (h : IsNumber literal) :
    scan (String.ofList literal) =
      match numberValue literal with
      | some n => .ok ⟨[⟨.number n, 0⟩], utf8Length literal⟩
      | none => .error (.invalidNumber (String.ofList literal) 0) := by
  obtain ⟨first, tail, htext, hblank, hnext⟩ := h.next_eq
  rw [scan, String.toList_ofList]
  cases hvalue : numberValue literal with
  | some n =>
    have hlexeme : next 0 first tail = .ok ⟨literal, .number n⟩ := by rw [hnext, hvalue]
    have happend : first :: tail = literal ++ [] := by rw [List.append_nil, htext]
    have hscan := scanFrom_append hblank happend hlexeme
    rw [List.append_nil, scanFrom_nil, Nat.zero_add] at hscan
    exact hscan
  | none =>
    have hfault : next 0 first tail = .error (.invalidNumber (String.ofList literal) 0) := by
      rw [hnext, hvalue]
    rw [htext] at hfault ⊢
    exact scanFrom_fault hblank hfault

section Single

variable {literal : List Char} (h : IsNumber literal)
include h

/-- The tokens of a literal are its value alone. -/
theorem scan_eq_ok_iff {tokens : Tokens} :
    scan (String.ofList literal) = .ok tokens ↔
      ∃ n, numberValue literal = some n ∧ tokens = ⟨[⟨.number n, 0⟩], utf8Length literal⟩ := by
  rw [scan_eq_of_isNumber h]
  cases numberValue literal with
  | some n =>
    constructor
    · intro htokens
      exact ⟨n, rfl, (Except.ok.inj htokens).symm⟩
    · rintro ⟨m, hm, rfl⟩
      rw [Option.some.inj hm]
  | none => exact ⟨nofun, fun ⟨_, hvalue, _⟩ => by cases hvalue⟩

/-- The only fault of a literal is that it has no value. -/
theorem scan_eq_error_iff {fault : Fault} :
    scan (String.ofList literal) = .error fault ↔
      numberValue literal = none ∧ fault = .invalidNumber (String.ofList literal) 0 := by
  rw [scan_eq_of_isNumber h]
  cases numberValue literal with
  | some n => exact ⟨nofun, fun ⟨hvalue, _⟩ => by cases hvalue⟩
  | none =>
    constructor
    · intro hfault
      exact ⟨rfl, (Except.error.inj hfault).symm⟩
    · rintro ⟨-, rfl⟩
      rfl

end Single

/-- Number literals keep their value. A literal without a point in the range of the integers of 64
    bits with a sign is the token of that integer. Every other one is the token of a double
    exactly if that is what its number is rounded to. The scan fails exactly if the number is
    rounded to an infinity, and the fault quotes the whole literal. So a token is equal to the
    finite double nearest to its literal, and in the range of the integers of 64 bits, with a sign
    or without one, it is strictly equal to the integer with the same digits. -/
theorem scan_number {literal : List Char} {d : Decimal} (h : Writes literal d) :
    let source := String.ofList literal
    let value := withSign d.negative d.coefficient
    let token (n : Number) : Tokens := ⟨[⟨.number n, 0⟩], utf8Length literal⟩
    ('.' ∉ literal → FitsInteger value → scan source = .ok (token (.integer value))) ∧
    (¬('.' ∉ literal ∧ FitsInteger value) →
      ∀ x, scan source = .ok (token (.double x)) ↔ d.Rounds (.finite x)) ∧
    (∀ fault, scan source = .error fault ↔
      fault = .invalidNumber source 0 ∧ d.Rounds (.infinite d.negative)) ∧
    (∀ tokens, scan source = .ok tokens → ∃ n x, tokens = token n ∧ d.Rounds (.finite x) ∧
      n.toExtended.equals (.finite x) = true) ∧
    ('.' ∉ literal → -2 ^ 63 ≤ value → value < 2 ^ 64 → ∃ n, scan source = .ok (token n) ∧
      Json.strictEquals (.number n) (.number (.integer value)) = true) := by
  intro source value token
  have hnumber := h.isNumber
  have htoken {n : Number} (hvalue : numberValue literal = some n) :
      scan source = .ok (token n) :=
    (scan_eq_ok_iff hnumber).2 ⟨n, hvalue, rfl⟩
  refine ⟨fun hpoint hfits => htoken (h.value_of_fits hpoint hfits), fun hwide x => ?_,
    fun fault => ?_, fun tokens htokens => ?_, fun hpoint hlow hhigh => ?_⟩
  · rw [← h.value_eq_double_iff hwide]
    refine ⟨fun hok => ?_, htoken⟩
    obtain ⟨n, hvalue, hsame⟩ := (scan_eq_ok_iff hnumber).1 hok
    obtain rfl : .double x = n := by simpa [token] using hsame
    exact hvalue
  · rw [scan_eq_error_iff hnumber, h.numberValue_eq_none_iff, ← Decimal.nearest_eq_iff_rounds,
      Decimal.nearest_eq_infinite_iff, and_comm]
  · obtain ⟨n, hvalue, rfl⟩ := (scan_eq_ok_iff hnumber).1 htokens
    obtain ⟨x, hrounds, hplace⟩ := h.position?_eq hvalue
    exact ⟨n, x, rfl, hrounds, Extended.equals_iff.2 ⟨_, hplace, rfl⟩⟩
  · have hbound : d.coefficient < 2 ^ 64 := by
      have hrange := And.intro hlow hhigh
      unfold value withSign at hrange
      split at hrange <;> omega
    have hexponent := h.exponent_eq_zero hpoint
    obtain ⟨n, hvalue⟩ := h.exists_value (Decimal.not_overflows_of_lt hexponent hbound)
    obtain ⟨x, hrounds, hplace⟩ := h.position?_eq hvalue
    refine ⟨n, htoken hvalue, Extended.equals_iff.2 ⟨_, hplace, ?_⟩⟩
    have hwritten : Decimal.mk d.negative d.coefficient 0 = d := by rw [← hexponent]
    rw [Number.position?_integer, hwritten, Decimal.nearest_eq_iff_rounds.2 hrounds]
    rfl

/-- Leading zeros do not count, the first integer beyond the signed ones is strictly equal to its
    token, and zero keeps its sign in a double. -/
theorem scan_number_forms :
    Writes "-007".toList ⟨true, 7, 0⟩ ∧ Writes "9223372036854775808".toList ⟨false, 2 ^ 63, 0⟩ ∧
      Writes "-0.0".toList ⟨true, 0, -1⟩ ∧
      scan "-007" = .ok ⟨[⟨.number (.integer (-7)), 0⟩], 4⟩ ∧
      (∃ n, scan "9223372036854775808" = .ok ⟨[⟨.number n, 0⟩], 19⟩ ∧
        Json.strictEquals (.number n) (.number (.integer (2 ^ 63))) = true) ∧
      scan "-0.0" = .ok ⟨[⟨.number (.double (Binary64.zero true)), 0⟩], 4⟩ := by
  have hdigits (text : List Char) (hne : text ≠ []) (hall : text.all Char.isDigit) :
      IsDigits text := ⟨hne, List.all_eq_true.1 hall⟩
  have hseven : Writes "-007".toList ⟨true, 7, 0⟩ :=
    @Writes.whole true "007".toList (hdigits _ (by decide) (by decide))
  have hwide : Writes "9223372036854775808".toList ⟨false, 2 ^ 63, 0⟩ :=
    @Writes.whole false "9223372036854775808".toList (hdigits _ (by decide) (by decide))
  have hzero : Writes "-0.0".toList ⟨true, 0, -1⟩ :=
    @Writes.fractional true ['0'] ['0'] (hdigits _ (by decide) (by decide))
      (hdigits _ (by decide) (by decide))
  refine ⟨hseven, hwide, hzero, ?_, ?_, ?_⟩
  · exact (scan_number hseven).1 (by decide) ⟨by decide, by decide⟩
  · exact (scan_number hwide).2.2.2.2 (by decide) (by decide) (by decide)
  · refine ((scan_number hzero).2.1 (fun hboth => hboth.1 (by decide)) _).2 ?_
    rw [← Decimal.nearest_eq_iff_rounds]
    exact Decimal.nearest_of_zero rfl

end Tokens

end FormRules
