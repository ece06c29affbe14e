/-
  FormRules.Proofs.Readback

  The text of a number reads back as the number.

  Three forms have to be read: the digits of a whole number, whose value is exact, the
  positional form of the shortest decimal, which lies in the interval around the double
  (`search_holds`), and the names of the infinities. Everything in the interval is rounded to the
  double. Where the double is a power of two, what lies below it may be rounded in units of half
  the spacing, and the interval reaches only half as far (`roundUnits_of_holds`).

  The sign of zero is lost, as it is not written. Two numbers that differ otherwise have two
  texts, therefore, and a number in an array is compared like the number itself.

  The text in documents is also read back. It has the sign of zero, and exponent notation is a
  fourth form of it.

  Main statements: `Number.displayText_reads_back` and `Number.text_reads_back`.
-/

import Mathlib.Algebra.Group.Defs
import FormRules.Proofs.Numerals

namespace FormRules

/-! ## Numbers in an interval -/

section Rounding

variable {m k n num den units steps : Nat}

theorem spacing_eq (hupper : n < 2 ^ (53 + k)) (hlower : 0 < k → 2 ^ (52 + k) ≤ n) :
    Binary64.spacing n = k := by
  unfold Binary64.spacing
  rcases Nat.eq_zero_or_pos n with rfl | hpos
  · rcases Nat.eq_zero_or_pos k with rfl | hk
    · rfl
    · exact absurd (hlower hk) (Nat.not_le.2 (Nat.two_pow_pos _))
  · have hlt := (Nat.log2_lt (Nat.ne_of_gt hpos)).2 hupper
    rcases Nat.eq_zero_or_pos k with rfl | hk
    · omega
    · have hle := (Nat.le_log2 (Nat.ne_of_gt hpos)).2 (hlower hk)
      omega

/-- A ratio between two powers of two is rounded to the nearest multiple of the spacing there. -/
theorem roundUnits_of_isRounded (hden : 0 < den) (hupper : num < 2 ^ (53 + k) * den)
    (hlower : 0 < k → 2 ^ (52 + k) * den ≤ num) (hround : IsRounded m num (den * 2 ^ k)) :
    roundUnits num den = m * 2 ^ k := by
  have hspacing : Binary64.spacing (num / den) = k := by
    refine spacing_eq ((Nat.div_lt_iff_lt_mul hden).2 hupper) fun hk => ?_
    exact (Nat.le_div_iff_mul_le hden).2 (hlower hk)
  have hpos := Nat.mul_pos hden (Nat.two_pow_pos k)
  rw [roundUnits, hspacing, (isRounded_roundHalfEven hpos num).unique hpos hround]

theorem two_pow_add_mul (n k den : Nat) : 2 ^ (n + k) * den = 2 ^ n * (den * 2 ^ k) := by
  rw [Nat.pow_add, Nat.mul_assoc, Nat.mul_comm (2 ^ k) den]

/-- A multiple of a spacing is reached from half a spacing around it, ends apart, if it is a
    number of 53 bits and the ratio is not below the numbers with this spacing. -/
theorem roundUnits_of_near (hden : 0 < den) (hbits : m < 2 ^ 53)
    (hlower : 0 < k → 2 ^ 52 * (den * 2 ^ k) ≤ num)
    (hround : IsRounded m num (den * 2 ^ k)) : roundUnits num den = m * 2 ^ k := by
  have hpos := Nat.mul_pos hden (Nat.two_pow_pos k)
  have hstep := add_le_mul_of_lt (den * 2 ^ k) hbits
  have hge := hround.ge
  rw [← two_pow_add_mul] at hstep hlower
  exact roundUnits_of_isRounded hden (by omega) hlower hround

/-- What is not further than two quarters above a multiple of a spacing, and than one or two below
    it, is rounded to it. -/
theorem isRounded_of_quarters {quarters : Nat} (hden : 0 < den)
    (hquarters : quarters = den ∨ quarters = 2 * den) (hlow : 4 * (m * den) - quarters ≤ 4 * num)
    (hhigh : 4 * num ≤ 4 * (m * den) + 2 * den)
    (heven : 4 * (m * den) - quarters = 4 * num ∨ 4 * num = 4 * (m * den) + 2 * den → m % 2 = 0) :
    IsRounded m num den := by
  refine ⟨by omega, by omega, fun htie => heven ?_⟩
  rcases htie with hbelow | habove
  · -- only with two quarters the lower end is as far away
    rcases hquarters with rfl | rfl <;> omega
  · omega

/-- A power of two is reached from a quarter of its spacing below it, where the spacing is half
    of that. -/
theorem roundUnits_of_below (hden : 0 < den) (hlt : num < 2 ^ 53 * (den * 2 ^ k))
    (hle : 2 * (2 ^ 53 * (den * 2 ^ k)) ≤ 2 * num + den * 2 ^ k) :
    roundUnits num den = 2 ^ 53 * 2 ^ k := by
  have hround : IsRounded (2 ^ 53) num (den * 2 ^ k) := ⟨hle, by omega, fun _ => by decide⟩
  have hlower : 2 ^ 52 * (den * 2 ^ k) ≤ num := by omega
  rw [← two_pow_add_mul] at hlt hlower
  exact roundUnits_of_isRounded hden hlt (fun _ => hlower) hround

end Rounding

namespace Shortest

variable {units steps : Nat}

theorem fine_pos : 0 < fine := Nat.pow_pos (by decide)

/-- What lies in the interval of a magnitude, without a difference between the two kinds of ends. -/
theorem Interval.holds_bounds {i : Interval} (h : i.holds steps = true) :
    i.low * fine ≤ 4 * steps ∧ 4 * steps ≤ i.high * fine ∧
      (i.low * fine = 4 * steps ∨ 4 * steps = i.high * fine → i.closed = true) := by
  unfold holds at h
  split at h
  · rename_i hclosed
    simp only [Bool.and_eq_true, decide_eq_true_eq] at h
    exact ⟨h.1, h.2, fun _ => hclosed⟩
  · simp only [Bool.and_eq_true, decide_eq_true_eq] at h
    exact ⟨Nat.le_of_lt h.1, Nat.le_of_lt h.2, by omega⟩

/-- A magnitude is less than `2^53` spacings. -/
theorem exists_spacings (hunits : Binary64.Representable units) :
    ∃ m, m < 2 ^ 53 ∧ units = m * 2 ^ Binary64.spacing units := by
  refine ⟨units / 2 ^ Binary64.spacing units, ?_, (Nat.div_mul_cancel hunits.2).symm⟩
  have hquotient := div_spacing_lt units 1
  rwa [Nat.div_one, Nat.one_mul] at hquotient

/-- The lower end is a quarter of the spacing away from a power of two, if there is a smaller
    spacing below it, and otherwise half of the spacing. -/
theorem quartersBelow_cases (units : Nat) :
    (0 < Binary64.spacing units ∧ units = 2 ^ (52 + Binary64.spacing units) ∧
      quartersBelow units = 2 ^ Binary64.spacing units) ∨
    ((0 < Binary64.spacing units → units ≠ 2 ^ (52 + Binary64.spacing units)) ∧
      quartersBelow units = 2 * 2 ^ Binary64.spacing units) := by
  have hlog : 0 < Binary64.spacing units → units.log2 = 52 + Binary64.spacing units := by
    unfold Binary64.spacing
    omega
  unfold quartersBelow
  split
  · rename_i hpower
    have hpos := Nat.pos_of_ne_zero hpower.1
    exact Or.inl ⟨hpos, hlog hpos ▸ hpower.2, rfl⟩
  · rename_i hpower
    refine Or.inr ⟨fun hpos heq => hpower ⟨Nat.ne_of_gt hpos, ?_⟩, rfl⟩
    rwa [hlog hpos]

/-- The interval has a closed end only around an even number of spacings. -/
theorem even_of_closed {m : Nat} (hm : units = m * 2 ^ Binary64.spacing units)
    (hclosed : (interval units).closed = true) : m % 2 = 0 := by
  have hquotient : units / 2 ^ Binary64.spacing units = m :=
    Nat.div_eq_of_eq_mul_left (Nat.two_pow_pos _) hm
  have heven : units / 2 ^ Binary64.spacing units % 2 = 0 := beq_iff_eq.1 hclosed
  rwa [hquotient] at heven

/-- What lies in the interval of a magnitude is rounded to it. -/
theorem roundUnits_of_holds (hunits : Binary64.Representable units)
    (h : (interval units).holds steps = true) : roundUnits steps fine = units := by
  obtain ⟨hlow, hhigh, hends⟩ := Interval.holds_bounds h
  obtain ⟨m, hbits, hm⟩ := exists_spacings hunits
  have heven := fun hend => even_of_closed hm (hends hend)
  have hleading := @Binary64.two_pow_le_of_spacing units
  have hquarters := quartersBelow_cases units
  simp only [interval, Nat.sub_mul, Nat.add_mul, Nat.mul_assoc] at hlow hhigh heven
  generalize Binary64.spacing units = k at *
  -- everything is counted in spacings from here on
  have hstep : 0 < fine * 2 ^ k := Nat.mul_pos fine_pos (Nat.two_pow_pos k)
  have hvalue : units * fine = m * (fine * 2 ^ k) := by
    rw [hm, Nat.mul_assoc, Nat.mul_comm (2 ^ k)]
  have hscaled : 2 ^ k * fine = fine * 2 ^ k := Nat.mul_comm _ _
  rw [hvalue] at hlow
  rw [hvalue, hscaled] at hhigh heven
  have hround : IsRounded m steps (fine * 2 ^ k) := by
    refine isRounded_of_quarters hstep ?_ hlow hhigh heven
    rcases hquarters with ⟨-, -, hquarters⟩ | ⟨-, hquarters⟩
    · exact Or.inl (by rw [hquarters, hscaled])
    · exact Or.inr (by rw [hquarters, Nat.mul_assoc, hscaled])
  clear hhigh heven
  rcases hquarters with ⟨hpos, hpower, hquarters⟩ | ⟨hpower, hquarters⟩
  · rw [hquarters, hscaled] at hlow
    have hleast : m * (fine * 2 ^ k) = 2 ^ 52 * (fine * 2 ^ k) := by
      rw [← hvalue, ← two_pow_add_mul, hpower]
    rw [hleast] at hlow
    by_cases hbelow : steps < 2 ^ 52 * (fine * 2 ^ k)
    · -- below the magnitude the spacing is half as large
      obtain ⟨j, rfl⟩ : ∃ j, k = j + 1 := ⟨k - 1, by omega⟩
      have hhalf : fine * 2 ^ (j + 1) = 2 * (fine * 2 ^ j) := by
        rw [Nat.pow_succ', Nat.mul_left_comm]
      have hbits' : 52 + (j + 1) = 53 + j := by omega
      rw [hhalf] at hlow hbelow
      rw [hpower, hbits', Nat.pow_add]
      exact roundUnits_of_below fine_pos (by omega) (by omega)
    · rw [hm]
      exact roundUnits_of_near fine_pos hbits (fun _ => Nat.not_lt.1 hbelow) hround
  · rw [hm]
    refine roundUnits_of_near fine_pos hbits (fun hpos => ?_) hround
    -- the next magnitude is at least one spacing further up
    have hmore : 2 ^ 52 < m := by
      have hle := hleading hpos
      have hne := hpower hpos
      rw [Nat.pow_add, hm] at hle hne
      have hlt : 2 ^ 52 * 2 ^ k < m * 2 ^ k := Nat.lt_of_le_of_ne hle hne.symm
      exact Nat.lt_of_mul_lt_mul_right hlt
    have hnext := add_le_mul_of_lt (fine * 2 ^ k) hmore
    have hle := hround.le
    omega

/-! ## The search -/

/-- A magnitude lies in its own interval. -/
theorem holds_self (hpos : 0 < units) : (interval units).holds (units * fine) = true := by
  have hfine := fine_pos
  have hquarters : 0 < quartersBelow units := by
    unfold quartersBelow
    have hpow := Nat.two_pow_pos (Binary64.spacing units)
    split <;> omega
  have hlow : (interval units).low < 4 * units := by
    show 4 * units - quartersBelow units < 4 * units
    omega
  have hhigh : 4 * units < (interval units).high := by
    show 4 * units < 4 * units + 2 * 2 ^ Binary64.spacing units
    have hpow := Nat.two_pow_pos (Binary64.spacing units)
    omega
  have hlow' := Nat.mul_lt_mul_of_pos_right hlow hfine
  have hhigh' := Nat.mul_lt_mul_of_pos_right hhigh hfine
  rw [Nat.mul_assoc] at hlow' hhigh'
  unfold Interval.holds
  split
  · simp only [Bool.and_eq_true, decide_eq_true_eq]
    omega
  · simp only [Bool.and_eq_true, decide_eq_true_eq]
    omega

/-- What the search finds lies in the interval, on whatever grid it is. -/
theorem search_holds (tie : Tie) (hpos : 0 < units) (place : Nat) :
    (interval units).holds
      ((search tie units place).1 * 10 ^ (search tie units place).2) = true := by
  induction place with
  | zero =>
    rw [search, Nat.pow_zero, Nat.mul_one]
    exact holds_self hpos
  | succ place ih =>
    rw [search]
    split
    · rename_i n hfound
      have hholds := List.find?_some hfound
      dsimp only at hholds ⊢
      exact hholds
    · exact ih

end Shortest

/-! ## Decimals that are rounded to a double -/

/-- A decimal on the grid of `10^place` steps, in steps of the finest grid. -/
theorem Shortest.numerator_mul_fine (negative : Bool) (coefficient place : Nat) :
    let d : Decimal := ⟨negative, coefficient, place - (Binary64.scale : Int)⟩
    d.numerator * fine = coefficient * 10 ^ place * d.denominator := by
  intro d
  have hten : Binary64.one * fine = 10 ^ Binary64.scale := by
    rw [Binary64.one, fine, ← Nat.mul_pow]
  have hexponents : (place - (Binary64.scale : Int)).toNat + Binary64.scale =
      place + (-(place - (Binary64.scale : Int))).toNat := by omega
  calc d.numerator * fine
      = coefficient * (10 ^ (place - (Binary64.scale : Int)).toNat * 10 ^ Binary64.scale) := by
        rw [Decimal.numerator, Nat.mul_assoc, hten, Nat.mul_assoc]
    _ = coefficient * 10 ^ place * d.denominator := by
        rw [← Nat.pow_add, hexponents, Nat.pow_add, ← Nat.mul_assoc, Decimal.denominator]

namespace Binary64

variable {x : Binary64}

/-- A shortest decimal reads back as its double. -/
theorem nearest_shortest (tie : Tie) (hx : x.units ≠ 0) :
    (x.shortest tie).nearest = .finite x := by
  have hholds := Shortest.search_holds tie (Nat.pos_of_ne_zero hx)
    (Nat.toDigits 10 (x.units * Shortest.fine)).length
  unfold shortest
  rw [if_neg hx]
  generalize Shortest.search tie x.units (Nat.toDigits 10 (x.units * Shortest.fine)).length = found
    at hholds
  obtain ⟨coefficient, place⟩ := found
  refine Decimal.nearest_eq_finite rfl ?_
  rw [← Shortest.roundUnits_of_holds x.representable hholds]
  exact roundUnits_congr (Decimal.denominator_pos _) Shortest.fine_pos
    (Shortest.numerator_mul_fine _ _ _)

/-- A whole number reads back as its double. -/
theorem nearest_integerPart (hx : x.isIntegral = true) :
    (Decimal.mk x.negative x.integerPart 0).nearest = .finite x := by
  refine Decimal.nearest_eq_finite rfl ?_
  have hmod : x.units % one = 0 := beq_iff_eq.1 hx
  have hwhole : x.integerPart * one = x.units := Nat.div_mul_cancel (Nat.dvd_of_mod_eq_zero hmod)
  have hnumerator : (Decimal.mk x.negative x.integerPart 0).numerator = x.units := by
    show x.integerPart * 10 ^ 0 * one = x.units
    rw [Nat.pow_zero, Nat.mul_one, hwhole]
  rw [hnumerator]
  exact roundUnits_of_representable x.representable

end Binary64

/-! ## Positional texts -/

namespace Decimal

theorem isDigits_decimalDigits (n : Nat) : Lexeme.IsDigits (decimalDigits n) :=
  ⟨Nat.toDigits_ne_nil, fun _ hc => Nat.isDigit_of_mem_toDigits (by decide) (by decide) hc⟩

theorem isDigit_of_mem_zeros {c : Char} {n : Nat} (hc : c ∈ zeros n) : c.isDigit := by
  rw [List.eq_of_mem_replicate hc]
  decide

theorem digitsValue_decimalDigits (n : Nat) : digitsValue (decimalDigits n) = n :=
  Nat.ofDigitChars_ten_toDigits

/-- Zeros in front of digits do not count. -/
theorem digitsValue_zeros_append (n : Nat) (digits : List Char) :
    digitsValue (zeros n ++ digits) = digitsValue digits := by
  rw [digitsValue, zeros, Nat.ofDigitChars_append, Nat.ofDigitChars_replicate_zero, Nat.mul_zero]
  rfl

/-- Zeros behind digits multiply by a power of ten. -/
theorem digitsValue_append_zeros (digits : List Char) (n : Nat) :
    digitsValue (digits ++ zeros n) = digitsValue digits * 10 ^ n := by
  rw [digitsValue, zeros, Nat.ofDigitChars_append, Nat.ofDigitChars_replicate_zero, Nat.mul_comm]
  rfl

theorem sign_signText (d : Decimal) : Numeral.Sign d.signText d.negative := by
  unfold signText
  cases d.negative with
  | false => exact .none
  | true => exact .minus

/-- Digits with a point are a mantissa with so many digits behind the point, and the zeros that
    are put in front of them do not count. -/
theorem exists_mantissa_pointed {digits : List Char} (hdigits : Lexeme.IsDigits digits)
    {places : Nat} (hplaces : 0 < places) :
    ∃ whole fraction, Numeral.Mantissa (pointed digits places) whole fraction ∧
      digitsValue (whole ++ fraction) = digitsValue digits ∧ fraction.length = places := by
  unfold pointed
  split
  · -- the point stands between the digits
    rename_i hinside
    have hwhole : Lexeme.IsDigits (digits.take (digits.length - places)) := by
      refine ⟨?_, fun c hc => hdigits.2 c (List.mem_of_mem_take hc)⟩
      rw [Ne, List.take_eq_nil_iff]
      rintro (hzero | hnil)
      · omega
      · exact hdigits.1 hnil
    refine ⟨_, _, .pointed hwhole fun c hc => hdigits.2 c (List.mem_of_mem_drop hc), ?_, ?_⟩
    · rw [List.take_append_drop]
    · rw [List.length_drop]
      omega
  · -- zeros are put in front of the digits, one of them before the point
    have hzero : Lexeme.IsDigits ['0'] := ⟨List.cons_ne_nil _ _, List.all_eq_true.1 rfl⟩
    refine ⟨['0'], zeros (places - digits.length) ++ digits, .pointed hzero ?_, ?_, ?_⟩
    · exact List.forall_mem_append.2 ⟨fun c hc => isDigit_of_mem_zeros hc, hdigits.2⟩
    · exact digitsValue_zeros_append (places - digits.length + 1) digits
    · rw [List.length_append, zeros, List.length_replicate]
      omega

/-- A positional text writes the value of its decimal. -/
theorem exists_numeral_positional (d : Decimal) :
    ∃ e, Numeral d.positional e ∧ e.negative = d.negative ∧
      e.numerator * d.denominator = d.numerator * e.denominator := by
  have hdigits := isDigits_decimalDigits d.coefficient
  have hsign := sign_signText d
  unfold positional
  dsimp only
  split
  · rename_i hfraction
    have hplaces : 0 < (-d.exponent).toNat := by omega
    obtain ⟨whole, fraction, hmantissa, hvalue, hlength⟩ := exists_mantissa_pointed hdigits hplaces
    have hsame : ofDigits d.negative whole fraction 0 = d := by
      rw [ofDigits, hvalue, digitsValue_decimalDigits, hlength]
      have hexponent : (0 : Int) - (-d.exponent).toNat = d.exponent := by omega
      rw [hexponent]
    have hnumeral := Numeral.mk hsign hmantissa .none
    rw [List.append_nil, hsame] at hnumeral
    exact ⟨d, hnumeral, rfl, rfl⟩
  · have hwhole : Lexeme.IsDigits (decimalDigits d.coefficient ++ zeros d.exponent.toNat) :=
      ⟨List.append_ne_nil_of_left_ne_nil hdigits.1 _,
        List.forall_mem_append.2 ⟨hdigits.2, fun c hc => isDigit_of_mem_zeros hc⟩⟩
    have hnumeral := Numeral.mk hsign (.whole hwhole) .none
    rw [List.append_nil] at hnumeral
    refine ⟨_, hnumeral, rfl, ?_⟩
    have hzero : (-d.exponent).toNat = 0 := by omega
    rw [numerator, numerator, denominator, denominator, hzero, ofDigits, List.append_nil,
      digitsValue_append_zeros, digitsValue_decimalDigits]
    simp

/-- A signed exponent in exponent notation. -/
theorem power_scientific (exponent : Int) :
    Numeral.Power ('e' :: (if exponent < 0 then '-' else '+') :: decimalDigits exponent.natAbs)
      exponent := by
  have hdigits := isDigits_decimalDigits exponent.natAbs
  have hpower {sign : List Char} {negative : Bool} (hsign : Numeral.Sign sign negative) :
      Numeral.Power ('e' :: (sign ++ decimalDigits exponent.natAbs))
        (withSign negative exponent.natAbs) := by
    have h := Numeral.Power.some (Or.inl rfl : Numeral.IsMark 'e') hsign hdigits
    rwa [digitsValue_decimalDigits] at h
  by_cases hnegative : exponent < 0
  · have hvalue : withSign true exponent.natAbs = exponent := by
      simp only [withSign, if_true]
      omega
    rw [if_pos hnegative]
    exact hvalue.subst (hpower .minus)
  · have hvalue : withSign false exponent.natAbs = exponent := by
      simp only [withSign, Bool.false_eq_true, if_false]
      omega
    rw [if_neg hnegative]
    exact hvalue.subst (hpower .plus)

/-- Exponent notation writes its decimal. -/
theorem numeral_scientific (d : Decimal) : Numeral d.scientific d := by
  have hdigits := isDigits_decimalDigits d.coefficient
  have hvalue := digitsValue_decimalDigits d.coefficient
  have hleading : d.leadingExponent = (decimalDigits d.coefficient).length - 1 + d.exponent := rfl
  unfold scientific
  dsimp only
  obtain ⟨first, rest, hcons⟩ := List.exists_cons_of_ne_nil hdigits.1
  rw [hcons] at hdigits hvalue hleading ⊢
  obtain ⟨hfirst, hrest⟩ := List.forall_mem_cons.1 hdigits.2
  have hwhole : Lexeme.IsDigits [first] :=
    ⟨List.cons_ne_nil _ _, List.forall_mem_singleton.2 hfirst⟩
  -- one digit has no point behind it
  have hmantissa : Numeral.Mantissa ((first :: rest).take 1 ++
      if (first :: rest).length = 1 then [] else '.' :: (first :: rest).drop 1) [first] rest := by
    cases rest with
    | nil => exact .whole hwhole
    | cons second rest => exact .pointed hwhole hrest
  have hsame : ofDigits d.negative [first] rest d.leadingExponent = d := by
    have hexponent : d.leadingExponent - rest.length = d.exponent := by
      rw [hleading, List.length_cons]
      omega
    rw [ofDigits, List.singleton_append, hvalue, hexponent]
  have hnumeral := Numeral.mk d.sign_signText hmantissa (power_scientific d.leadingExponent)
  rw [hsame] at hnumeral
  simpa only [List.append_assoc] using hnumeral

/-- Whole digits may have a point and a zero behind them. -/
theorem exists_numeral_positional_point {d : Decimal} (h : 0 ≤ d.exponent) :
    ∃ e, Numeral (d.positional ++ ['.', '0']) e ∧ e.negative = d.negative ∧
      e.numerator * d.denominator = d.numerator * e.denominator := by
  have hdigits := isDigits_decimalDigits d.coefficient
  have hwhole : Lexeme.IsDigits (decimalDigits d.coefficient ++ zeros d.exponent.toNat) :=
    ⟨List.append_ne_nil_of_left_ne_nil hdigits.1 _,
      List.forall_mem_append.2 ⟨hdigits.2, fun c hc => isDigit_of_mem_zeros hc⟩⟩
  have hmantissa := @Numeral.Mantissa.pointed _ ['0'] hwhole (List.all_eq_true.1 rfl)
  have hnumeral := Numeral.mk d.sign_signText hmantissa .none
  have htext : d.positional ++ ['.', '0'] = d.signText ++
      ((decimalDigits d.coefficient ++ zeros d.exponent.toNat ++ '.' :: ['0']) ++ []) := by
    rw [positional, if_neg (Int.not_lt.2 h), List.append_nil, List.append_assoc]
  -- the zero behind the point counts as one more power of ten
  have hvalue : digitsValue (decimalDigits d.coefficient ++ zeros d.exponent.toNat ++ ['0']) =
      d.coefficient * 10 ^ d.exponent.toNat * 10 := by
    have hzero : ['0'] = zeros 1 := rfl
    rw [hzero, digitsValue_append_zeros, digitsValue_append_zeros, digitsValue_decimalDigits,
      Nat.pow_one]
  rw [← htext] at hnumeral
  refine ⟨_, hnumeral, rfl, ?_⟩
  have hzero : (-d.exponent).toNat = 0 := by omega
  simp only [numerator, denominator, ofDigits, hvalue, hzero]
  simp [Nat.mul_right_comm]

end Decimal

/-! ## Texts that read back -/

/-- A numeral has no blanks. -/
theorem Numeral.trims {text : List Char} {d : Decimal} (h : Numeral text d) : Trims text text := by
  have hblank : ∀ c ∈ text, isBlank c = false := by
    intro c hc
    refine Bool.eq_false_iff.2 fun hblank => ?_
    have hchar := h.isNumeralChar c hc
    rw [isNumeralChar_of_isBlank hblank] at hchar
    cases hchar
  refine ⟨⟨[], [], ?_, nofun, nofun⟩, ?_, ?_⟩
  · rw [List.nil_append, List.append_nil]
  · exact fun c hc => hblank c (List.mem_of_mem_head? hc)
  · exact fun c hc => hblank c (List.mem_of_mem_getLast? hc)

/-- A numeral converts to the number that is nearest to it. -/
theorem Numeral.ofText_eq {text : List Char} {d : Decimal} (h : Numeral text d) :
    Extended.ofText (String.ofList text) = d.nearest := by
  refine Extended.ofText_of_converts ?_ (.numeral h d.rounds_nearest)
  rw [String.toList_ofList]
  exact h.trims

/-- A positional text converts to the number that is nearest to its decimal. -/
theorem Decimal.ofText_positional (d : Decimal) :
    Extended.ofText (String.ofList d.positional) = d.nearest := by
  obtain ⟨e, hnumeral, hsign, hvalue⟩ := d.exists_numeral_positional
  rw [hnumeral.ofText_eq]
  exact nearest_congr hsign hvalue

namespace Extended

/-- The number, without the sign of zero. -/
def unsignedZero : Extended → Extended
  | .finite x => .finite (if x.units = 0 then Binary64.zero false else x)
  | .infinite negative => .infinite negative
  | .nan => .nan

/-- The sign of zero does not matter for its place. -/
theorem position?_unsignedZero (x : Extended) : x.unsignedZero.position? = x.position? := by
  cases x with
  | finite x =>
    rw [unsignedZero, position?, position?]
    split
    · rename_i hzero
      rw [Binary64.value_eq_zero hzero, Binary64.value_eq_zero rfl]
    · rfl
  | infinite | nan => rfl

/-- The text of a double reads back as the double. -/
theorem ofText_displayText_finite (x : Binary64) :
    ofText x.displayText = (Extended.finite x).unsignedZero := by
  rw [unsignedZero, Binary64.displayText]
  split
  · have hnumeral : Numeral ['0'] ⟨false, 0, 0⟩ := Decimal.read?_eq_some_iff.1 rfl
    rw [hnumeral.ofText_eq]
    exact Decimal.nearest_of_zero rfl
  · rename_i hx
    split
    · -- whole numbers show all their digits
      rename_i hintegral
      rw [Decimal.ofText_positional]
      exact Binary64.nearest_integerPart hintegral.1
    · rw [Decimal.ofText_positional]
      exact Binary64.nearest_shortest .away hx

/-- The text of a number reads back as the number. -/
theorem ofText_displayText (x : Extended) : ofText x.displayText = x.unsignedZero := by
  cases x with
  | finite x => exact ofText_displayText_finite x
  | infinite negative =>
    have htrims (s : String) : Trims s.toList (trimBlanks s.toList) := trims_trimBlanks _
    cases negative with
    | false => exact ofText_of_converts (htrims "Infinity") (.infinity .bare)
    | true => exact ofText_of_converts (htrims "-Infinity") (.infinity .minus)
  | nan =>
    refine ofText_of_converts (trims_trimBlanks "NaN".toList) (.other (Resembles.isOther ?_))
    have hname := @not_namesInfinity_of_mem "NaN".toList 'N' (by decide) (by decide)
    exact @Resembles.word [] "NaN".toList false .none (by decide) hname

end Extended

namespace Number

/-- The text of a number lies where the number does. -/
theorem position?_displayText (n : Number) :
    (Extended.ofText n.toExtended.displayText).position? = n.toExtended.position? := by
  rw [Extended.ofText_displayText, Extended.position?_unsignedZero]

/-- Two numbers have one text if and only if they are strictly equal. -/
theorem displayText_eq_iff (m n : Number) :
    (Json.number m).displayText = (Json.number n).displayText ↔
      Json.strictEquals (.number m) (.number n) = true := by
  constructor
  · intro htext
    have hplace : m.toExtended.position? = n.toExtended.position? := by
      rw [← m.position?_displayText, ← n.position?_displayText]
      exact congrArg (fun text => (Extended.ofText text).position?) htext
    exact (Extended.equals_congr hplace rfl).trans n.equals_self
  · exact Json.displayText_of_strictEquals

/-- The text of a number converts to the same double as the number, only the sign of zero
    apart. Two numbers have one text, therefore, if and only if they are strictly equal, and an
    array of one number is loosely equal to a number exactly if its item is strictly equal. -/
theorem displayText_reads_back :
    (∀ n : Number, (Json.string (Json.number n).displayText).toExtended =
      (Json.number n).toExtended.unsignedZero) ∧
    (∀ m n : Number, (Json.number m).displayText = (Json.number n).displayText ↔
      Json.strictEquals (.number m) (.number n) = true) ∧
    ∀ m n : Number, Value.looseEquals (some (.array [.number m])) (some (.number n)) =
      Value.strictEquals (some (.number m)) (some (.number n)) := by
  refine ⟨fun n => n.toExtended.ofText_displayText, displayText_eq_iff, fun m n => ?_⟩
  have htext : (Json.array [.number m]).displayText = m.toExtended.displayText := rfl
  show (Extended.ofText (Json.array [.number m]).displayText).equals n.toExtended = _
  rw [htext]
  exact Extended.equals_congr m.position?_displayText rfl

example : (Decimal.mk true 1 20).nearest.displayText = "-100000000000000000000" := by
  decide +kernel

example : (Decimal.mk false 15 (-8)).nearest.displayText = "0.00000015" := by
  decide +kernel

end Number

/-! ## Texts in documents -/

/-- The text of a double in documents converts to the double. -/
theorem Binary64.ofText_documentText (x : Binary64) :
    Extended.ofText x.documentText = .finite x := by
  have hshortest : (x.shortest .toEven).nearest = .finite x := by
    by_cases hx : x.units = 0
    · have hzero : x = .zero x.negative := by
        cases x
        cases hx
        rfl
      rw [shortest, if_pos hx, Decimal.nearest_of_zero rfl, ← hzero]
    · exact nearest_shortest .toEven hx
  rw [documentText]
  split
  · split
    · rw [Decimal.ofText_positional, hshortest]
    · rename_i hexponent
      obtain ⟨e, hnumeral, hsign, hvalue⟩ :=
        Decimal.exists_numeral_positional_point (Int.not_lt.1 hexponent)
      rw [hnumeral.ofText_eq, Decimal.nearest_congr hsign hvalue, hshortest]
  · rw [(Decimal.numeral_scientific _).ofText_eq, hshortest]

/-- The text of an integer is a numeral without a point. -/
theorem numeral_integerText (n : Int) :
    Numeral (integerText n).toList ⟨n < 0, n.natAbs, 0⟩ := by
  have hdigits := Decimal.isDigits_decimalDigits n.natAbs
  have hnumeral := Numeral.mk (Decimal.sign_signText ⟨n < 0, n.natAbs, 0⟩) (.whole hdigits) .none
  have hsame : Decimal.ofDigits (decide (n < 0)) (decimalDigits n.natAbs) [] 0 =
      ⟨n < 0, n.natAbs, 0⟩ := by
    rw [Decimal.ofDigits, List.append_nil, Decimal.digitsValue_decimalDigits]
    rfl
  have htext : (integerText n).toList =
      Decimal.signText ⟨n < 0, n.natAbs, 0⟩ ++ (decimalDigits n.natAbs ++ []) := by
    rw [integerText, String.toList_ofList, List.append_nil, Decimal.signText]
    by_cases hnegative : n < 0
    · rw [if_pos hnegative, if_pos (decide_eq_true hnegative)]
      rfl
    · rw [if_neg hnegative, if_neg (by simpa using hnegative)]
      rfl
  rwa [hsame, ← htext] at hnumeral

/-- A double shows that it is no integer. -/
theorem Binary64.point_or_mark_mem_documentText (x : Binary64) :
    '.' ∈ x.documentText.toList ∨ 'e' ∈ x.documentText.toList := by
  rw [documentText, String.toList_ofList]
  split
  · left
    split
    · rename_i hexponent
      rw [Decimal.positional, if_pos hexponent, Decimal.pointed]
      split <;> simp
    · simp
  · right
    simp [Decimal.scientific]

/-- The digits and the sign of an integer have neither a point nor the mark of an exponent. -/
theorem not_mem_integerText {c : Char} (hc : c = '.' ∨ c = 'e') (n : Int) :
    c ∉ (integerText n).toList := by
  have hdigits : ∀ d ∈ decimalDigits n.natAbs, d.isDigit :=
    (Decimal.isDigits_decimalDigits n.natAbs).2
  intro hmem
  rw [integerText, String.toList_ofList] at hmem
  have hclass : c = '-' ∨ c ∈ decimalDigits n.natAbs := by
    split at hmem
    · exact List.mem_cons.1 hmem
    · exact Or.inr hmem
  rcases hclass with rfl | hdigit
  · exact absurd hc (by decide)
  · have hisDigit := hdigits c hdigit
    rcases hc with rfl | rfl <;> exact absurd hisDigit (by decide)

theorem Binary64.documentText_ne_integerText (x : Binary64) (n : Int) :
    x.documentText ≠ integerText n := by
  intro htext
  rcases x.point_or_mark_mem_documentText with hmem | hmem
  · exact not_mem_integerText (Or.inl rfl) n (htext ▸ hmem)
  · exact not_mem_integerText (Or.inr rfl) n (htext ▸ hmem)

namespace Number

/-- The text of a number in documents converts to the number, the sign of zero included, and it
    tells all numbers apart, also an integer from the double of the same value. -/
theorem text_reads_back :
    (∀ n : Number, Extended.ofText n.text = n.toExtended) ∧
    ∀ m n : Number, m.text = n.text ↔ m = n := by
  have hreads : ∀ n : Number, Extended.ofText n.text = n.toExtended := by
    intro n
    cases n with
    | integer n =>
      rw [text, ← String.ofList_toList (s := integerText n), (numeral_integerText n).ofText_eq,
        toExtended]
    | double x => rw [text, Binary64.ofText_documentText, toExtended]
  refine ⟨hreads, fun m n => ⟨fun htext => ?_, congrArg text⟩⟩
  cases m with
  | integer m =>
    cases n with
    | integer n =>
      have htext' : integerText m = integerText n := htext
      have hnumeral := numeral_integerText m
      rw [htext'] at hnumeral
      have hsame := hnumeral.unique (numeral_integerText n)
      simp only [Decimal.mk.injEq, decide_eq_decide] at hsame
      obtain ⟨hsign, habs, -⟩ := hsame
      congr 1
      omega
    | double y => exact absurd htext.symm (y.documentText_ne_integerText m)
  | double x =>
    cases n with
    | integer n => exact absurd htext (x.documentText_ne_integerText n)
    | double y =>
      have hsame : (double x).toExtended = (double y).toExtended := by
        rw [← hreads, ← hreads, htext]
      rw [Extended.finite.inj hsame]

-- The bounds between the two notations.
example : (Decimal.mk false 1 (-5)).stepwise.map Binary64.documentText = some "0.00001" ∧
    (Decimal.mk false 1 (-6)).stepwise.map Binary64.documentText = some "1e-6" ∧
    (Decimal.mk false 1 15).stepwise.map Binary64.documentText = some "1000000000000000.0" ∧
    (Decimal.mk false 1 16).stepwise.map Binary64.documentText = some "1e+16" := by
  decide +kernel

-- `2^-25` lies in the middle between two decimals of seventeen digits.
example : (Decimal.mk false 298023223876953125 (-25)).stepwise.map Binary64.documentText =
      some "2.9802322387695312e-8" ∧
    (Decimal.mk false 298023223876953125 (-25)).nearest.displayText =
      "0.000000029802322387695313" := by
  decide +kernel

end Number

end FormRules
