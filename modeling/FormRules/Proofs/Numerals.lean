/-
  FormRules.Proofs.Numerals

  The texts that are numbers. `Numeral` is the grammar of decimals,

    `[+-]? (digits [. digits?] | . digits) ([eE] [+-]? digits)?`,

  and says for each part of a text what it writes. `Decimal.read?` takes the texts of the
  grammar and no others (`Decimal.read?_eq_some_iff`). The general reader behind the conversion
  takes words as well. None of them gets as far: a numeral has no other characters than digits,
  signs, points and the marks of exponents, and every word has an `n` or an `N`.

  `Converts` puts the cases of the conversion together, for a text without blanks around it.

  Main statement: `Json.toExtended_string_converts`.
-/

import Mathlib.Algebra.Group.Defs
import FormRules.Proofs.Coercion
import FormRules.Proofs.Denotation
import FormRules.Proofs.Nearest

namespace FormRules

open Lexeme

/-! ## The grammar -/

namespace Numeral

/-- An optional sign. -/
inductive Sign : List Char → Bool → Prop
  | none : Sign [] false
  | plus : Sign ['+'] false
  | minus : Sign ['-'] true

/-- The marks of an exponent. -/
def IsMark (c : Char) : Prop := c = 'e' ∨ c = 'E'

/-- Digits with or without a point, with those before the point and those behind it. There is
    at least one. -/
inductive Mantissa : List Char → List Char → List Char → Prop
  | whole {whole : List Char} (hwhole : IsDigits whole) : Mantissa whole whole []
  | pointed {whole fraction : List Char} (hwhole : IsDigits whole)
      (hfraction : ∀ c ∈ fraction, c.isDigit) :
      Mantissa (whole ++ '.' :: fraction) whole fraction
  | fractional {fraction : List Char} (hfraction : IsDigits fraction) :
      Mantissa ('.' :: fraction) [] fraction

/-- An optional exponent. -/
inductive Power : List Char → Int → Prop
  | none : Power [] 0
  | some {mark : Char} {sign digits : List Char} {negative : Bool} (hmark : IsMark mark)
      (hsign : Sign sign negative) (hdigits : IsDigits digits) :
      Power (mark :: (sign ++ digits)) (withSign negative (Decimal.digitsValue digits))

end Numeral

/-- A text that writes a decimal number. -/
inductive Numeral : List Char → Decimal → Prop
  | mk {sign mantissa power whole fraction : List Char} {negative : Bool} {exponent : Int}
      (hsign : Numeral.Sign sign negative) (hmantissa : Numeral.Mantissa mantissa whole fraction)
      (hpower : Numeral.Power power exponent) :
      Numeral (sign ++ (mantissa ++ power)) (Decimal.ofDigits negative whole fraction exponent)

/-- What is written is the whole part and the fraction, times a power of ten. -/
theorem Decimal.toRat_ofDigits (negative : Bool) (whole fraction : List Char) (exponent : Int) :
    (ofDigits negative whole fraction exponent).toRat =
      (if negative then -1 else 1) *
        (digitsValue whole + digitsValue fraction / 10 ^ fraction.length) * 10 ^ exponent := by
  have hten : (10 : ℚ) ≠ 0 := by norm_num
  have hdigits : digitsValue (whole ++ fraction) =
      10 ^ fraction.length * digitsValue whole + digitsValue fraction := by
    rw [digitsValue, Nat.ofDigitChars_append, Nat.ofDigitChars_eq_ofDigitChars_zero]
    rfl
  have hsign (n : Nat) : ((withSign negative n : Int) : ℚ) = (if negative then -1 else 1) * n := by
    cases negative <;> simp [withSign]
  show ((withSign negative (digitsValue (whole ++ fraction)) : Int) : ℚ) *
    10 ^ (exponent - fraction.length) = _
  rw [hsign, hdigits, zpow_sub₀ hten, zpow_natCast]
  push_cast
  field_simp

namespace Numeral

/-! ## Signs and exponents -/

/-- A sign is taken from the front of a text that begins with none. -/
theorem Sign.readSign_append {sign rest : List Char} {negative : Bool} (h : Sign sign negative)
    (hrest : ∀ c ∈ rest.head?, c ≠ '-' ∧ c ≠ '+') :
    Decimal.readSign (sign ++ rest) = (negative, rest) := by
  cases h with
  | plus | minus => rfl
  | none =>
    rw [List.nil_append, Decimal.readSign.eq_def]
    split
    · exact absurd rfl (hrest '-' rfl).1
    · exact absurd rfl (hrest '+' rfl).2
    · rfl

/-- A text is what is taken as its sign and what follows it. -/
theorem exists_sign (text : List Char) :
    ∃ sign, Sign sign (Decimal.readSign text).1 ∧ text = sign ++ (Decimal.readSign text).2 := by
  unfold Decimal.readSign
  split
  · exact ⟨['-'], .minus, rfl⟩
  · exact ⟨['+'], .plus, rfl⟩
  · exact ⟨[], .none, rfl⟩

theorem not_sign_of_isDigit {c : Char} (h : c.isDigit) : c ≠ '-' ∧ c ≠ '+' := by
  constructor
  · rintro rfl
    cases h
  · rintro rfl
    cases h

theorem not_sign_of_isDigits {digits : List Char} (h : IsDigits digits) :
    ∀ c ∈ digits.head?, c ≠ '-' ∧ c ≠ '+' :=
  fun c hc => not_sign_of_isDigit (h.2 c (List.mem_of_mem_head? hc))

/-- The reader of exponents follows the grammar. -/
theorem readExponent?_eq_some_iff {text : List Char} {exponent : Int} :
    Decimal.readExponent? text = some exponent ↔ Power text exponent := by
  constructor
  · intro h
    cases text with
    | nil =>
      obtain rfl := Option.some.inj h
      exact .none
    | cons mark rest =>
      obtain ⟨sign, hsign, hrest⟩ := exists_sign rest
      unfold Decimal.readExponent? at h
      dsimp only at h
      split at h
      · rename_i hform
        obtain rfl := Option.some.inj h
        obtain ⟨hmark, hne, hall⟩ := hform
        have hpower := Power.some hmark hsign ⟨hne, List.all_eq_true.1 hall⟩
        rwa [← hrest] at hpower
      · cases h
  · intro h
    cases h with
    | none => rfl
    | @some mark sign digits negative hmark hsign hdigits =>
      -- digits begin with no sign, so that no other sign is taken
      unfold Decimal.readExponent?
      dsimp only
      rw [hsign.readSign_append (not_sign_of_isDigits hdigits)]
      exact if_pos ⟨hmark, hdigits.1, List.all_eq_true.2 hdigits.2⟩

/-! ## The reader -/

theorem IsMark.endsNumber {mark : Char} (h : IsMark mark) (rest : List Char) :
    EndsNumber (mark :: rest) := by
  intro c hc
  obtain rfl : mark = c := by simpa using hc
  rcases h with rfl | rfl <;> decide

theorem Power.endsNumber {power : List Char} {exponent : Int} (h : Power power exponent) :
    EndsNumber power := by
  cases h with
  | none => nofun
  | some hmark hsign hdigits => exact hmark.endsNumber _

theorem readFraction_of_ends {rest : List Char} (h : EndsNumber rest) :
    Decimal.readFraction rest = ([], rest) := by
  unfold Decimal.readFraction
  split
  · exact absurd rfl (h '.' rfl).2
  · rfl

/-- A sign and a mantissa are taken from the front of every text where they cannot go on. -/
theorem read?_append {sign mantissa whole fraction rest : List Char} {negative : Bool}
    (hsign : Sign sign negative) (hmantissa : Mantissa mantissa whole fraction)
    (hrest : EndsNumber rest) :
    Decimal.read? (sign ++ (mantissa ++ rest)) =
      (Decimal.readExponent? rest).map (Decimal.ofDigits negative whole fraction) := by
  have hend : ∀ c ∈ rest.head?, c.isDigit = false := fun c hc => (hrest c hc).1
  have hpoint (tail : List Char) : ∀ c ∈ ('.' :: tail).head?, c.isDigit = false := by simp
  -- what each step of the reader finds, by the form of the mantissa
  obtain ⟨hhead, htake, hread, hne⟩ :
      (∀ c ∈ (mantissa ++ rest).head?, c ≠ '-' ∧ c ≠ '+') ∧
      (mantissa ++ rest).takeWhile Char.isDigit = whole ∧
      Decimal.readFraction ((mantissa ++ rest).dropWhile Char.isDigit) = (fraction, rest) ∧
      ¬(whole = [] ∧ fraction = []) := by
    cases hmantissa with
    | whole hwhole =>
      refine ⟨?_, takeWhile_run hwhole.2 hend, ?_, fun h => hwhole.1 h.1⟩
      · rw [List.head?_append_of_ne_nil _ hwhole.1]
        exact not_sign_of_isDigits hwhole
      · rw [dropWhile_run hwhole.2 hend]
        exact readFraction_of_ends hrest
    | pointed hwhole hfraction =>
      rw [List.append_assoc, List.cons_append]
      refine ⟨?_, takeWhile_run hwhole.2 (hpoint _), ?_, fun h => hwhole.1 h.1⟩
      · rw [List.head?_append_of_ne_nil _ hwhole.1]
        exact not_sign_of_isDigits hwhole
      · rw [dropWhile_run hwhole.2 (hpoint _), Decimal.readFraction, takeWhile_run hfraction hend,
          dropWhile_run hfraction hend]
    | fractional hfraction =>
      rw [List.cons_append]
      refine ⟨by simp, rfl, ?_, fun h => hfraction.1 h.2⟩
      show Decimal.readFraction ('.' :: _) = _
      rw [Decimal.readFraction, takeWhile_run hfraction.2 hend, dropWhile_run hfraction.2 hend]
  unfold Decimal.read?
  rw [hsign.readSign_append hhead]
  dsimp only
  rw [htake, hread]
  exact if_neg hne

/-- Behind its sign, a text is a mantissa and what follows it, if digits are found at its front
    or behind a point there. -/
theorem exists_mantissa {text fraction rest : List Char}
    (hread : Decimal.readFraction (text.dropWhile Char.isDigit) = (fraction, rest))
    (hne : ¬(text.takeWhile Char.isDigit = [] ∧ fraction = [])) :
    ∃ mantissa, Mantissa mantissa (text.takeWhile Char.isDigit) fraction ∧
      text = mantissa ++ rest := by
  have htext : text.takeWhile Char.isDigit ++ text.dropWhile Char.isDigit = text :=
    List.takeWhile_append_dropWhile
  unfold Decimal.readFraction at hread
  split at hread
  · rename_i behind hpoint
    obtain ⟨rfl, rfl⟩ := Prod.mk.inj hread
    have hbehind : behind.takeWhile Char.isDigit ++ behind.dropWhile Char.isDigit = behind :=
      List.takeWhile_append_dropWhile
    by_cases hwhole : text.takeWhile Char.isDigit = []
    · -- without digits before the point there are some behind it
      have hfraction : behind.takeWhile Char.isDigit ≠ [] := fun h => hne ⟨hwhole, h⟩
      rw [hwhole] at htext ⊢
      refine ⟨_, .fractional (isDigits_takeWhile hfraction), ?_⟩
      rw [List.cons_append, hbehind, ← hpoint, ← List.nil_append (List.dropWhile _ _), htext]
    · refine ⟨_, .pointed (isDigits_takeWhile hwhole) (List.all_eq_true.1 List.all_takeWhile), ?_⟩
      rw [List.append_assoc, List.cons_append, hbehind, ← hpoint, htext]
  · obtain ⟨rfl, rfl⟩ := Prod.mk.inj hread
    have hwhole : text.takeWhile Char.isDigit ≠ [] := fun h => hne ⟨h, rfl⟩
    exact ⟨_, .whole (isDigits_takeWhile hwhole), htext.symm⟩

end Numeral

/-- The reader of decimals follows the grammar. -/
theorem Decimal.read?_eq_some_iff {text : List Char} {d : Decimal} :
    Decimal.read? text = some d ↔ Numeral text d := by
  constructor
  · intro h
    obtain ⟨sign, hsign, htext⟩ := Numeral.exists_sign text
    obtain ⟨fraction, rest, hread⟩ : ∃ fraction rest,
        readFraction ((readSign text).2.dropWhile Char.isDigit) = (fraction, rest) := ⟨_, _, rfl⟩
    unfold read? at h
    dsimp only at h
    rw [hread] at h
    split at h
    · cases h
    · rename_i hne
      obtain ⟨exponent, hexponent, rfl⟩ := Option.map_eq_some_iff.1 h
      obtain ⟨mantissa, hmantissa, hunsigned⟩ := Numeral.exists_mantissa hread hne
      have hnumeral := Numeral.mk hsign hmantissa
        (Numeral.readExponent?_eq_some_iff.1 hexponent)
      rwa [← hunsigned, ← htext] at hnumeral
  · rintro ⟨hsign, hmantissa, hpower⟩
    rw [Numeral.read?_append hsign hmantissa hpower.endsNumber,
      Numeral.readExponent?_eq_some_iff.2 hpower]
    rfl

namespace Numeral

/-! ## Characters -/

theorem isNumeralChar_of_isDigit {c : Char} (h : c.isDigit) : isNumeralChar c := by
  simp [isNumeralChar, h]

theorem Sign.isNumeralChar {sign : List Char} {negative : Bool} (h : Sign sign negative) :
    ∀ c ∈ sign, isNumeralChar c := by
  apply List.all_eq_true.1
  cases h <;> rfl

theorem Mantissa.isNumeralChar {mantissa whole fraction : List Char}
    (h : Mantissa mantissa whole fraction) : ∀ c ∈ mantissa, isNumeralChar c := by
  cases h with
  | whole hwhole => exact fun c hc => isNumeralChar_of_isDigit (hwhole.2 c hc)
  | pointed hwhole hfraction =>
    rw [List.forall_mem_append, List.forall_mem_cons]
    exact ⟨fun c hc => isNumeralChar_of_isDigit (hwhole.2 c hc), by decide,
      fun c hc => isNumeralChar_of_isDigit (hfraction c hc)⟩
  | fractional hfraction =>
    rw [List.forall_mem_cons]
    exact ⟨by decide, fun c hc => isNumeralChar_of_isDigit (hfraction.2 c hc)⟩

theorem Power.isNumeralChar {power : List Char} {exponent : Int} (h : Power power exponent) :
    ∀ c ∈ power, isNumeralChar c := by
  cases h with
  | none => nofun
  | some hmark hsign hdigits =>
    rw [List.forall_mem_cons, List.forall_mem_append]
    refine ⟨?_, hsign.isNumeralChar, fun c hc => isNumeralChar_of_isDigit (hdigits.2 c hc)⟩
    rcases hmark with rfl | rfl <;> decide

/-- A numeral passes the filter. -/
theorem isNumeralChar {text : List Char} {d : Decimal} (h : Numeral text d) :
    ∀ c ∈ text, isNumeralChar c := by
  cases h with
  | mk hsign hmantissa hpower =>
    rw [List.forall_mem_append, List.forall_mem_append]
    exact ⟨hsign.isNumeralChar, hmantissa.isNumeralChar, hpower.isNumeralChar⟩

/-- A text writes one number. -/
theorem unique {text : List Char} {d e : Decimal} (h : Numeral text d) (h' : Numeral text e) :
    d = e := by
  rw [← Decimal.read?_eq_some_iff] at h h'
  exact Option.some.inj (h.symm.trans h')

end Numeral

/-! ## Words -/

/-- The words of the general reader, in small letters. -/
def readerWords : List (List Char) := ["inf".toList, "infinity".toList, "nan".toList]

theorem toLower_of_isDigit {c : Char} (h : c.isDigit) : c.toLower = c := by
  unfold Char.toLower
  split
  · rename_i hcapital
    have hbounds := isDigit_bounds h
    have hlow : 65 ≤ c.toNat := UInt32.le_iff_toNat_le.1 hcapital.1
    omega
  · rfl

/-- No character of decimals is an `n`, or becomes one. -/
theorem toLower_ne_of_isNumeralChar {c : Char} (h : isNumeralChar c) : c.toLower ≠ 'n' := by
  simp only [isNumeralChar, Bool.or_eq_true, beq_iff_eq] at h
  rcases h with ((((h | rfl) | rfl) | rfl) | rfl) | rfl
  · rw [toLower_of_isDigit h]
    rintro rfl
    cases h
  all_goals decide

/-- A word does not pass the filter, in whatever letters it is. -/
theorem exists_not_isNumeralChar_of_word {word : List Char}
    (h : word.map Char.toLower ∈ readerWords) : ∃ c ∈ word, isNumeralChar c = false := by
  have hn : 'n' ∈ word.map Char.toLower := by
    simp only [readerWords, List.mem_cons, List.not_mem_nil, or_false] at h
    rcases h with h | h | h <;> rw [h] <;> decide
  obtain ⟨c, hc, hlower⟩ := List.mem_map.1 hn
  exact ⟨c, hc, Bool.eq_false_iff.2 fun hchar => toLower_ne_of_isNumeralChar hchar hlower⟩

/-- What the general reader takes of the texts that pass the filter are decimals. -/
theorem Extended.read?_of_isNumeralChar {text : List Char} (h : ∀ c ∈ text, isNumeralChar c) :
    Extended.read? text = (Decimal.read? text).map Decimal.nearest := by
  unfold Extended.read?
  cases Decimal.read? text with
  | some d => rfl
  | none =>
    -- behind its sign, the text would have to be a word
    obtain ⟨sign, hsign, htext⟩ := Numeral.exists_sign text
    generalize Decimal.readSign text = parts at hsign htext ⊢
    obtain ⟨negative, word⟩ := parts
    have hword : word.map Char.toLower ∉ readerWords := by
      intro hmem
      obtain ⟨c, hc, hchar⟩ := exists_not_isNumeralChar_of_word hmem
      have hpass := h c (htext ▸ List.mem_append_right sign hc)
      rw [hchar] at hpass
      cases hpass
    simp only [readerWords, List.mem_cons, List.not_mem_nil, or_false, not_or] at hword
    show Extended.ofWord? negative word = none
    unfold Extended.ofWord?
    dsimp only
    rw [if_neg (not_or.2 ⟨hword.1, hword.2.1⟩), if_neg hword.2.2]

/-! ## Blanks around a text -/

/-- A text without the blanks around it. -/
structure Trims (text trimmed : List Char) : Prop where
  surrounded : ∃ before behind, text = before ++ (trimmed ++ behind) ∧
    (∀ c ∈ before, isBlank c) ∧ ∀ c ∈ behind, isBlank c
  head : ∀ c ∈ trimmed.head?, isBlank c = false
  last : ∀ c ∈ trimmed.getLast?, isBlank c = false

/-- What is left behind the longest run of blanks does not begin with one. -/
theorem head?_dropWhile_isBlank (text : List Char) :
    ∀ c ∈ (text.dropWhile isBlank).head?, isBlank c = false := by
  intro c hc
  have hnot := List.head?_dropWhile_not isBlank text
  rwa [Option.mem_def.1 hc] at hnot

theorem trims_trimBlanks (text : List Char) : Trims text (trimBlanks text) := by
  have hfront : text.takeWhile isBlank ++ text.dropWhile isBlank = text :=
    List.takeWhile_append_dropWhile
  have hback (rest : List Char) :
      (rest.dropWhile isBlank).reverse ++ (rest.takeWhile isBlank).reverse = rest.reverse := by
    rw [← List.reverse_append, List.takeWhile_append_dropWhile]
  have hblank (rest : List Char) : ∀ c ∈ rest.takeWhile isBlank, isBlank c :=
    List.all_eq_true.1 List.all_takeWhile
  -- behind the first blanks, the text is what is left and the last blanks
  have hparts := hback (text.dropWhile isBlank).reverse
  rw [List.reverse_reverse] at hparts
  refine ⟨⟨_, ((text.dropWhile isBlank).reverse.takeWhile isBlank).reverse, ?_, hblank text, ?_⟩,
    ?_, ?_⟩
  · exact ((congrArg _ hparts).trans hfront).symm
  · exact fun c hc => hblank _ c (List.mem_reverse.1 hc)
  · intro c hc
    refine head?_dropWhile_isBlank text c ?_
    rw [← hparts, List.head?_append, ← trimBlanks, Option.mem_def.1 hc]
    rfl
  · intro c hc
    rw [trimBlanks, List.getLast?_reverse] at hc
    exact head?_dropWhile_isBlank _ c hc

/-- There is one text without the blanks around it. -/
theorem Trims.trimBlanks_eq {text trimmed : List Char} (h : Trims text trimmed) :
    trimBlanks text = trimmed := by
  obtain ⟨⟨before, behind, rfl, hbefore, hbehind⟩, hhead, hlast⟩ := h
  by_cases hnil : trimmed = []
  · -- all of it is blank
    subst hnil
    have hblank : ∀ c ∈ before ++ behind, isBlank c := List.forall_mem_append.2 ⟨hbefore, hbehind⟩
    have hdrop := @dropWhile_run isBlank (before ++ behind) [] hblank nofun
    rw [List.append_nil] at hdrop
    rw [trimBlanks, List.nil_append, hdrop]
    rfl
  · have hfront : ∀ c ∈ (trimmed ++ behind).head?, isBlank c = false := by
      rwa [List.head?_append_of_ne_nil _ hnil]
    have hback : ∀ c ∈ trimmed.reverse.head?, isBlank c = false := by
      rwa [List.head?_reverse]
    rw [trimBlanks, dropWhile_run hbefore hfront, List.reverse_append,
      dropWhile_run (fun c hc => hbehind c (List.mem_reverse.1 hc)) hback, List.reverse_reverse]

/-! ## The conversion -/

/-- The names of the infinities. -/
inductive NamesInfinity : List Char → Bool → Prop
  | bare : NamesInfinity "Infinity".toList false
  | plus : NamesInfinity "+Infinity".toList false
  | minus : NamesInfinity "-Infinity".toList true

/-- A text, without blanks around it, that is no number. -/
structure IsOther (text : List Char) : Prop where
  ne_nil : text ≠ []
  not_infinity : ∀ negative, ¬NamesInfinity text negative
  not_numeral : ∀ d, ¬Numeral text d

/-- The number that a text without blanks around it converts to. -/
inductive Converts : List Char → Extended → Prop
  | empty : Converts [] (.finite (Binary64.zero false))
  | infinity {text : List Char} {negative : Bool} (h : NamesInfinity text negative) :
      Converts text (.infinite negative)
  | numeral {text : List Char} {d : Decimal} {x : Extended} (h : Numeral text d)
      (hrounds : d.Rounds x) : Converts text x
  | other {text : List Char} (h : IsOther text) : Converts text .nan

theorem NamesInfinity.exists_not_isNumeralChar {text : List Char} {negative : Bool}
    (h : NamesInfinity text negative) : ∃ c ∈ text, isNumeralChar c = false := by
  cases h <;> exact ⟨'I', by decide⟩

theorem not_namesInfinity {text : List Char} (h : ∀ c ∈ text, isNumeralChar c) (negative : Bool) :
    ¬NamesInfinity text negative := by
  intro hname
  obtain ⟨c, hc, hchar⟩ := hname.exists_not_isNumeralChar
  rw [h c hc] at hchar
  cases hchar

/-- Every text converts to some number, or to none. -/
theorem exists_converts (text : List Char) : ∃ x, Converts text x := by
  by_cases hnil : text = []
  · subst hnil
    exact ⟨_, .empty⟩
  by_cases hinfinity : ∃ negative, NamesInfinity text negative
  · obtain ⟨negative, h⟩ := hinfinity
    exact ⟨_, .infinity h⟩
  by_cases hnumeral : ∃ d, Numeral text d
  · obtain ⟨d, h⟩ := hnumeral
    exact ⟨_, .numeral h d.rounds_nearest⟩
  · exact ⟨_, .other ⟨hnil, not_exists.1 hinfinity, not_exists.1 hnumeral⟩⟩

namespace Extended

/-- A text that is neither blank nor a name is read if it passes the filter. -/
theorem ofText_of_trims {s : String} {text : List Char} (htrims : Trims s.toList text)
    (hnil : text ≠ []) (hinfinity : ∀ negative, ¬NamesInfinity text negative) :
    ofText s = ((Decimal.read? text).map Decimal.nearest).getD .nan := by
  have hbare : text ≠ "Infinity".toList := by rintro rfl; exact hinfinity _ .bare
  have hplus : text ≠ "+Infinity".toList := by rintro rfl; exact hinfinity _ .plus
  have hminus : text ≠ "-Infinity".toList := by rintro rfl; exact hinfinity _ .minus
  unfold ofText
  dsimp only
  rw [htrims.trimBlanks_eq, if_neg hnil, if_neg (not_or.2 ⟨hbare, hplus⟩), if_neg hminus]
  split
  · rename_i hpass
    rw [read?_of_isNumeralChar (List.all_eq_true.1 hpass)]
  · rename_i hpass
    -- what does not pass is no decimal
    cases hread : Decimal.read? text with
    | none => rfl
    | some d =>
      have hchars := (Decimal.read?_eq_some_iff.1 hread).isNumeralChar
      exact absurd (List.all_eq_true.2 hchars) hpass

/-- The conversion follows its cases. -/
theorem ofText_of_converts {s : String} {text : List Char} {x : Extended}
    (htrims : Trims s.toList text) (h : Converts text x) : ofText s = x := by
  cases h with
  | empty =>
    unfold ofText
    rw [htrims.trimBlanks_eq]
    rfl
  | infinity h =>
    unfold ofText
    dsimp only
    rw [htrims.trimBlanks_eq]
    cases h with
    | bare | plus => rw [if_neg (by decide), if_pos (by decide)]
    | minus => rw [if_neg (by decide), if_neg (by decide), if_pos rfl]
  | numeral h hrounds =>
    have hnil : text ≠ [] := by
      rintro rfl
      cases Decimal.read?_eq_some_iff.2 h
    rw [ofText_of_trims htrims hnil (not_namesInfinity h.isNumeralChar),
      Decimal.read?_eq_some_iff.2 h, Option.map_some, Option.getD_some]
    exact Decimal.nearest_eq_iff_rounds.2 hrounds
  | other h =>
    have hnone : Decimal.read? text = none :=
      Option.eq_none_iff_forall_ne_some.2 fun d hread =>
        h.not_numeral d (Decimal.read?_eq_some_iff.1 hread)
    rw [ofText_of_trims htrims h.ne_nil h.not_infinity, hnone]
    rfl

theorem ofText_eq_iff {s : String} {x : Extended} :
    ofText s = x ↔ ∃ text, Trims s.toList text ∧ Converts text x := by
  constructor
  · rintro rfl
    have htrims := trims_trimBlanks s.toList
    obtain ⟨x, hx⟩ := exists_converts (trimBlanks s.toList)
    rw [ofText_of_converts htrims hx]
    exact ⟨_, htrims, hx⟩
  · rintro ⟨text, htrims, hconverts⟩
    exact ofText_of_converts htrims hconverts

end Extended

/-! ## Texts that are no numbers -/

/-- Texts that look like numbers and are none. -/
inductive Resembles : List Char → Prop
  /-- A word of the general reader, in whatever letters, unless it names an infinity. -/
  | word {sign word : List Char} {negative : Bool} (hsign : Numeral.Sign sign negative)
      (hword : word.map Char.toLower ∈ readerWords)
      (hname : ∀ negative, ¬NamesInfinity (sign ++ word) negative) : Resembles (sign ++ word)
  | hexadecimal {sign digits : List Char} {negative : Bool} {mark : Char}
      (hsign : Numeral.Sign sign negative) (hmark : mark = 'x' ∨ mark = 'X') :
      Resembles (sign ++ '0' :: mark :: digits)
  | spaced {before behind : List Char} {blank : Char} (hblank : isBlank blank) :
      Resembles (before ++ blank :: behind)
  /-- A sign, a point, or both. -/
  | bare {sign point : List Char} {negative : Bool} (hsign : Numeral.Sign sign negative)
      (hpoint : point = [] ∨ point = ['.']) (hne : sign ++ point ≠ []) : Resembles (sign ++ point)
  /-- An exponent without digits before it. -/
  | exponent {sign point rest : List Char} {negative : Bool} {mark : Char}
      (hsign : Numeral.Sign sign negative) (hpoint : point = [] ∨ point = ['.'])
      (hmark : Numeral.IsMark mark) : Resembles (sign ++ (point ++ mark :: rest))
  /-- A mark of an exponent without digits behind it. -/
  | mark {sign mantissa whole fraction power : List Char} {negative other : Bool} {mark : Char}
      (hsign : Numeral.Sign sign negative) (hmantissa : Numeral.Mantissa mantissa whole fraction)
      (hmark : Numeral.IsMark mark) (hpower : Numeral.Sign power other) :
      Resembles (sign ++ (mantissa ++ mark :: power))

theorem isOther_of_read? {text : List Char} (hne : text ≠ [])
    (hinfinity : ∀ negative, ¬NamesInfinity text negative) (hread : Decimal.read? text = none) :
    IsOther text where
  ne_nil := hne
  not_infinity := hinfinity
  not_numeral d hd := by
    rw [Decimal.read?_eq_some_iff.2 hd] at hread
    cases hread

/-- A text with a character of neither numerals nor names is no number. -/
theorem isOther_of_mem {text : List Char} {c : Char} (hc : c ∈ text)
    (hchar : isNumeralChar c = false) (hinfinity : ∀ negative, ¬NamesInfinity text negative) :
    IsOther text where
  ne_nil := List.ne_nil_of_mem hc
  not_infinity := hinfinity
  not_numeral d hd := by
    rw [hd.isNumeralChar c hc] at hchar
    cases hchar

theorem NamesInfinity.mem {text : List Char} {negative : Bool} (h : NamesInfinity text negative) :
    text ⊆ "+-Infity".toList := by
  cases h <;> decide

/-- A text with a character that no name has names no infinity. -/
theorem not_namesInfinity_of_mem {text : List Char} {c : Char} (hc : c ∈ text)
    (hletter : c ∉ "+-Infity".toList) (negative : Bool) : ¬NamesInfinity text negative :=
  fun hname => hletter (hname.mem hc)

theorem Numeral.IsMark.not_mem_infinity {mark : Char} (h : IsMark mark) :
    mark ∉ "+-Infity".toList := by
  rcases h with rfl | rfl <;> decide

theorem isNumeralChar_of_isBlank {c : Char} (h : isBlank c) : isNumeralChar c = false := by
  refine Bool.eq_false_iff.2 fun hchar => ?_
  simp only [isNumeralChar, Bool.or_eq_true, beq_iff_eq] at hchar
  rcases hchar with ((((hdigit | rfl) | rfl) | rfl) | rfl) | rfl
  · rw [(not_quote_of_isDigit hdigit).2.2] at h
    cases h
  all_goals exact absurd h (by decide)

/-- Nothing that only looks like a number is one. -/
theorem Resembles.isOther {text : List Char} (h : Resembles text) : IsOther text := by
  cases h with
  | @word sign word negative hsign hword hname =>
    obtain ⟨c, hc, hchar⟩ := exists_not_isNumeralChar_of_word hword
    exact isOther_of_mem (List.mem_append_right sign hc) hchar hname
  | @hexadecimal sign digits negative mark hsign hmark =>
    have hmem : mark ∈ sign ++ '0' :: mark :: digits := by simp
    refine isOther_of_mem hmem ?_ (not_namesInfinity_of_mem hmem ?_)
    · rcases hmark with rfl | rfl <;> decide
    · rcases hmark with rfl | rfl <;> decide
  | @spaced before behind blank hblank =>
    have hmem : blank ∈ before ++ blank :: behind := by simp
    refine isOther_of_mem hmem (isNumeralChar_of_isBlank hblank) (not_namesInfinity_of_mem hmem ?_)
    intro hletter
    have hletters : "+-Infity".toList.all (fun c => !isBlank c) = true := by decide
    have hnot := List.all_eq_true.1 hletters blank hletter
    rw [hblank] at hnot
    cases hnot
  | bare hsign hpoint hne =>
    -- the characters pass the filter, so that it is the reader that finds no digits
    refine isOther_of_read? hne (not_namesInfinity ?_) ?_
    · refine List.forall_mem_append.2 ⟨hsign.isNumeralChar, List.all_eq_true.1 ?_⟩
      rcases hpoint with rfl | rfl <;> rfl
    · rcases hpoint with rfl | rfl <;> cases hsign <;> rfl
  | @exponent sign point rest negative mark hsign hpoint hmark =>
    have hmem : mark ∈ sign ++ (point ++ mark :: rest) := by simp
    refine isOther_of_read? (List.ne_nil_of_mem hmem)
      (not_namesInfinity_of_mem hmem hmark.not_mem_infinity) ?_
    rcases hmark with rfl | rfl <;> rcases hpoint with rfl | rfl <;> cases hsign <;> rfl
  | @mark sign mantissa whole fraction power negative other mark hsign hmantissa hmark hpower =>
    have hmem : mark ∈ sign ++ (mantissa ++ mark :: power) := by simp
    refine isOther_of_read? (List.ne_nil_of_mem hmem)
      (not_namesInfinity_of_mem hmem hmark.not_mem_infinity) ?_
    rw [Numeral.read?_append hsign hmantissa (hmark.endsNumber power)]
    rcases hmark with rfl | rfl <;> cases hpower <;> rfl

/-! ## Comparisons -/

namespace Value

/-- The comparisons that convert texts to numbers. -/
def convertingComparisons : List Comparison :=
  [.looseEqual, .less, .greater, .lessOrEqual, .greaterOrEqual]

/-- Values without an order are in none of these relations, unless one of them is undefined. -/
theorem holds_of_order?_eq_none {a b : Value} (h : a.order? b = none) (ha : a ≠ none)
    (hb : b ≠ none) : ∀ op ∈ convertingComparisons, op.holds a b = false := by
  -- loosely equal values would tie, which is an order
  have hloose : a.looseEquals b = false := by
    refine Bool.eq_false_iff.2 fun hequal => ?_
    rw [order?_of_looseEquals hequal ha hb] at h
    cases h
  simp only [convertingComparisons, List.forall_mem_cons, List.not_mem_nil, false_imp_iff,
    implies_true, and_true]
  simp only [Comparison.holds, h, hloose]
  decide

/-- A text that is no number has no order with a number or a boolean. -/
theorem order?_of_nan {s : String} (hs : Extended.ofText s = .nan) {data : Json}
    (hdata : data.kind? = some .number ∨ data.kind? = some .boolean) :
    order? (some (.string s)) (some data) = none := by
  cases data with
  | number | boolean =>
    show Extended.order? (Extended.ofText s) _ = none
    rw [Extended.order?_eq_none_iff]
    exact Or.inl hs
  | null | string | array | object => rcases hdata with h | h <;> cases h

end Value

/-! ## Converting texts -/

/-- A text is converted as it stands without the blanks around it: to zero if nothing is left, to
    the infinity that is named, to the number that a numeral is rounded to, and otherwise to
    none. Among the latter are the words and unfinished numerals of `Resembles`. A text that is
    none of these is not loosely equal to any number or boolean, and not ordered against any,
    from either side. -/
theorem Json.toExtended_string_converts :
    (∀ (s : String) (x : Extended), (Json.string s).toExtended = x ↔
      ∃ text, Trims s.toList text ∧ Converts text x) ∧
    (∀ text, Resembles text → IsOther text) ∧
    ∀ (s : String) (text : List Char) (data : Json), Trims s.toList text → IsOther text →
      data.kind? = some .number ∨ data.kind? = some .boolean →
      ∀ op ∈ Value.convertingComparisons,
        op.holds (some (.string s)) (some data) = false ∧
          op.holds (some data) (some (.string s)) = false := by
  refine ⟨fun s x => Extended.ofText_eq_iff, fun text h => h.isOther, ?_⟩
  intro s text data htrims hother hdata op hop
  have hnan := Extended.ofText_of_converts htrims (.other hother)
  have hfront := Value.order?_of_nan hnan hdata
  have hback : Value.order? (some data) (some (.string s)) = none := by
    rw [Value.order?_swap, hfront]
    rfl
  have hstring : some (Json.string s) ≠ none := Option.some_ne_none _
  have hsome : some data ≠ none := Option.some_ne_none _
  exact ⟨Value.holds_of_order?_eq_none hfront hstring hsome op hop,
    Value.holds_of_order?_eq_none hback hsome hstring op hop⟩

/-- Blanks around a numeral do not count, and a hexadecimal number is none: as a text it is not
    loosely equal to the number, not even at most as large. -/
theorem Json.toExtended_string_padded :
    (Json.string " 12.5 ").toExtended = (Decimal.mk false 125 (-1)).nearest ∧
      Comparison.looseEqual.holds (some (.string " 0x1 ")) (some (.number (.integer 1))) = false ∧
      Comparison.lessOrEqual.holds (some (.number (.integer 1))) (some (.string " 0x1 ")) =
        false := by
  obtain ⟨hconverts, hresembles, hcomparisons⟩ := Json.toExtended_string_converts
  have htrims : Trims " 12.5 ".toList "12.5".toList := trims_trimBlanks _
  have hnumeral : Numeral "12.5".toList ⟨false, 125, -1⟩ := Decimal.read?_eq_some_iff.1 rfl
  have hother : IsOther "0x1".toList :=
    hresembles _ (@Resembles.hexadecimal [] ['1'] false 'x' .none (.inl rfl))
  have htrims' : Trims " 0x1 ".toList "0x1".toList := trims_trimBlanks _
  have hholds := hcomparisons " 0x1 " _ (.number (.integer 1)) htrims' hother (.inl rfl)
  exact ⟨(hconverts _ _).2 ⟨_, htrims, .numeral hnumeral (Decimal.rounds_nearest _)⟩,
    (hholds .looseEqual (by decide)).1, (hholds .lessOrEqual (by decide)).2⟩

end FormRules
