/-
  FormRules.Proofs.LexicalFaults

  What is wrong at a place where no lexeme can be taken. One of three things is the case
  (`FaultAt`): no lexeme of any class begins there, a string does not end, or a number
  overflows.

  None of the three mentions the scanner. A string does not end if each quote of its kind
  stands behind an odd number of backslashes, and a number overflows if it is not below the
  middle between the largest double and `2^1024`.

  Main statements: `next_eq_error_iff`, and `next_of_isLongest`, a lexeme that can be taken
  at one place can be taken wherever it is the longest.
-/

import FormRules.Proofs.Overflow
import FormRules.Proofs.Segmentation
import Mathlib.Algebra.Ring.Parity

namespace FormRules

namespace Lexeme

/-! ## Strings that do not end -/

/-- The number of backslashes at the end of a text. -/
def backslashes (text : List Char) : Nat := (text.reverse.takeWhile (· = '\\')).length

/-- A string, from behind its opening quote on, that does not end: every quote of its kind
    stands behind an odd number of backslashes, the last one of which escapes it. -/
def IsOpen (quote : Char) (text : List Char) : Prop :=
  ∀ before behind, text = before ++ quote :: behind → Odd (backslashes before)

/-- A character in front of a text adds to its backslashes if all of it is backslashes. -/
theorem backslashes_cons (c : Char) (text : List Char) :
    backslashes (c :: text) =
      if c = '\\' ∧ backslashes text = text.length then text.length + 1
      else backslashes text := by
  unfold backslashes
  rw [List.reverse_cons, List.takeWhile_append, List.length_reverse]
  -- read from the end, the character in front is the last one
  by_cases hall : (text.reverse.takeWhile (· = '\\')).length = text.length
  · by_cases hc : c = '\\' <;> simp [hall, hc]
  · rw [if_neg hall, if_neg fun h => hall h.2]

/-- A backslash and the character behind it leave the parity as it is. -/
theorem odd_backslashes_escape (c : Char) (text : List Char) :
    Odd (backslashes ('\\' :: c :: text)) ↔ Odd (backslashes text) := by
  have hle : backslashes text ≤ text.length := by
    have htake := (List.takeWhile_prefix (l := text.reverse) (· = '\\')).length_le
    rwa [List.length_reverse] at htake
  rw [backslashes_cons, backslashes_cons, List.length_cons]
  by_cases hboth : c = '\\' ∧ backslashes text = text.length
  · -- both characters are added
    rw [if_pos hboth, if_pos ⟨rfl, rfl⟩, hboth.2, Nat.odd_add_one, Nat.odd_add_one, not_not]
  · rw [if_neg hboth, if_neg (by omega)]

/-- No end of a string is found exactly if it has none. -/
theorem stringBody_eq_none_iff {quote : Char} (hquote : quote ≠ '\\') {text : List Char} :
    stringBody quote text = none ↔ IsOpen quote text := by
  -- what stands before a quote begins like the text does
  fun_induction stringBody quote text with
  | case1 => exact iff_of_true rfl fun before behind h => by simp at h
  | case2 c rest ih =>
    rw [Option.map_eq_none_iff, ih]
    constructor
    · intro hrest before behind h
      rcases before with _ | ⟨first, _ | ⟨second, before⟩⟩
      · exact absurd (List.cons.inj h).1.symm hquote
      · -- the quote is escaped itself
        obtain ⟨hfirst, -⟩ := List.cons.inj h
        rw [← hfirst]
        decide
      · simp only [List.cons_append, List.cons.injEq] at h
        rw [← h.1]
        exact (odd_backslashes_escape second before).2 (hrest before behind h.2.2)
    · rintro hall before behind rfl
      exact (odd_backslashes_escape c before).1 (hall ('\\' :: c :: before) behind rfl)
  | case3 rest hnot =>
    refine iff_of_false (by simp) fun hall => ?_
    exact absurd (hall [] rest rfl) (by decide)
  | case4 c rest hnot hne ih =>
    rw [Option.map_eq_none_iff, ih]
    -- a backslash in front of a text would have taken the next character with it
    have hcons (before behind : List Char) (h : rest = before ++ quote :: behind) :
        backslashes (c :: before) = backslashes before := by
      rw [backslashes_cons, if_neg]
      rintro ⟨rfl, -⟩
      obtain ⟨first, tail, hrest⟩ := List.exists_cons_of_ne_nil (show rest ≠ [] by simp [h])
      exact hnot first tail rfl hrest
    constructor
    · intro hrest before behind h
      cases before with
      | nil => exact absurd (List.cons.inj h).1 hne
      | cons first before =>
        obtain ⟨rfl, hsplit⟩ := List.cons.inj h
        rw [hcons before behind hsplit]
        exact hrest before behind hsplit
    · intro hall before behind h
      rw [← hcons before behind h]
      exact hall (c :: before) behind (by rw [h, List.cons_append])

/-! ## Numbers that overflow -/

/-- The decimal number that a literal writes. -/
inductive Writes : List Char → Decimal → Prop
  | whole {negative : Bool} {whole : List Char} (hwhole : IsDigits whole) :
      Writes (sign negative ++ whole) ⟨negative, Decimal.digitsValue whole, 0⟩
  | fractional {negative : Bool} {whole fraction : List Char} (hwhole : IsDigits whole)
      (hfraction : IsDigits fraction) :
      Writes (sign negative ++ (whole ++ '.' :: fraction))
        ⟨negative, Decimal.digitsValue (whole ++ fraction), -fraction.length⟩

theorem Writes.isNumber {literal : List Char} {d : Decimal} (h : Writes literal d) :
    IsNumber literal := by
  cases h with
  | @whole negative whole hwhole =>
    exact isNumber_iff_sign.2 ⟨negative, whole, hwhole.isUnsigned, rfl⟩
  | @fractional negative whole fraction hwhole hfraction =>
    exact isNumber_iff_sign.2 ⟨negative, _, ⟨whole, hwhole, Or.inr ⟨fraction, hfraction, rfl⟩⟩, rfl⟩

/-- Every number literal writes a decimal number. -/
theorem IsNumber.exists_writes {literal : List Char} (h : IsNumber literal) :
    ∃ d, Writes literal d := by
  obtain ⟨negative, digits, hdigits, rfl⟩ := isNumber_iff_sign.1 h
  obtain ⟨whole, hwhole, rfl | ⟨fraction, hfraction, rfl⟩⟩ := hdigits
  · exact ⟨_, .whole hwhole⟩
  · exact ⟨_, .fractional hwhole hfraction⟩

/-- Digits before and behind a point have no value exactly if their number overflows. -/
theorem unsignedValue_eq_none_iff {negative : Bool} {text whole fraction rest : List Char}
    (hwhole : text.takeWhile Char.isDigit = whole)
    (hfraction : Decimal.readFraction (text.dropWhile Char.isDigit) = (fraction, rest)) :
    unsignedValue negative text = none ↔
      (Decimal.mk negative (Decimal.digitsValue (whole ++ fraction))
        (-fraction.length)).Overflows := by
  rw [unsignedValue_eq hwhole hfraction]
  by_cases hfits : fraction = [] ∧ FitsInteger (signed negative whole)
  · rw [if_pos hfits]
    refine iff_of_false (Option.some_ne_none _) fun hoverflows => ?_
    -- the threshold is beyond all integers of 64 bits
    have hthreshold : 2 ^ 63 < Binary64.threshold := by decide +kernel
    have hinteger : Decimal.digitsValue whole ≤ 2 ^ 63 := by
      have hbound := (fitsInteger_iff negative whole).1 hfits.2
      split at hbound <;> omega
    simp only [Decimal.Overflows, hfits.1, List.append_nil, List.length_nil, Int.natCast_zero,
      Int.neg_zero, Int.toNat_zero, Nat.pow_zero, Nat.mul_one] at hoverflows
    omega
  · rw [if_neg hfits]
    by_cases hoverflows : (Decimal.mk negative (Decimal.digitsValue (whole ++ fraction))
        (-fraction.length)).Overflows
    · rw [(Decimal.nearest_eq_infinite_iff _).2 hoverflows]
      exact iff_of_true rfl hoverflows
    · obtain ⟨x, hx⟩ := Decimal.exists_nearest_eq_finite hoverflows
      rw [hx]
      exact iff_of_false (Option.some_ne_none _) hoverflows

/-- A literal has no value exactly if the number that it writes overflows. -/
theorem Writes.numberValue_eq_none_iff {literal : List Char} {d : Decimal}
    (h : Writes literal d) : numberValue literal = none ↔ d.Overflows := by
  cases h with
  | @whole negative whole hwhole =>
    obtain ⟨htake, hnone⟩ := parts_of_whole hwhole
    rw [numberValue_sign negative hwhole.isUnsigned]
    have hvalue := @unsignedValue_eq_none_iff negative whole _ _ _ htake hnone
    rwa [List.append_nil] at hvalue
  | @fractional negative whole fraction hwhole hfraction =>
    obtain ⟨htake, hread⟩ := parts_of_fractional hwhole hfraction
    rw [numberValue_sign negative ⟨whole, hwhole, Or.inr ⟨fraction, hfraction, rfl⟩⟩]
    exact unsignedValue_eq_none_iff htake hread

end Lexeme

namespace Tokens

open Lexeme

/-! ## Faults at one place -/

/-- What is wrong at the front of a text that stands at some position. -/
inductive FaultAt (position : Nat) : List Char → Fault → Prop
  /-- No lexeme of any class begins there. -/
  | unexpected {first : Char} {rest : List Char} (hblank : isBlank first = false)
      (hquote : ¬(first = '"' ∨ first = '\''))
      (hnone : ∀ lexeme, IsLexeme lexeme → ¬lexeme <+: first :: rest) :
      FaultAt position (first :: rest) (.unexpectedCharacter first position)
  /-- A string begins there that does not end. -/
  | unterminated {quote : Char} {rest : List Char} (hquote : quote = '"' ∨ quote = '\'')
      (hopen : IsOpen quote rest) :
      FaultAt position (quote :: rest) (.unterminatedString position)
  /-- The longest lexeme there is a number that overflows. -/
  | invalid {literal text : List Char} {d : Decimal} (hlongest : IsLongest literal text)
      (hwrites : Writes literal d) (hoverflows : d.Overflows) :
      FaultAt position text (.invalidNumber (String.ofList literal) position)

/-- The number that is taken from the front of a text is the longest lexeme there. -/
theorem isLongest_numberText {text : List Char} (h : numberText text ≠ []) :
    IsLongest (numberText text) text where
  isPrefix := numberText_isPrefix text
  isLexeme := .number (isNumber_numberText h)
  length_le other hother hbegins := by
    obtain ⟨first, tail, hnumber, hfirst⟩ := (isNumber_numberText h).exists_eq_cons
    obtain ⟨first', tail', rfl, -⟩ := hother.exists_eq_cons
    -- both begin with the first character of the text
    obtain ⟨rest, rfl⟩ := hbegins
    have hprefix := numberText_isPrefix (first' :: tail' ++ rest)
    rw [hnumber, List.cons_append] at hprefix
    obtain ⟨rfl, -⟩ := List.cons_prefix_cons.1 hprefix
    exact (prefix_numberText (hother.isNumber hfirst) (List.prefix_append _ _)).length_le

/-- A number that is the longest lexeme at the front of a text is taken from there. -/
theorem numberText_of_isLongest {literal text : List Char} (h : IsLongest literal text)
    (hnumber : IsNumber literal) : numberText text = literal := by
  have hprefix := prefix_numberText hnumber h.isPrefix
  have hne : numberText text ≠ [] := by
    intro hnil
    rw [hnil, List.prefix_nil] at hprefix
    obtain ⟨first, tail, hcons, -⟩ := hnumber.exists_eq_cons
    exact List.cons_ne_nil first tail (hcons.symm.trans hprefix)
  exact (isLongest_numberText hne).unique h

/-- Where the scanners of all classes find nothing, no lexeme begins. -/
theorem no_lexeme_of_none {first : Char} {rest : List Char}
    (hquote : ¬(first = '"' ∨ first = '\'')) (hnumber : numberText (first :: rest) = [])
    (hname : nameText (first :: rest) = []) (hsymbol : symbol? (first :: rest) = none) :
    ∀ lexeme, IsLexeme lexeme → ¬lexeme <+: first :: rest := by
  intro lexeme hlexeme hbegins
  have hne : lexeme ≠ [] := by
    obtain ⟨c, tail, rfl, -⟩ := hlexeme.exists_eq_cons
    exact List.cons_ne_nil c tail
  cases hlexeme with
  | number h => exact hne (List.prefix_nil.1 (hnumber ▸ prefix_numberText h hbegins))
  | string h => exact hquote ((List.cons_prefix_cons.1 hbegins).1 ▸ h)
  | name h =>
    have hlonger := prefix_nameText (isName_iff_isDottedWord.2 h) hbegins
    exact hne (List.prefix_nil.1 (hname ▸ hlonger))
  | @symbol spelling kind hspelling =>
    have hs : (spelling, kind) ∈ TokenKind.symbols := mem_symbols_iff.2 hspelling
    obtain ⟨found, hfound, -⟩ := length_le_symbol? hs hbegins
    rw [hsymbol] at hfound
    cases hfound

section Next

variable {position : Nat} {first : Char} {rest : List Char} {fault : Fault}

/-- Where no lexeme is found, one of the three things is the case. -/
theorem faultAt_of_next (hfirst : isBlank first = false)
    (h : next position first rest = .error fault) : FaultAt position (first :: rest) fault := by
  unfold next at h
  split at h
  · rename_i hquote
    have hescape := (not_blank_of_quote hquote).2
    split at h
    · cases h
    · rename_i hbody
      cases h
      exact .unterminated hquote ((stringBody_eq_none_iff hescape).1 hbody)
  · rename_i hquote
    split at h
    · rename_i c digits hdigits
      have hne : numberText (first :: rest) ≠ [] := hdigits ▸ List.cons_ne_nil c digits
      obtain ⟨d, hwrites⟩ := (isNumber_numberText hne).exists_writes
      rw [← hdigits] at h
      split at h
      · cases h
      · rename_i hvalue
        cases h
        exact .invalid (isLongest_numberText hne) hwrites (hwrites.numberValue_eq_none_iff.1 hvalue)
    · rename_i hnumber
      split at h
      · cases h
      · rename_i hname
        split at h
        · cases h
        · rename_i hsymbol
          cases h
          exact .unexpected hfirst hquote (no_lexeme_of_none hquote hnumber hname hsymbol)

/-- Where one of the three things is the case, no lexeme is found. -/
theorem next_of_faultAt (h : FaultAt position (first :: rest) fault) :
    next position first rest = .error fault := by
  cases h with
  | unexpected hblank hquote hnone =>
    -- what is found would be a lexeme, and the other faults are excluded
    cases hnext : next position first rest with
    | ok lexeme =>
      have hlongest := isLongest_of_next hnext
      exact absurd hlongest.isPrefix (hnone _ hlongest.isLexeme)
    | error fault =>
      cases faultAt_of_next hblank hnext with
      | unexpected => rfl
      | unterminated hquote' => exact absurd hquote' hquote
      | invalid hlongest => exact absurd hlongest.isPrefix (hnone _ hlongest.isLexeme)
  | unterminated hquote hopen =>
    have hescape := (not_blank_of_quote hquote).2
    rw [next, if_pos hquote, (stringBody_eq_none_iff hescape).2 hopen]
  | @invalid literal _ d hlongest hwrites hoverflows =>
    have hnumber := numberText_of_isLongest hlongest hwrites.isNumber
    have hvalue := hwrites.numberValue_eq_none_iff.2 hoverflows
    obtain ⟨c, tail, rfl, hc⟩ := hwrites.isNumber.exists_eq_cons
    obtain ⟨rfl, -⟩ := List.cons_prefix_cons.1 hlongest.isPrefix
    have hquote : ¬(c = '"' ∨ c = '\'') := by
      rintro (rfl | rfl) <;> exact absurd hc (by decide)
    rw [next, if_neg hquote, hnumber]
    dsimp only
    rw [hvalue]

/-- The scanner finds no lexeme exactly where one of the three things is the case, and says
    which one. -/
theorem next_eq_error_iff (hfirst : isBlank first = false) :
    next position first rest = .error fault ↔ FaultAt position (first :: rest) fault :=
  ⟨faultAt_of_next hfirst, next_of_faultAt⟩

/-- A string that is found at the front of one text ends at the same place in every other one
    that begins with it. -/
theorem not_isOpen_of_next {lexeme : Lexeme} (h : next position first rest = .ok lexeme)
    (hquote : first = '"' ∨ first = '\'') {rest' : List Char}
    (hbegins : lexeme.text <+: first :: rest') : ¬IsOpen first rest' := by
  have hescape := (not_blank_of_quote hquote).2
  rw [next, if_pos hquote] at h
  rw [← stringBody_eq_none_iff hescape]
  split at h
  · rename_i body hbody
    cases h
    obtain ⟨-, others, rfl⟩ := List.cons_prefix_cons.1 hbegins
    rw [(quotes_of_stringBody hbody).stringBody hescape]
    exact Option.some_ne_none body
  · cases h

/-- A lexeme that is found at the front of one text is found at the front of every other one
    where it is the longest. -/
theorem next_of_isLongest {lexeme : Lexeme} (h : next position first rest = .ok lexeme)
    {rest' : List Char} (hlongest : IsLongest lexeme.text (first :: rest')) (position' : Nat) :
    next position' first rest' = .ok lexeme := by
  have hfirst : isBlank first = false := by
    obtain ⟨c, tail, hcons, hc⟩ := hlongest.isLexeme.exists_eq_cons
    have hbegins := hlongest.isPrefix
    rw [hcons] at hbegins
    exact (List.cons_prefix_cons.1 hbegins).1 ▸ hc
  cases hnext : next position' first rest' with
  | ok found =>
    have htext : found.text = lexeme.text := (isLongest_of_next hnext).unique hlongest
    have hkind : found.kind = lexeme.kind :=
      (denotes_of_next hnext).unique (htext ▸ denotes_of_next h)
    obtain ⟨text, kind⟩ := found
    subst htext hkind
    rfl
  | error fault =>
    -- none of the three things is the case where a lexeme can be found
    cases faultAt_of_next hfirst hnext with
    | unexpected _ _ hnone => exact absurd hlongest.isPrefix (hnone _ hlongest.isLexeme)
    | unterminated hquote hopen =>
      exact absurd hopen (not_isOpen_of_next h hquote hlongest.isPrefix)
    | invalid hlongest' hwrites hoverflows =>
      rw [hlongest'.unique hlongest] at hwrites
      have hfault : FaultAt position (first :: rest) _ :=
        .invalid (isLongest_of_next h) hwrites hoverflows
      rw [next_of_faultAt hfault] at h
      cases h

end Next

end Tokens

end FormRules
