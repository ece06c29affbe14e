/-
  FormRules.Proofs.Munching

  A lexeme is the longest text of any class at its place.

  The language of lexemes is put down here without the functions that find them and say what
  they denote: strings with their escapes (`Quotes`), numbers with what they are worth
  (`HasValue`), words joined by points (`IsDottedWord`) and the spellings of the symbols
  (`spelling?`). `StandsFor` is what a lexeme means in terms of these.

  Main statements: `length_le_of_next`, no text of any class at the front of a text is
  longer than the lexeme that is taken there, and `standsFor_iff_denotes`, the scanner takes
  a lexeme for what it stands for.
-/

import Mathlib.Algebra.Group.Defs
import FormRules.Proofs.Denotation
import FormRules.Proofs.Nearest

namespace FormRules

namespace Lexeme

/-! ## Strings -/

/-- The letters that stand for another character behind a backslash. -/
def letterEscapes : List (Char × Char) := [('n', '\n'), ('t', '\t'), ('r', '\r')]

/-- What a character stands for behind a backslash: a few letters for another character, and
    every other character for itself. -/
inductive Escapes : Char → Char → Prop
  | letter {c d : Char} (h : (c, d) ∈ letterEscapes) : Escapes c d
  | itself {c : Char} (h : c ∉ letterEscapes.map Prod.fst) : Escapes c c

/-- The characters behind an opening quote, its closing quote included, and what they stand
    for. A backslash takes the next character with it, also a quote. -/
inductive Quotes (quote : Char) : List Char → List Char → Prop
  | close : Quotes quote [quote] []
  | plain {c : Char} {text inside : List Char} (hquote : c ≠ quote) (hescape : c ≠ '\\')
      (h : Quotes quote text inside) : Quotes quote (c :: text) (c :: inside)
  | escape {c d : Char} {text inside : List Char} (hescape : Escapes c d)
      (h : Quotes quote text inside) : Quotes quote ('\\' :: c :: text) (d :: inside)

/-- Reading an escape gives the character that it stands for. -/
theorem escapes_iff {c d : Char} : Escapes c d ↔ d = escaped c := by
  constructor
  · rintro (h | h)
    · simp only [letterEscapes, List.mem_cons, Prod.mk.injEq, List.not_mem_nil, or_false] at h
      rcases h with ⟨rfl, rfl⟩ | ⟨rfl, rfl⟩ | ⟨rfl, rfl⟩ <;> rfl
    · simp only [letterEscapes, List.map_cons, List.map_nil, List.mem_cons, List.not_mem_nil,
        or_false, not_or] at h
      rw [escaped, if_neg h.1, if_neg h.2.1, if_neg h.2.2]
  · rintro rfl
    by_cases h : c ∈ letterEscapes.map Prod.fst
    · simp only [letterEscapes, List.map_cons, List.map_nil, List.mem_cons, List.not_mem_nil,
        or_false] at h
      rcases h with rfl | rfl | rfl <;> exact .letter (by decide)
    · have hitself := Escapes.itself h
      simp only [letterEscapes, List.map_cons, List.map_nil, List.mem_cons, List.not_mem_nil,
        or_false, not_or] at h
      rwa [escaped, if_neg h.1, if_neg h.2.1, if_neg h.2.2]

theorem Quotes.ne_nil {quote : Char} {text inside : List Char} (h : Quotes quote text inside) :
    text ≠ [] := by
  cases h <;> exact List.cons_ne_nil _ _

/-- A string is read up to its closing quote, whatever follows. -/
theorem Quotes.stringBody {quote : Char} (hend : quote ≠ '\\') {text inside : List Char}
    (h : Quotes quote text inside) (rest : List Char) :
    stringBody quote (text ++ rest) = some text := by
  induction h with
  | close =>
    rw [List.singleton_append, Lexeme.stringBody, if_pos rfl]
    rintro c tail rfl
    exact absurd rfl hend
  | @plain c text inside hne hescape _ ih =>
    rw [List.cons_append, Lexeme.stringBody, if_neg hne, ih]
    · rfl
    · rintro d tail rfl
      exact absurd rfl hescape
  | escape _ _ ih =>
    rw [List.cons_append, List.cons_append, Lexeme.stringBody, ih]
    rfl

/-- What is read up to a closing quote is a string, with its escapes for what they stand
    for. -/
theorem quotes_of_stringBody {quote : Char} {text body : List Char}
    (h : stringBody quote text = some body) : Quotes quote body (unescape body.dropLast) := by
  fun_induction stringBody quote text generalizing body with
  | case1 => cases h
  | case2 c rest ih =>
    obtain ⟨inner, hinner, rfl⟩ := Option.map_eq_some_iff.1 h
    have hrest := ih hinner
    rw [List.dropLast_cons_of_ne_nil (List.cons_ne_nil _ _),
      List.dropLast_cons_of_ne_nil hrest.ne_nil, unescape]
    exact .escape (escapes_iff.2 rfl) hrest
  | case3 rest _ =>
    cases h
    exact .close
  | case4 c rest hnot hne ih =>
    obtain ⟨inner, hinner, rfl⟩ := Option.map_eq_some_iff.1 h
    -- a backslash would have taken the next character with it
    have hescape : c ≠ '\\' := by
      rintro rfl
      cases rest with
      | nil => cases hinner
      | cons d rest => exact hnot d rest rfl rfl
    have hrest := ih hinner
    rw [List.dropLast_cons_of_ne_nil hrest.ne_nil, unescape]
    · exact .plain hne hescape hrest
    · rintro d tail rfl
      exact absurd rfl hescape

/-- What stands between the quotes is read as what it stands for. -/
theorem Quotes.unescape_eq {quote : Char} {text inside : List Char}
    (h : Quotes quote text inside) : unescape text.dropLast = inside := by
  induction h with
  | close => rfl
  | @plain c text inside _ hescape h ih =>
    rw [List.dropLast_cons_of_ne_nil h.ne_nil, unescape, ih]
    rintro d tail rfl
    exact absurd rfl hescape
  | @escape c d text inside hescape h ih =>
    rw [List.dropLast_cons_of_ne_nil (List.cons_ne_nil _ _), List.dropLast_cons_of_ne_nil h.ne_nil,
      unescape, ih, escapes_iff.1 hescape]

/-! ## Numbers -/

/-- A minus sign, or nothing. -/
def sign (negative : Bool) : List Char := if negative then ['-'] else []

/-- The whole number that digits and a sign write. -/
def signed (negative : Bool) (whole : List Char) : Int :=
  if negative then -(Decimal.digitsValue whole : Int) else Decimal.digitsValue whole

/-- An integer of 64 bits with a sign. -/
def FitsInteger (n : Int) : Prop := -2 ^ 63 ≤ n ∧ n < 2 ^ 63

/-- What a number literal is worth. Without a point it is an integer, if it fits one. If
    not, or with a point, it is the double that it is rounded to. -/
inductive HasValue : List Char → Number → Prop
  | integer {negative : Bool} {whole : List Char} (hwhole : IsDigits whole)
      (hfits : FitsInteger (signed negative whole)) :
      HasValue (sign negative ++ whole) (.integer (signed negative whole))
  | wide {negative : Bool} {whole : List Char} {x : Binary64} (hwhole : IsDigits whole)
      (hfits : ¬FitsInteger (signed negative whole))
      (hx : (Decimal.mk negative (Decimal.digitsValue whole) 0).Rounds (.finite x)) :
      HasValue (sign negative ++ whole) (.double x)
  | fractional {negative : Bool} {whole fraction : List Char} {x : Binary64}
      (hwhole : IsDigits whole) (hfraction : IsDigits fraction)
      (hx : (Decimal.mk negative (Decimal.digitsValue (whole ++ fraction))
        (-fraction.length)).Rounds (.finite x)) :
      HasValue (sign negative ++ (whole ++ '.' :: fraction)) (.double x)

theorem fitsInteger_iff (negative : Bool) (whole : List Char) :
    FitsInteger (signed negative whole) ↔
      if negative then Decimal.digitsValue whole ≤ 2 ^ 63
      else Decimal.digitsValue whole < 2 ^ 63 := by
  unfold FitsInteger signed
  cases negative with
  | false =>
    simp only [Bool.false_eq_true, if_false]
    omega
  | true =>
    simp only [if_true]
    omega

instance (n : Int) : Decidable (FitsInteger n) := inferInstanceAs (Decidable (_ ∧ _))

/-- A double as a number of a token, if it is finite. -/
def finite? : Extended → Option Number
  | .finite x => some (.double x)
  | _ => none

theorem finite?_eq_some_iff {x : Extended} {n : Number} :
    finite? x = some n ↔ ∃ y, x = .finite y ∧ n = .double y := by
  cases x <;> simp [finite?, eq_comm]

/-- The value of a number behind its sign is up to its digits before and behind the
    point. -/
theorem unsignedValue_eq {negative : Bool} {text whole fraction rest : List Char}
    (hwhole : text.takeWhile Char.isDigit = whole)
    (hfraction : Decimal.readFraction (text.dropWhile Char.isDigit) = (fraction, rest)) :
    unsignedValue negative text =
      if fraction = [] ∧ FitsInteger (signed negative whole) then
        some (.integer (signed negative whole))
      else
        finite? (Decimal.mk negative (Decimal.digitsValue (whole ++ fraction))
          (-fraction.length)).nearest := by
  unfold unsignedValue
  rw [hwhole, hfraction]
  dsimp only
  have hrange := fitsInteger_iff negative whole
  by_cases hfits : fraction = [] ∧ FitsInteger (signed negative whole)
  · rw [if_pos hfits, if_pos ⟨hfits.1, hrange.1 hfits.2⟩]
    rfl
  · rw [if_neg hfits, if_neg fun hboth => hfits ⟨hboth.1, hrange.2 hboth.2⟩, Decimal.ofDigits,
      Int.zero_sub]
    generalize Decimal.nearest _ = value
    cases value <;> rfl

/-- A number behind its sign is an integer, or what its digits are rounded to. -/
theorem unsignedValue_cases {negative : Bool} {text whole fraction rest : List Char} {n : Number}
    (hwhole : text.takeWhile Char.isDigit = whole)
    (hfraction : Decimal.readFraction (text.dropWhile Char.isDigit) = (fraction, rest))
    (h : unsignedValue negative text = some n) :
    (fraction = [] ∧ FitsInteger (signed negative whole) ∧
        n = .integer (signed negative whole)) ∨
      (¬(fraction = [] ∧ FitsInteger (signed negative whole)) ∧ ∃ x, n = .double x ∧
        (Decimal.mk negative (Decimal.digitsValue (whole ++ fraction))
          (-fraction.length)).nearest = .finite x) := by
  rw [unsignedValue_eq hwhole hfraction] at h
  by_cases hfits : fraction = [] ∧ FitsInteger (signed negative whole)
  · rw [if_pos hfits] at h
    exact Or.inl ⟨hfits.1, hfits.2, (Option.some.inj h).symm⟩
  · rw [if_neg hfits] at h
    obtain ⟨x, hx, hn⟩ := finite?_eq_some_iff.1 h
    exact Or.inr ⟨hfits, x, hn, hx⟩

/-- The parts of a number without a point. -/
theorem parts_of_whole {whole : List Char} (h : IsDigits whole) :
    whole.takeWhile Char.isDigit = whole ∧
      Decimal.readFraction (whole.dropWhile Char.isDigit) = ([], []) := by
  have hdrop : whole.dropWhile Char.isDigit = [] := by
    simpa using @dropWhile_run Char.isDigit whole [] h.2 (by simp)
  refine ⟨by simpa using @takeWhile_run Char.isDigit whole [] h.2 (by simp), ?_⟩
  rw [hdrop]
  rfl

/-- The parts of a number with a point. -/
theorem parts_of_fractional {whole fraction : List Char} (hwhole : IsDigits whole)
    (hfraction : IsDigits fraction) :
    (whole ++ '.' :: fraction).takeWhile Char.isDigit = whole ∧
      Decimal.readFraction ((whole ++ '.' :: fraction).dropWhile Char.isDigit) =
        (fraction, []) := by
  have hpoint : ∀ c ∈ ('.' :: fraction).head?, c.isDigit = false := by simp
  have htake : fraction.takeWhile Char.isDigit = fraction := (parts_of_whole hfraction).1
  have hdrop : fraction.dropWhile Char.isDigit = [] := by
    simpa using @dropWhile_run Char.isDigit fraction [] hfraction.2 (by simp)
  refine ⟨takeWhile_run hwhole.2 hpoint, ?_⟩
  rw [dropWhile_run hwhole.2 hpoint, Decimal.readFraction, htake, hdrop]

/-- The value of a number is what its literal is worth. -/
theorem hasValue_of_unsignedValue {negative : Bool} {text : List Char} (h : IsUnsigned text)
    {n : Number} (hvalue : unsignedValue negative text = some n) :
    HasValue (sign negative ++ text) n := by
  obtain ⟨whole, hwhole, rfl | ⟨fraction, hfraction, rfl⟩⟩ := h
  · obtain ⟨htake, hnone⟩ := parts_of_whole hwhole
    rcases unsignedValue_cases htake hnone hvalue with ⟨-, hfits, rfl⟩ | ⟨hwide, x, rfl, hx⟩
    · exact .integer hwhole hfits
    · rw [List.append_nil] at hx
      exact .wide hwhole (fun hfits => hwide ⟨rfl, hfits⟩) (Decimal.nearest_eq_iff_rounds.1 hx)
  · obtain ⟨htake, hread⟩ := parts_of_fractional hwhole hfraction
    rcases unsignedValue_cases htake hread hvalue with ⟨hempty, -⟩ | ⟨-, x, rfl, hx⟩
    · exact absurd hempty hfraction.1
    · exact .fractional hwhole hfraction (Decimal.nearest_eq_iff_rounds.1 hx)

theorem IsDigits.isUnsigned {whole : List Char} (h : IsDigits whole) : IsUnsigned whole :=
  ⟨whole, h, Or.inl rfl⟩

/-- A number is an unsigned one behind its sign. -/
theorem isNumber_iff_sign {text : List Char} :
    IsNumber text ↔ ∃ negative digits, IsUnsigned digits ∧ text = sign negative ++ digits := by
  constructor
  · rintro (h | ⟨digits, h, rfl⟩)
    · exact ⟨false, text, h, rfl⟩
    · exact ⟨true, digits, h, rfl⟩
  · rintro ⟨negative, digits, h, rfl⟩
    cases negative with
    | false => exact Or.inl h
    | true => exact Or.inr ⟨digits, h, rfl⟩

/-- The value of a number is that of its digits with its sign. -/
theorem numberValue_sign (negative : Bool) {digits : List Char} (h : IsUnsigned digits) :
    numberValue (sign negative ++ digits) = unsignedValue negative digits := by
  cases negative with
  | true => rfl
  | false =>
    -- no digit is a minus sign
    obtain ⟨first, tail, rfl, hfirst⟩ := h.exists_eq_cons
    rw [sign, if_neg Bool.false_ne_true, List.nil_append, numberValue]
    rintro rest heq
    rw [(List.cons.inj heq).1] at hfirst
    cases hfirst

/-- A number has the value that its literal is worth, and no other one. -/
theorem hasValue_iff {text : List Char} {n : Number} :
    HasValue text n ↔ IsNumber text ∧ numberValue text = some n := by
  constructor
  · rintro (⟨hwhole, hfits⟩ | ⟨hwhole, hwide, hx⟩ | ⟨hwhole, hfraction, hx⟩)
    · obtain ⟨htake, hnone⟩ := parts_of_whole hwhole
      have hunsigned := IsDigits.isUnsigned hwhole
      refine ⟨isNumber_iff_sign.2 ⟨_, _, hunsigned, rfl⟩, ?_⟩
      rw [numberValue_sign _ hunsigned, unsignedValue_eq htake hnone, if_pos ⟨rfl, hfits⟩]
    · obtain ⟨htake, hnone⟩ := parts_of_whole hwhole
      have hunsigned := IsDigits.isUnsigned hwhole
      refine ⟨isNumber_iff_sign.2 ⟨_, _, hunsigned, rfl⟩, ?_⟩
      rw [numberValue_sign _ hunsigned, unsignedValue_eq htake hnone,
        if_neg fun hboth => hwide hboth.2, List.append_nil, finite?_eq_some_iff]
      exact ⟨_, Decimal.nearest_eq_iff_rounds.2 hx, rfl⟩
    · obtain ⟨htake, hread⟩ := parts_of_fractional hwhole hfraction
      have hunsigned : IsUnsigned (_ ++ '.' :: _) :=
        ⟨_, hwhole, Or.inr ⟨_, hfraction, rfl⟩⟩
      refine ⟨isNumber_iff_sign.2 ⟨_, _, hunsigned, rfl⟩, ?_⟩
      rw [numberValue_sign _ hunsigned, unsignedValue_eq htake hread,
        if_neg fun hboth => hfraction.1 hboth.1, finite?_eq_some_iff]
      exact ⟨_, Decimal.nearest_eq_iff_rounds.2 hx, rfl⟩
  · rintro ⟨h, hvalue⟩
    obtain ⟨negative, digits, hdigits, rfl⟩ := isNumber_iff_sign.1 h
    rw [numberValue_sign negative hdigits] at hvalue
    exact hasValue_of_unsignedValue hdigits hvalue

/-! ## Words and symbols -/

/-- A character that a word of a source can begin with. -/
def BeginsWord (c : Char) : Prop := isLetter c ∨ c = '_' ∨ c = '$'

/-- A word, where it is not the first one of its name. -/
def IsWord (word : List Char) : Prop := word ≠ [] ∧ ∀ c ∈ word, BeginsWord c ∨ isNumeric c

/-- Words joined by points, the first of which does not begin with a numeral. -/
def IsDottedWord (text : List Char) : Prop :=
  ∃ words, (∀ word ∈ words, IsWord word) ∧ text = ['.'].intercalate words ∧
    ∃ first tail, text = first :: tail ∧ BeginsWord first

theorem isNameStart_iff {c : Char} : isNameStart c ↔ BeginsWord c := by
  simp [isNameStart, BeginsWord, or_assoc]

theorem isNameChar_iff {c : Char} : isNameChar c ↔ BeginsWord c ∨ isNumeric c := by
  simp only [isNameChar, BeginsWord, Bool.or_eq_true, beq_iff_eq]
  tauto

/-- The rest of a word and more words behind points. -/
theorem isNameTail_iff {tail : List Char} :
    IsNameTail tail ↔ ∃ (rest : List Char) (words : List (List Char)),
      (∀ c ∈ rest, BeginsWord c ∨ isNumeric c) ∧ (∀ word ∈ words, IsWord word) ∧
        tail = rest ++ words.flatMap ('.' :: ·) := by
  constructor
  · intro h
    induction h with
    | nil => exact ⟨[], [], List.forall_mem_nil _, List.forall_mem_nil _, rfl⟩
    | @character c _ hc _ ih =>
      obtain ⟨rest, words, hrest, hwords, rfl⟩ := ih
      exact ⟨c :: rest, words, List.forall_mem_cons.2 ⟨isNameChar_iff.1 hc, hrest⟩, hwords, rfl⟩
    | @point c _ hc _ ih =>
      -- what was the rest of a word is one behind a point
      obtain ⟨rest, words, hrest, hwords, rfl⟩ := ih
      have hword : IsWord (c :: rest) :=
        ⟨List.cons_ne_nil c rest, List.forall_mem_cons.2 ⟨isNameChar_iff.1 hc, hrest⟩⟩
      exact ⟨[], (c :: rest) :: words, List.forall_mem_nil _,
        List.forall_mem_cons.2 ⟨hword, hwords⟩, by simp⟩
  · rintro ⟨rest, words, hrest, hwords, rfl⟩
    have happend : ∀ {rest behind : List Char}, (∀ c ∈ rest, BeginsWord c ∨ isNumeric c) →
        IsNameTail behind → IsNameTail (rest ++ behind) := by
      intro rest behind hrest hbehind
      induction rest with
      | nil => exact hbehind
      | cons c rest ih =>
        obtain ⟨hc, hrest⟩ := List.forall_mem_cons.1 hrest
        exact .character (isNameChar_iff.2 hc) (ih hrest)
    refine happend hrest ?_
    induction words with
    | nil => exact .nil
    | cons word words ih =>
      obtain ⟨⟨hne, hall⟩, hothers⟩ := List.forall_mem_cons.1 hwords
      obtain ⟨c, word, rfl⟩ := List.exists_cons_of_ne_nil hne
      obtain ⟨hc, hword⟩ := List.forall_mem_cons.1 hall
      exact .point (isNameChar_iff.2 hc) (happend hword (ih hothers))

/-- Joining words puts a point in front of each but the first one. -/
theorem intercalate_cons_eq (word : List Char) (words : List (List Char)) :
    ['.'].intercalate (word :: words) = word ++ words.flatMap ('.' :: ·) := by
  induction words generalizing word with
  | nil => simp [List.intercalate]
  | cons next words ih =>
    rw [List.flatMap_cons, List.intercalate_cons_cons, ih]
    simp

/-- What the scanner takes for a name is words joined by points. -/
theorem isName_iff_isDottedWord {text : List Char} : IsName text ↔ IsDottedWord text := by
  constructor
  · rintro ⟨first, tail, rfl, hfirst, htail⟩
    obtain ⟨rest, words, hrest, hwords, rfl⟩ := isNameTail_iff.1 htail
    have hbegins := isNameStart_iff.1 hfirst
    have hword : IsWord (first :: rest) :=
      ⟨List.cons_ne_nil _ _, List.forall_mem_cons.2 ⟨Or.inl hbegins, hrest⟩⟩
    exact ⟨(first :: rest) :: words, List.forall_mem_cons.2 ⟨hword, hwords⟩,
      (intercalate_cons_eq (first :: rest) words).symm, first, _, rfl, hbegins⟩
  · rintro ⟨words, hwords, htext, first, tail, rfl, hfirst⟩
    cases words with
    | nil => cases htext
    | cons word words =>
      obtain ⟨⟨hne, hall⟩, hothers⟩ := List.forall_mem_cons.1 hwords
      obtain ⟨c, rest, rfl⟩ := List.exists_cons_of_ne_nil hne
      rw [intercalate_cons_eq] at htext
      obtain ⟨rfl, rfl⟩ := List.cons.inj htext
      exact ⟨first, _, rfl, isNameStart_iff.2 hfirst,
        isNameTail_iff.2 ⟨rest, words, (List.forall_mem_cons.1 hall).2, hothers, rfl⟩⟩

/-- How a symbol is spelled. The other tokens are not. -/
def spelling? : TokenKind → Option String
  | .comparison .looseEqual => some "=="
  | .comparison .looseUnequal => some "!="
  | .comparison .strictEqual => some "==="
  | .comparison .strictUnequal => some "!=="
  | .comparison .greater => some ">"
  | .comparison .less => some "<"
  | .comparison .greaterOrEqual => some ">="
  | .comparison .lessOrEqual => some "<="
  | .connective .and => some "&&"
  | .connective .or => some "||"
  | .negation => some "!"
  | .dot => some "."
  | .comma => some ","
  | .opening => some "("
  | .closing => some ")"
  | .number _ | .string _ | .boolean _ | .null | .name _ => none

/-- The table of the scanner has each symbol with its spelling, and nothing else. -/
theorem mem_symbols_iff {s : String × TokenKind} :
    s ∈ TokenKind.symbols ↔ spelling? s.2 = some s.1 := by
  constructor
  · revert s
    decide
  · obtain ⟨text, kind⟩ := s
    intro h
    dsimp only at h
    unfold spelling? at h
    split at h <;> cases h <;> decide

/-! ## Meanings -/

/-- The words that are literals and not paths, if they stand alone. -/
def literals : List (String × TokenKind) :=
  [("true", .boolean true), ("false", .boolean false), ("null", .null)]

/-- A text of one of the classes. -/
inductive IsLexeme : List Char → Prop
  | number {text : List Char} (h : IsNumber text) : IsLexeme text
  | string {quote : Char} {text inside : List Char} (hquote : quote = '"' ∨ quote = '\'')
      (h : Quotes quote text inside) : IsLexeme (quote :: text)
  | name {text : List Char} (h : IsDottedWord text) : IsLexeme text
  | symbol {spelling : String} {kind : TokenKind} (h : spelling? kind = some spelling) :
      IsLexeme spelling.toList

/-- A lexeme and the token that it stands for. -/
inductive StandsFor : List Char → TokenKind → Prop
  | number {text : List Char} {n : Number} (h : HasValue text n) : StandsFor text (.number n)
  | string {quote : Char} {text inside : List Char} (hquote : quote = '"' ∨ quote = '\'')
      (h : Quotes quote text inside) : StandsFor (quote :: text) (.string (String.ofList inside))
  | literal {s : String × TokenKind} (h : s ∈ literals) : StandsFor s.1.toList s.2
  | path {text : List Char} (h : IsDottedWord text)
      (hpath : String.ofList text ∉ literals.map Prod.fst) :
      StandsFor text (.name (String.ofList text))
  | symbol {spelling : String} {kind : TokenKind} (h : spelling? kind = some spelling) :
      StandsFor spelling.toList kind

theorem nameKind_of_literal : ∀ s ∈ literals, nameKind s.1.toList = s.2 := by
  decide

theorem isName_of_literal : ∀ s ∈ literals, IsName s.1.toList := by
  intro s hs
  apply isName_of_nameText
  · revert s
    decide
  · revert s
    decide

/-- A name is one of the literals, or a path. -/
theorem standsFor_nameKind {text : List Char} (h : IsName text) :
    StandsFor text (nameKind text) := by
  by_cases hliteral : String.ofList text ∈ literals.map Prod.fst
  · obtain ⟨s, hs, heq⟩ := List.mem_map.1 hliteral
    obtain rfl : s.1.toList = text := by rw [heq, String.toList_ofList]
    rw [nameKind_of_literal s hs]
    exact .literal hs
  · have hkind : nameKind text = .name (String.ofList text) :=
      nameKind_eq_name_iff.2 ⟨rfl, by simpa [literals] using hliteral⟩
    rw [hkind]
    exact .path (isName_iff_isDottedWord.1 h) hliteral

/-- What a lexeme stands for is what the scanner takes it for. -/
theorem standsFor_iff_denotes {text : List Char} {kind : TokenKind} :
    StandsFor text kind ↔ Denotes text kind := by
  constructor
  · intro h
    cases h with
    | number h =>
      obtain ⟨hnumber, hvalue⟩ := hasValue_iff.1 h
      exact .number hnumber hvalue
    | string hquote h =>
      have hbody := h.stringBody (not_blank_of_quote hquote).2 []
      rw [List.append_nil] at hbody
      rw [← h.unescape_eq]
      exact .string hquote hbody
    | @literal s hs =>
      rw [← nameKind_of_literal s hs]
      exact .name (isName_of_literal s hs)
    | path h hpath =>
      have hkind := (@nameKind_eq_name_iff text _).2 ⟨rfl, by simpa [literals] using hpath⟩
      rw [← hkind]
      exact .name (isName_iff_isDottedWord.2 h)
    | @symbol spelling kind h => exact @Denotes.symbol (spelling, kind) (mem_symbols_iff.2 h)
  · intro h
    cases h with
    | number h hvalue => exact .number (hasValue_iff.2 ⟨h, hvalue⟩)
    | string hquote h => exact .string hquote (quotes_of_stringBody h)
    | name h => exact standsFor_nameKind h
    | symbol h => exact .symbol (mem_symbols_iff.1 h)

/-- A lexeme stands for one token. -/
theorem StandsFor.unique {text : List Char} {kind kind' : TokenKind} (h : StandsFor text kind)
    (h' : StandsFor text kind') : kind = kind' :=
  (standsFor_iff_denotes.1 h).unique (standsFor_iff_denotes.1 h')

theorem Denotes.isLexeme {text : List Char} {kind : TokenKind} (h : Denotes text kind) :
    IsLexeme text := by
  cases h with
  | number h => exact .number h
  | string hquote h => exact .string hquote (quotes_of_stringBody h)
  | name h => exact .name (isName_iff_isDottedWord.1 h)
  | symbol h => exact .symbol (mem_symbols_iff.1 h)

/-! ## First characters -/

/-- A lexeme is not empty and does not begin with a blank. -/
theorem IsLexeme.exists_eq_cons {lexeme : List Char} (h : IsLexeme lexeme) :
    ∃ first tail, lexeme = first :: tail ∧ isBlank first = false := by
  cases h with
  | number h =>
    obtain ⟨first, tail, rfl, hdigit | rfl⟩ := h.exists_eq_cons
    · exact ⟨first, tail, rfl, (not_quote_of_isDigit hdigit).2.2⟩
    · exact ⟨'-', tail, rfl, by decide⟩
  | @string quote text inside hquote =>
    exact ⟨quote, text, rfl, (not_blank_of_quote hquote).1⟩
  | name h =>
    obtain ⟨first, tail, rfl, hfirst, -⟩ := isName_iff_isDottedWord.2 h
    refine ⟨first, tail, rfl, Bool.eq_false_iff.2 fun hblank => ?_⟩
    have hclass : first.isDigit ∨ first = '-' ∨ first = '"' ∨ first = '\'' ∨ isBlank first := by
      simp [hblank]
    simp [not_isNameStart hclass] at hfirst
  | @symbol spelling kind h =>
    obtain ⟨first, tail, htext, -, -, -, -, -, hblank⟩ :=
      symbols_first (spelling, kind) (mem_symbols_iff.2 h)
    exact ⟨first, tail, htext, hblank⟩

/-- Only numbers begin with a digit or a minus sign. -/
theorem IsLexeme.isNumber {first : Char} {tail : List Char} (h : IsLexeme (first :: tail))
    (hfirst : first.isDigit ∨ first = '-') : IsNumber (first :: tail) := by
  generalize htext : first :: tail = text at h
  -- the texts of the other classes begin with other characters
  cases h with
  | number h => exact h
  | @string quote _ _ hquote =>
    obtain ⟨rfl, -⟩ := List.cons.inj htext
    rcases hquote with rfl | rfl <;> exact absurd hfirst (by decide)
  | name h =>
    obtain ⟨first', tail', rfl, hstart, -⟩ := isName_iff_isDottedWord.2 h
    obtain ⟨rfl, -⟩ := List.cons.inj htext
    have hclass : first.isDigit ∨ first = '-' ∨ first = '"' ∨ first = '\'' ∨ isBlank first :=
      hfirst.imp_right Or.inl
    simp [not_isNameStart hclass] at hstart
  | @symbol spelling kind h =>
    obtain ⟨first', tail', hs, -, -, hminus, hdigit, -⟩ :=
      symbols_first (spelling, kind) (mem_symbols_iff.2 h)
    rw [hs] at htext
    obtain ⟨rfl, -⟩ := List.cons.inj htext
    simp [hminus, hdigit] at hfirst

/-! ## The longest of each class

What the scanner of a class takes begins with every text of the class at its place. -/

/-- A run of some characters is a front part of the longest one. -/
theorem prefix_takeWhile {p : Char → Bool} {run text : List Char} (hrun : ∀ c ∈ run, p c)
    (h : run <+: text) : run <+: text.takeWhile p := by
  obtain ⟨rest, rfl⟩ := h
  rw [List.takeWhile_append_of_pos hrun]
  exact List.prefix_append _ _

theorem takeWhile_prefix_unsignedText (text : List Char) :
    text.takeWhile Char.isDigit <+: unsignedText text := by
  unfold unsignedText
  split
  · rename_i hnone
    exact hnone ▸ List.prefix_rfl
  · rename_i whole hwhole
    split
    · split
      · exact List.prefix_rfl
      · exact List.prefix_append _ _
    · exact List.prefix_rfl

theorem prefix_unsignedText {other text : List Char} (hother : IsUnsigned other)
    (h : other <+: text) : other <+: unsignedText text := by
  obtain ⟨whole, hwhole, rfl | ⟨fraction, hfraction, rfl⟩⟩ := hother
  · exact (prefix_takeWhile hwhole.2 h).trans (takeWhile_prefix_unsignedText text)
  · obtain ⟨rest, rfl⟩ := h
    have hpoint : ∀ c ∈ ('.' :: (fraction ++ rest)).head?, c.isDigit = false := by simp
    have hlonger : fraction <+: (fraction ++ rest).takeWhile Char.isDigit :=
      prefix_takeWhile hfraction.2 (List.prefix_append _ _)
    rw [List.append_assoc, List.cons_append]
    unfold unsignedText
    rw [takeWhile_run hwhole.2 hpoint, dropWhile_run hwhole.2 hpoint]
    split
    · exact absurd rfl hwhole.1
    · split
      · rename_i others heq
        obtain rfl : fraction ++ rest = others := (List.cons.inj heq).2
        split
        · -- there are digits behind the point, so that it belongs to the number
          rename_i hnone
          rw [hnone, List.prefix_nil] at hlonger
          exact absurd hlonger hfraction.1
        · exact (List.prefix_append_right_inj _).2 (List.cons_prefix_cons.2 ⟨rfl, hlonger⟩)
      · rename_i hnot
        exact absurd rfl (hnot _)

theorem prefix_numberText {other text : List Char} (hother : IsNumber other)
    (h : other <+: text) : other <+: numberText text := by
  rcases hother with hother | ⟨digits, hdigits, rfl⟩
  · obtain ⟨first, tail, rfl, hfirst⟩ := hother.exists_eq_cons
    have hminus : ∀ c ∈ text.head?, c ≠ '-' := by
      obtain ⟨rest, rfl⟩ := h
      intro c hc
      obtain rfl : first = c := by simpa using hc
      rintro rfl
      cases hfirst
    rw [numberText_eq_unsignedText hminus]
    exact prefix_unsignedText hother h
  · obtain ⟨rest, rfl⟩ := h
    have hlonger := prefix_unsignedText hdigits (List.prefix_append digits rest)
    obtain ⟨first, tail, rfl, -⟩ := hdigits.exists_eq_cons
    rw [List.cons_append, numberText]
    split
    · rename_i hnone
      rw [hnone, List.prefix_nil] at hlonger
      cases hlonger
    · exact List.cons_prefix_cons.2 ⟨rfl, hlonger⟩

theorem prefix_nameTail {tail : List Char} (h : IsNameTail tail) (rest : List Char) :
    tail <+: nameTail (tail ++ rest) := by
  induction h with
  | nil => exact List.nil_prefix
  | character hc _ ih =>
    rw [List.cons_append, nameTail, if_pos hc]
    exact List.cons_prefix_cons.2 ⟨rfl, ih⟩
  | @point c tail hc _ ih =>
    have hpoint : ¬isNameChar '.' := by decide
    rw [List.cons_append, List.cons_append, nameTail, if_neg hpoint,
      if_pos ⟨rfl, by simpa using hc⟩, nameTail, if_pos hc]
    exact List.cons_prefix_cons.2 ⟨rfl, List.cons_prefix_cons.2 ⟨rfl, ih⟩⟩

theorem prefix_nameText {other text : List Char} (hother : IsName other) (h : other <+: text) :
    other <+: nameText text := by
  obtain ⟨rest, rfl⟩ := h
  obtain ⟨first, tail, rfl, hfirst, htail⟩ := hother
  rw [List.cons_append, nameText, if_pos hfirst]
  exact List.cons_prefix_cons.2 ⟨rfl, prefix_nameTail htail rest⟩

/-- No symbol begins with one that stands before it in the table. -/
theorem symbols_pairwise :
    TokenKind.symbols.Pairwise fun s t => ¬s.1.toList <+: t.1.toList := by
  decide

/-- The first symbol of the table that fits is the longest one. -/
theorem length_le_symbol? {s : String × TokenKind} (hs : s ∈ TokenKind.symbols)
    {text : List Char} (h : s.1.toList <+: text) :
    ∃ lexeme, symbol? text = some lexeme ∧ s.1.toList.length ≤ lexeme.text.length := by
  have hfits : s.1.toList.isPrefixOf text := List.isPrefixOf_iff_prefix.2 h
  obtain ⟨found, hfound⟩ : ∃ found,
      TokenKind.symbols.find? (fun t => t.1.toList.isPrefixOf text) = some found :=
    Option.isSome_iff_exists.1 (List.find?_isSome.2 ⟨s, hs, hfits⟩)
  refine ⟨⟨found.1.toList, found.2⟩, by rw [symbol?, hfound, Option.map_some], ?_⟩
  obtain ⟨hfoundFits, before, after, htable, hbefore⟩ := List.find?_eq_some_iff_append.1 hfound
  have hpairs := symbols_pairwise
  rw [htable] at hs hpairs
  rcases List.mem_append.1 hs with hearlier | hlater
  · have hnot := hbefore s hearlier
    simp [hfits] at hnot
  · rcases List.mem_cons.1 hlater with rfl | hlater
    · exact Nat.le_refl _
    · -- one of the two begins with the other, and the later one not with the earlier
      have hnot := List.rel_of_pairwise_cons (List.pairwise_append.1 hpairs).2.1 hlater
      rcases List.prefix_or_prefix_of_prefix (List.isPrefixOf_iff_prefix.1 hfoundFits) h with
        hlonger | hshorter
      · exact absurd hlonger hnot
      · exact hshorter.length_le

/-! ## The longest of all -/

section Next

variable {position : Nat} {first : Char} {rest : List Char} {lexeme : Lexeme}

theorem text_of_next_number (h : next position first rest = .ok lexeme)
    (hquote : ¬(first = '"' ∨ first = '\'')) (hnumber : numberText (first :: rest) ≠ []) :
    lexeme.text = numberText (first :: rest) := by
  unfold next at h
  rw [if_neg hquote] at h
  split at h
  · rename_i c digits hdigits
    split at h
    · cases h
      exact hdigits.symm
    · cases h
  · rename_i hnone
    exact absurd hnone hnumber

theorem text_of_next_name (h : next position first rest = .ok lexeme)
    (hquote : ¬(first = '"' ∨ first = '\'')) (hnumber : numberText (first :: rest) = [])
    (hname : nameText (first :: rest) ≠ []) : lexeme.text = nameText (first :: rest) := by
  unfold next at h
  rw [if_neg hquote, hnumber] at h
  dsimp only at h
  split at h
  · rename_i c name hc
    cases h
    exact hc.symm
  · rename_i hnone
    exact absurd hnone hname

theorem symbol?_of_next (h : next position first rest = .ok lexeme)
    (hquote : ¬(first = '"' ∨ first = '\'')) (hnumber : numberText (first :: rest) = [])
    (hname : nameText (first :: rest) = []) : symbol? (first :: rest) = some lexeme := by
  unfold next at h
  rw [if_neg hquote, hnumber, hname] at h
  dsimp only at h
  split at h
  · rename_i found hfound
    cases h
    exact hfound
  · cases h

/-- No text of any class at the front of a text is longer than the lexeme that is taken
    there. -/
theorem length_le_of_next (h : next position first rest = .ok lexeme) {other : List Char}
    (hother : IsLexeme other) (hbegins : other <+: first :: rest) :
    other.length ≤ lexeme.text.length := by
  -- the first character settles the class, and the scanner of the class takes the longest
  cases hother with
  | number hnumber =>
    have hlonger := prefix_numberText hnumber hbegins
    obtain ⟨c, tail, rfl, hc⟩ := hnumber.exists_eq_cons
    obtain ⟨rfl, -⟩ := List.cons_prefix_cons.1 hbegins
    have hquote : ¬(c = '"' ∨ c = '\'') := by
      rcases hc with hdigit | rfl
      · have hother := not_quote_of_isDigit hdigit
        exact not_or.2 ⟨hother.1, hother.2.1⟩
      · decide
    have hne : numberText (c :: rest) ≠ [] := by
      intro hnone
      rw [hnone, List.prefix_nil] at hlonger
      cases hlonger
    rw [text_of_next_number h hquote hne]
    exact hlonger.length_le
  | @string quote text inside hquote hquotes =>
    obtain ⟨rfl, behind, rfl⟩ := List.cons_prefix_cons.1 hbegins
    have hescape := (not_blank_of_quote hquote).2
    rw [next, if_pos hquote, hquotes.stringBody hescape] at h
    cases h
    exact Nat.le_refl _
  | name hwords =>
    have hname := isName_iff_isDottedWord.2 hwords
    have hlonger := prefix_nameText hname hbegins
    obtain ⟨c, tail, rfl, hfirst, htail⟩ := hname
    obtain ⟨rfl, -⟩ := List.cons_prefix_cons.1 hbegins
    have hclass : ¬(c.isDigit ∨ c = '-' ∨ c = '"' ∨ c = '\'' ∨ isBlank c) :=
      fun hclass => by simp [not_isNameStart hclass] at hfirst
    simp only [not_or, Bool.not_eq_true] at hclass
    obtain ⟨hdigit, hminus, hdouble, hsingle, -⟩ := hclass
    have hne : nameText (c :: rest) ≠ [] := by
      intro hnone
      rw [hnone, List.prefix_nil] at hlonger
      cases hlonger
    rw [text_of_next_name h (not_or.2 ⟨hdouble, hsingle⟩) (numberText_eq_nil hdigit hminus rest)
      hne]
    exact hlonger.length_le
  | @symbol spelling kind hspelling =>
    have hs : (spelling, kind) ∈ TokenKind.symbols := mem_symbols_iff.2 hspelling
    obtain ⟨c, tail, htext, hdouble, hsingle, hminus, hdigit, hname, -⟩ := symbols_first _ hs
    obtain ⟨found, hfound, hle⟩ := length_le_symbol? hs hbegins
    rw [htext] at hbegins
    obtain ⟨rfl, -⟩ := List.cons_prefix_cons.1 hbegins
    have hnone : nameText (c :: rest) = [] := by rw [nameText, if_neg (by simp [hname])]
    have hsymbol := symbol?_of_next h (not_or.2 ⟨hdouble, hsingle⟩)
      (numberText_eq_nil hdigit hminus rest) hnone
    obtain rfl : found = lexeme := Option.some.inj (hfound.symm.trans hsymbol)
    exact hle

end Next

end Lexeme

end FormRules
