/-
  FormRules.Proofs.Denotation

  What lexemes denote. `Denotes` puts the classes together, which begin with different
  characters. A lexeme taken from the front of a text is in the relation
  (`denotes_of_next`), and one in the relation is taken from the front of every text that
  it cannot go on with (`next_of_denotes`). Both together make lexemes independent of the
  text around them.

  Every string has a spelling (`denotes_quoted`), a symbol has one, and a path is spelled
  as it is.
-/

import FormRules.Proofs.Lexical
import FormRules.Text.Blank

namespace FormRules

namespace Lexeme

/-! ## First characters

The classes begin with different characters, none of which is a blank. -/

/-- No letter stands in front of `A`. -/
theorem isLetter_of_lt {c : Char} (h : c.toNat < 0x41) : isLetter c = false := by
  have hfirst : inRanges letterRanges c.toNat = decide (0x41 ≤ c.toNat) := by
    rw [letterRanges, inRanges, if_pos (by omega)]
  rw [isLetter, hfirst]
  exact decide_eq_false (Nat.not_le.2 h)

/-- The blanks behind the digits and letters of ASCII. -/
def laterBlanks : List Nat := [
  0x85, 0xa0, 0x1680, 0x2000, 0x2001, 0x2002, 0x2003, 0x2004, 0x2005, 0x2006, 0x2007, 0x2008,
  0x2009, 0x200a, 0x2028, 0x2029, 0x202f, 0x205f, 0x3000]

theorem toNat_of_isBlank {c : Char} (h : isBlank c) : c.toNat < 0x30 ∨ c.toNat ∈ laterBlanks := by
  simp only [isBlank, blankRanges, inRanges] at h
  simp only [laterBlanks, List.mem_cons, List.not_mem_nil, or_false]
  grind

/-- Later blanks are in gaps of the table of letters. -/
theorem isLetter_of_isBlank {c : Char} (h : isBlank c) : isLetter c = false := by
  have hgaps : ∀ n ∈ laterBlanks, inRanges letterRanges n = false := by decide +kernel
  rcases toNat_of_isBlank h with hlow | hlater
  · exact isLetter_of_lt (by omega)
  · exact hgaps _ hlater

/-- Later blanks are in gaps of the table of numeric characters, too. -/
theorem isNumeric_of_isBlank {c : Char} (h : isBlank c) : isNumeric c = false := by
  have hgaps : ∀ n ∈ laterBlanks, inRanges numericRanges n = false := by decide +kernel
  rcases toNat_of_isBlank h with hlow | hlater
  · have hfirst : inRanges numericRanges c.toNat = decide (0x30 ≤ c.toNat) := by
      rw [numericRanges, inRanges, if_pos (by omega)]
    rw [isNumeric, hfirst]
    exact decide_eq_false (Nat.not_le.2 hlow)
  · exact hgaps _ hlater

theorem isDigit_bounds {c : Char} (h : c.isDigit) : 48 ≤ c.toNat ∧ c.toNat ≤ 57 := by
  simpa [Char.isDigit, UInt32.le_iff_toNat_le] using h

/-- No digit is a quote or a blank. -/
theorem not_quote_of_isDigit {c : Char} (h : c.isDigit) :
    c ≠ '"' ∧ c ≠ '\'' ∧ isBlank c = false := by
  have hbounds := isDigit_bounds h
  refine ⟨?_, ?_, ?_⟩
  · rintro rfl
    simp at hbounds
  · rintro rfl
    simp at hbounds
  · simp only [isBlank, blankRanges, inRanges]
    grind

/-- No quote is a blank or a backslash. -/
theorem not_blank_of_quote {quote : Char} (h : quote = '"' ∨ quote = '\'') :
    isBlank quote = false ∧ quote ≠ '\\' := by
  rcases h with rfl | rfl <;> decide

/-- A name does not begin with a character that begins another class, or a blank. -/
theorem not_isNameStart {c : Char}
    (h : c.isDigit ∨ c = '-' ∨ c = '"' ∨ c = '\'' ∨ isBlank c) : isNameStart c = false := by
  rcases h with h | rfl | rfl | rfl | h
  · have hbounds := isDigit_bounds h
    have hscore : c ≠ '_' := by rintro rfl; simp at hbounds
    have hdollar : c ≠ '$' := by rintro rfl; simp at hbounds
    simp [isNameStart, isLetter_of_lt (show c.toNat < 0x41 by omega), hscore, hdollar]
  · decide
  · decide
  · decide
  · have hscore : c ≠ '_' := by rintro rfl; exact absurd h (by decide)
    have hdollar : c ≠ '$' := by rintro rfl; exact absurd h (by decide)
    simp [isNameStart, isLetter_of_isBlank h, hscore, hdollar]

/-- A number begins with a digit or a minus sign. -/
theorem IsNumber.exists_eq_cons {text : List Char} (h : IsNumber text) :
    ∃ first tail, text = first :: tail ∧ (first.isDigit ∨ first = '-') := by
  rcases h with h | ⟨digits, -, rfl⟩
  · obtain ⟨first, tail, htext, hdigit⟩ := h.exists_eq_cons
    exact ⟨first, tail, htext, Or.inl hdigit⟩
  · exact ⟨'-', digits, rfl, Or.inr rfl⟩

/-- Nothing but a digit or a minus sign begins a number. -/
theorem numberText_eq_nil {first : Char} (hdigit : first.isDigit = false) (hminus : first ≠ '-')
    (rest : List Char) : numberText (first :: rest) = [] := by
  rw [numberText_eq_unsignedText (by simpa using hminus)]
  simp [unsignedText, hdigit]

/-! ## What lexemes denote -/

/-- A lexeme and the token that it stands for. -/
inductive Denotes : List Char → TokenKind → Prop
  | number {text : List Char} {n : Number} (h : IsNumber text)
      (hvalue : numberValue text = some n) :
      Denotes text (.number n)
  | string {quote : Char} {body : List Char} (hquote : quote = '"' ∨ quote = '\'')
      (h : stringBody quote body = some body) :
      Denotes (quote :: body) (.string (String.ofList (unescape body.dropLast)))
  | name {text : List Char} (h : IsName text) : Denotes text (nameKind text)
  | symbol {s : String × TokenKind} (h : s ∈ TokenKind.symbols) : Denotes s.1.toList s.2

/-- Whether a lexeme cannot go on with a text. A string is over at its quote. -/
def EndsBefore : TokenKind → List Char → Prop
  | .number _, rest => EndsNumber rest
  | .string _, _ => True
  | .boolean _, rest | .null, rest | .name _, rest => EndsName rest
  | _, rest => EndsSymbol rest

theorem endsBefore_nameKind {text rest : List Char} :
    EndsBefore (nameKind text) rest ↔ EndsName rest := by
  unfold nameKind
  split <;> exact Iff.rfl

theorem endsBefore_symbol {s : String × TokenKind} (h : s ∈ TokenKind.symbols) (rest : List Char) :
    EndsBefore s.2 rest ↔ EndsSymbol rest := by
  simp only [TokenKind.symbols, List.mem_cons, List.not_mem_nil, or_false] at h
  rcases h with rfl | rfl | rfl | rfl | rfl | rfl | rfl | rfl | rfl | rfl | rfl | rfl | rfl |
    rfl | rfl <;>
    exact Iff.rfl

/-- A symbol begins with a character that begins no other class. -/
theorem symbols_first : ∀ s ∈ TokenKind.symbols, ∃ first tail, s.1.toList = first :: tail ∧
    first ≠ '"' ∧ first ≠ '\'' ∧ first ≠ '-' ∧ first.isDigit = false ∧
    isNameStart first = false ∧ isBlank first = false := by
  intro s h
  -- each symbol on its own
  simp only [TokenKind.symbols, List.mem_cons, List.not_mem_nil, or_false] at h
  rcases h with rfl | rfl | rfl | rfl | rfl | rfl | rfl | rfl | rfl | rfl | rfl | rfl | rfl |
    rfl | rfl <;>
    exact ⟨_, _, rfl, by decide⟩

/-- A text that no lexeme can go on with. -/
def Closes (text : List Char) : Prop :=
  ∀ c ∈ text.head?, isNameChar c = false ∧ c ≠ '.' ∧ c ≠ '='

/-- Every digit may stand in a name. -/
theorem isNameChar_of_isDigit {c : Char} (h : c.isDigit) : isNameChar c := by
  obtain ⟨hlow, hhigh⟩ := isDigit_bounds h
  have hnumeric : isNumeric c := inRanges_of_first _ hlow hhigh
  simp [isNameChar, hnumeric]

theorem Closes.endsBefore {rest : List Char} (h : Closes rest) (kind : TokenKind) :
    EndsBefore kind rest := by
  have hname : EndsName rest := fun c hc => ⟨(h c hc).1, (h c hc).2.1⟩
  have hsymbol : EndsSymbol rest := fun c hc => (h c hc).2.2
  have hnumber : EndsNumber rest := by
    intro c hc
    refine ⟨Bool.eq_false_iff.2 fun hdigit => ?_, (h c hc).2.1⟩
    have hchar := isNameChar_of_isDigit hdigit
    simp [(h c hc).1] at hchar
  cases kind <;> first | exact hname | exact hsymbol | exact hnumber | trivial

theorem closes_cons {c : Char} (h : c ∈ [' ', ',', '(', ')']) (rest : List Char) :
    Closes (c :: rest) := by
  intro d hd
  obtain rfl : c = d := by simpa using hd
  simp only [List.mem_cons, List.not_mem_nil, or_false] at h
  rcases h with rfl | rfl | rfl | rfl <;> decide

/-- No lexeme goes on with a blank. -/
theorem closes_of_isBlank {c : Char} (h : isBlank c) (rest : List Char) : Closes (c :: rest) := by
  intro d hd
  obtain rfl : c = d := by simpa using hd
  have hne : ∀ other ∈ ['_', '$', '.', '='], c ≠ other := by
    rintro other hother rfl
    simp only [List.mem_cons, List.not_mem_nil, or_false] at hother
    rcases hother with rfl | rfl | rfl | rfl <;> exact absurd h (by decide)
  refine ⟨?_, hne '.' (by decide), hne '=' (by decide)⟩
  simp [isNameChar, isLetter_of_isBlank h, isNumeric_of_isBlank h, hne '_', hne '$']

/-- A lexeme is taken from the front of every text that it cannot go on with. -/
theorem next_of_denotes {text rest : List Char} {kind : TokenKind} (h : Denotes text kind)
    (hrest : EndsBefore kind rest) :
    ∃ first tail, text = first :: tail ∧ isBlank first = false ∧
      ∀ position, next position first (tail ++ rest) = .ok ⟨text, kind⟩ := by
  cases h with
  | @number text n h hvalue =>
    have hnumber := numberText_append h hrest
    obtain ⟨first, tail, rfl, hfirst⟩ := h.exists_eq_cons
    obtain ⟨hdouble, hsingle, hblank⟩ :
        first ≠ '"' ∧ first ≠ '\'' ∧ isBlank first = false := by
      rcases hfirst with hdigit | rfl
      · exact not_quote_of_isDigit hdigit
      · decide
    refine ⟨first, tail, rfl, hblank, fun position => ?_⟩
    rw [List.cons_append] at hnumber
    rw [next, if_neg (by simp [hdouble, hsingle]), hnumber]
    simp only [hvalue]
  | @string quote body hquote h =>
    obtain ⟨hblank, hescape⟩ := not_blank_of_quote hquote
    refine ⟨quote, body, rfl, hblank, fun position => ?_⟩
    rw [next, if_pos hquote, stringBody_append hescape h rest]
  | @name text h =>
    have hname := nameText_append h (endsBefore_nameKind.1 hrest)
    obtain ⟨first, tail, rfl, hfirst, -⟩ := h
    -- the classes before names are ruled out by the first character
    have hother : ¬(first.isDigit ∨ first = '-' ∨ first = '"' ∨ first = '\'' ∨ isBlank first) :=
      fun hclass => by simp [not_isNameStart hclass] at hfirst
    simp only [not_or, Bool.not_eq_true] at hother
    obtain ⟨hdigit, hminus, hdouble, hsingle, hblank⟩ := hother
    refine ⟨first, tail, rfl, hblank, fun position => ?_⟩
    rw [List.cons_append] at hname
    rw [next, if_neg (by simp [hdouble, hsingle]), numberText_eq_nil hdigit hminus, hname]
  | @symbol s h =>
    have hsymbol := symbol?_append h ((endsBefore_symbol h rest).1 hrest)
    obtain ⟨first, tail, htext, hdouble, hsingle, hminus, hdigit, hname, hblank⟩ :=
      symbols_first s h
    rw [htext, List.cons_append] at hsymbol
    refine ⟨first, tail, htext, hblank, fun position => ?_⟩
    rw [next, if_neg (by simp [hdouble, hsingle]), numberText_eq_nil hdigit hminus, hsymbol,
      nameText, if_neg (by simp [hname]), htext]

/-- A lexeme denotes one kind of token. -/
theorem Denotes.unique {text : List Char} {kind kind' : TokenKind} (h : Denotes text kind)
    (h' : Denotes text kind') : kind = kind' := by
  have hcloses : Closes [] := nofun
  obtain ⟨first, tail, rfl, -, hnext⟩ := next_of_denotes h (hcloses.endsBefore kind)
  obtain ⟨first', tail', hcons, -, hnext'⟩ := next_of_denotes h' (hcloses.endsBefore kind')
  obtain ⟨rfl, rfl⟩ := List.cons.inj hcons
  have hsame := (hnext 0).symm.trans (hnext' 0)
  exact congrArg Lexeme.kind (Except.ok.inj hsame)

/-- What is taken from the front of a text is a lexeme. -/
theorem denotes_of_next {position : Nat} {first : Char} {rest : List Char} {lexeme : Lexeme}
    (h : next position first rest = .ok lexeme) : Denotes lexeme.text lexeme.kind := by
  unfold next at h
  split at h
  · rename_i hquote
    split at h
    · rename_i body hbody
      cases h
      have hescape := (not_blank_of_quote hquote).2
      exact .string hquote (by simpa using stringBody_append hescape hbody [])
    · cases h
  · split at h
    · rename_i c digits hdigits
      have hnumber : IsNumber (numberText (first :: rest)) :=
        isNumber_numberText (by simp [hdigits])
      split at h
      · rename_i n hvalue
        cases h
        exact .number (hdigits ▸ hnumber) hvalue
      · cases h
    · split at h
      · rename_i c name hname
        cases h
        have hisName : IsName (nameText (first :: rest)) := isName_nameText (by simp [hname])
        exact .name (hname ▸ hisName)
      · split at h
        · rename_i found hfound
          cases h
          obtain ⟨s, hs, rfl⟩ := Option.map_eq_some_iff.1 hfound
          exact .symbol (List.mem_of_find?_eq_some hs)
        · cases h

/-! ## Spellings -/

/-- A name that is none of the three literals. -/
def IsPath (path : String) : Prop := IsName path.toList ∧ path ∉ ["true", "false", "null"]

theorem nameKind_eq_name_iff {text : List Char} {path : String} :
    nameKind text = .name path ↔
      String.ofList text = path ∧ path ∉ ["true", "false", "null"] := by
  unfold nameKind
  split
  · rename_i htext
    rw [htext]
    exact ⟨nofun, by rintro ⟨rfl, hpath⟩; simp at hpath⟩
  · rename_i htext
    rw [htext]
    exact ⟨nofun, by rintro ⟨rfl, hpath⟩; simp at hpath⟩
  · rename_i htext
    rw [htext]
    exact ⟨nofun, by rintro ⟨rfl, hpath⟩; simp at hpath⟩
  · rename_i htrue hfalse hnull
    constructor
    · intro heq
      obtain rfl := TokenKind.name.inj heq
      exact ⟨rfl, by simpa using ⟨htrue, hfalse, hnull⟩⟩
    · rintro ⟨rfl, -⟩
      rfl

/-- A token that is not a symbol: a literal or a name. -/
def isWord : TokenKind → Bool
  | .number _ | .string _ | .boolean _ | .null | .name _ => true
  | _ => false

theorem isWord_nameKind (text : List Char) : isWord (nameKind text) = true := by
  unfold nameKind
  split <;> rfl

theorem not_isWord_of_symbol : ∀ s ∈ TokenKind.symbols, isWord s.2 = false := by
  decide

/-- A number is spelled as a number with its value. -/
theorem denotes_number_iff {text : List Char} {n : Number} :
    Denotes text (.number n) ↔ IsNumber text ∧ numberValue text = some n := by
  constructor
  · intro h
    generalize hkind : TokenKind.number n = kind at h
    cases h with
    | number h hvalue =>
      cases hkind
      exact ⟨h, hvalue⟩
    | string => cases hkind
    | name =>
      unfold nameKind at hkind
      split at hkind <;> cases hkind
    | symbol hs =>
      have hword := not_isWord_of_symbol _ hs
      rw [← hkind] at hword
      cases hword
  · rintro ⟨h, hvalue⟩
    exact .number h hvalue

/-- A path is spelled as it is. -/
theorem denotes_name_iff {text : List Char} {path : String} :
    Denotes text (.name path) ↔ text = path.toList ∧ IsPath path := by
  constructor
  · intro h
    generalize hkind : TokenKind.name path = kind at h
    cases h with
    | number | string => cases hkind
    | name h =>
      obtain ⟨rfl, hpath⟩ := nameKind_eq_name_iff.1 hkind.symm
      rw [IsPath, String.toList_ofList]
      exact ⟨rfl, h, hpath⟩
    | symbol hs =>
      have hword := not_isWord_of_symbol _ hs
      rw [← hkind] at hword
      cases hword
  · rintro ⟨rfl, h, hpath⟩
    rw [← nameKind_eq_name_iff.2 ⟨String.ofList_toList, hpath⟩]
    exact .name h

theorem symbols_unique : ∀ s ∈ TokenKind.symbols, ∀ t ∈ TokenKind.symbols,
    s.2 = t.2 → s.1 = t.1 := by
  decide

/-- A symbol has one spelling. -/
theorem Denotes.eq_of_symbol {text : List Char} {s : String × TokenKind}
    (hs : s ∈ TokenKind.symbols) (h : Denotes text s.2) : text = s.1.toList := by
  have hword := not_isWord_of_symbol s hs
  generalize hkind : s.2 = kind at h hword
  cases h with
  | number | string => cases hword
  | name => simp [isWord_nameKind] at hword
  | symbol ht => rw [symbols_unique s hs _ ht hkind]

/-! ## Quoting -/

/-- A text with a backslash in front of each backslash and each quote of one kind. -/
def escape (quote : Char) (text : List Char) : List Char :=
  text.flatMap fun c => if c = '\\' ∨ c = quote then ['\\', c] else [c]

/-- A text as a string literal. -/
def quoted (quote : Char) (text : List Char) : List Char := quote :: (escape quote text ++ [quote])

theorem escape_cons (quote c : Char) (text : List Char) :
    escape quote (c :: text) =
      (if c = '\\' ∨ c = quote then ['\\', c] else [c]) ++ escape quote text :=
  List.flatMap_cons

/-- The first quote without a backslash in front of it is the one behind the escaped
    text. -/
theorem stringBody_escape {quote : Char} (hquote : quote ≠ '\\') (text : List Char) :
    stringBody quote (escape quote text ++ [quote]) = some (escape quote text ++ [quote]) := by
  induction text with
  | nil =>
    rw [escape, List.flatMap_nil, List.nil_append, stringBody, if_pos rfl]
    rintro c rest rfl
    exact absurd rfl hquote
  | cons c text ih =>
    rw [escape_cons]
    by_cases hc : c = '\\' ∨ c = quote
    · rw [if_pos hc]
      simp [stringBody, ih]
    · obtain ⟨hbackslash, hne⟩ := not_or.1 hc
      rw [if_neg hc, List.append_assoc, List.singleton_append, stringBody, if_neg hne, ih]
      · rfl
      · rintro d rest rfl
        exact absurd rfl hbackslash

/-- Reading escapes undoes escaping. Neither quotes nor backslashes stand for another
    character behind a backslash. -/
theorem unescape_escape {quote : Char} (hquote : quote = '"' ∨ quote = '\'') (text : List Char) :
    unescape (escape quote text) = text := by
  induction text with
  | nil => rfl
  | cons c text ih =>
    rw [escape_cons]
    by_cases hc : c = '\\' ∨ c = quote
    · have hescaped : escaped c = c := by
        rcases hc with rfl | rfl
        · decide
        · rcases hquote with rfl | rfl <;> decide
      rw [if_pos hc]
      simp [unescape, hescaped, ih]
    · rw [if_neg hc, List.singleton_append, unescape, ih]
      rintro d rest rfl
      exact absurd (Or.inl rfl) hc

/-- A quoted text is a lexeme that stands for the text, whatever its characters. -/
theorem denotes_quoted {quote : Char} (hquote : quote = '"' ∨ quote = '\'') (text : List Char) :
    Denotes (quoted quote text) (.string (String.ofList text)) := by
  have hescape := (not_blank_of_quote hquote).2
  have hstring := Denotes.string hquote (stringBody_escape hescape text)
  rwa [List.dropLast_concat, unescape_escape hquote] at hstring

end Lexeme

end FormRules
