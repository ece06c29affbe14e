/-
  FormRules.Proofs.Lexical

  The classes of lexemes as grammars:

    * `IsNumber`: `-? digits (. digits)?`,
    * a string is a quote and a text that `stringBody` takes as a whole,
    * `IsName`: a character that may begin a name, then name characters and points with
      a name character behind them,
    * a symbol is a member of `TokenKind.symbols`.

  What the scanner of a class takes from the front of a text belongs to the class, and
  what belongs to it is taken as a whole, as long as the text behind it does not go on.
-/

import FormRules.Rule.Lexeme

namespace FormRules

namespace Lexeme

/-! ## Runs of characters -/

/-- The longest run of some characters ends where the next character is not one of
    them. -/
theorem takeWhile_run {p : Char → Bool} {run rest : List Char} (h : ∀ c ∈ run, p c)
    (hrest : ∀ c ∈ rest.head?, p c = false) : (run ++ rest).takeWhile p = run := by
  rw [List.takeWhile_append_of_pos h]
  cases rest with
  | nil => simp
  | cons c rest => simp [hrest c rfl]

theorem dropWhile_run {p : Char → Bool} {run rest : List Char} (h : ∀ c ∈ run, p c)
    (hrest : ∀ c ∈ rest.head?, p c = false) : (run ++ rest).dropWhile p = rest := by
  rw [List.dropWhile_append_of_pos h]
  cases rest with
  | nil => rfl
  | cons c rest => simp [hrest c rfl]

/-! ## Numbers -/

/-- A run of at least one decimal digit. -/
def IsDigits (text : List Char) : Prop := text ≠ [] ∧ ∀ c ∈ text, c.isDigit

/-- Digits, possibly with a point and more digits behind them. -/
def IsUnsigned (text : List Char) : Prop :=
  ∃ whole, IsDigits whole ∧
    (text = whole ∨ ∃ fraction, IsDigits fraction ∧ text = whole ++ '.' :: fraction)

/-- A number as it is written: an unsigned one, possibly behind a minus sign. -/
def IsNumber (text : List Char) : Prop :=
  IsUnsigned text ∨ ∃ digits, IsUnsigned digits ∧ text = '-' :: digits

/-- A text that does not go on with a digit or a point. -/
def EndsNumber (rest : List Char) : Prop := ∀ c ∈ rest.head?, c.isDigit = false ∧ c ≠ '.'

theorem isDigits_takeWhile {text : List Char} (h : text.takeWhile Char.isDigit ≠ []) :
    IsDigits (text.takeWhile Char.isDigit) :=
  ⟨h, List.all_eq_true.1 List.all_takeWhile⟩

/-- An unsigned number begins with a digit. -/
theorem IsUnsigned.exists_eq_cons {text : List Char} (h : IsUnsigned text) :
    ∃ first tail, text = first :: tail ∧ first.isDigit := by
  obtain ⟨whole, ⟨hne, hall⟩, htext⟩ := h
  obtain ⟨first, tail, rfl⟩ := List.exists_cons_of_ne_nil hne
  have hfirst := hall first List.mem_cons_self
  rcases htext with rfl | ⟨fraction, -, rfl⟩
  · exact ⟨first, tail, rfl, hfirst⟩
  · exact ⟨first, tail ++ '.' :: fraction, rfl, hfirst⟩

/-- What is taken from the front of a text is an unsigned number. -/
theorem isUnsigned_unsignedText {text : List Char} (h : unsignedText text ≠ []) :
    IsUnsigned (unsignedText text) := by
  unfold unsignedText at h ⊢
  split
  · simp_all
  · rename_i hwhole
    have hdigits := isDigits_takeWhile hwhole
    refine ⟨_, hdigits, ?_⟩
    split
    · split
      · exact Or.inl rfl
      · rename_i hfraction
        exact Or.inr ⟨_, isDigits_takeWhile hfraction, rfl⟩
    · exact Or.inl rfl

/-- An unsigned number is taken as a whole where it cannot go on. -/
theorem unsignedText_append {text rest : List Char} (h : IsUnsigned text)
    (hrest : EndsNumber rest) : unsignedText (text ++ rest) = text := by
  have hend : ∀ c ∈ rest.head?, c.isDigit = false := fun c hc => (hrest c hc).1
  obtain ⟨whole, ⟨hwhole, hdigits⟩, rfl | ⟨fraction, ⟨hfraction, hdigits'⟩, rfl⟩⟩ := h
  · unfold unsignedText
    rw [takeWhile_run hdigits hend, dropWhile_run hdigits hend]
    split
    · exact absurd rfl hwhole
    · split
      · exact absurd rfl (hrest '.' rfl).2
      · rfl
  · have hpoint : ∀ c ∈ ('.' :: (fraction ++ rest)).head?, c.isDigit = false := by simp
    rw [List.append_assoc, List.cons_append]
    unfold unsignedText
    rw [takeWhile_run hdigits hpoint, dropWhile_run hdigits hpoint]
    split
    · exact absurd rfl hwhole
    · simp only [takeWhile_run hdigits' hend]

theorem numberText_eq_unsignedText {text : List Char} (h : ∀ c ∈ text.head?, c ≠ '-') :
    numberText text = unsignedText text := by
  unfold numberText
  split
  · exact absurd rfl (h '-' rfl)
  · rfl

/-- What is taken from the front of a text is a number. -/
theorem isNumber_numberText {text : List Char} (h : numberText text ≠ []) :
    IsNumber (numberText text) := by
  by_cases hminus : ∃ rest, text = '-' :: rest
  · obtain ⟨rest, rfl⟩ := hminus
    rw [numberText] at h ⊢
    split
    · simp_all
    · rename_i hdigits
      exact Or.inr ⟨_, isUnsigned_unsignedText hdigits, rfl⟩
  · have heq : numberText text = unsignedText text := by
      apply numberText_eq_unsignedText
      rintro c hc rfl
      cases text with
      | nil => cases hc
      | cons first rest =>
        obtain rfl : first = '-' := by simpa using hc
        exact hminus ⟨rest, rfl⟩
    rw [heq] at h ⊢
    exact Or.inl (isUnsigned_unsignedText h)

/-- A number is taken as a whole where it cannot go on. -/
theorem numberText_append {text rest : List Char} (h : IsNumber text) (hrest : EndsNumber rest) :
    numberText (text ++ rest) = text := by
  rcases h with h | ⟨digits, h, rfl⟩
  · obtain ⟨first, tail, htext, hfirst⟩ := h.exists_eq_cons
    rw [numberText_eq_unsignedText, unsignedText_append h hrest]
    intro c hc
    obtain rfl : first = c := by simpa [htext] using hc
    rintro rfl
    cases hfirst
  · have hdigits := unsignedText_append h hrest
    obtain ⟨first, tail, rfl, -⟩ := h.exists_eq_cons
    rw [List.cons_append, numberText, hdigits]

/-! ## Strings -/

/-- A string that ends is not continued by what follows it. -/
theorem stringBody_append {quote : Char} (hquote : quote ≠ '\\') {text body : List Char}
    (h : stringBody quote text = some body) (rest : List Char) :
    stringBody quote (body ++ rest) = some body := by
  fun_induction stringBody quote text generalizing body with
  | case1 => cases h
  | case2 c others ih =>
    obtain ⟨inner, hinner, rfl⟩ := Option.map_eq_some_iff.1 h
    simp [stringBody, ih hinner]
  | case3 others hnot =>
    cases h
    rw [List.singleton_append, stringBody, if_pos rfl]
    rintro c rest' rfl
    exact absurd rfl hquote
  | case4 c others hnot hne ih =>
    obtain ⟨inner, hinner, rfl⟩ := Option.map_eq_some_iff.1 h
    -- a backslash at the very end is taken as it is, but then no quote follows
    have hc : c ≠ '\\' := by
      rintro rfl
      cases others with
      | nil => cases hinner
      | cons d others => exact hnot d others rfl rfl
    rw [List.cons_append, stringBody, if_neg hne, ih hinner]
    · rfl
    · rintro d others' rfl
      exact absurd rfl hc

/-! ## Names -/

/-- What may follow the first character of a name. -/
inductive IsNameTail : List Char → Prop
  | nil : IsNameTail []
  | character {c : Char} {tail : List Char} (hc : isNameChar c) (h : IsNameTail tail) :
      IsNameTail (c :: tail)
  | point {c : Char} {tail : List Char} (hc : isNameChar c) (h : IsNameTail tail) :
      IsNameTail ('.' :: c :: tail)

/-- Words joined by points, the first of which does not begin with a digit. -/
def IsName (text : List Char) : Prop :=
  ∃ first tail, text = first :: tail ∧ isNameStart first ∧ IsNameTail tail

/-- A text that does not go on with a name character or a point. -/
def EndsName (rest : List Char) : Prop := ∀ c ∈ rest.head?, isNameChar c = false ∧ c ≠ '.'

theorem isNameTail_nameTail (text : List Char) : IsNameTail (nameTail text) := by
  fun_induction nameTail text with
  | case1 => exact .nil
  | case2 c rest hc ih => exact .character hc ih
  | case3 c rest _ hpoint ih =>
    obtain ⟨rfl, hhead⟩ := hpoint
    cases rest with
    | nil => cases hhead
    | cons d rest =>
      -- the character behind the point belongs to the tail, which therefore begins with it
      have hd : isNameChar d := by simpa using hhead
      rw [nameTail, if_pos hd] at ih ⊢
      generalize nameTail rest = tail at ih ⊢
      cases ih with
      | character _ ih => exact .point hd ih
      | point _ _ => exact absurd hd (by decide)
  | case4 => exact .nil

theorem nameTail_append {tail rest : List Char} (h : IsNameTail tail) (hrest : EndsName rest) :
    nameTail (tail ++ rest) = tail := by
  induction h with
  | nil =>
    cases rest with
    | nil => rfl
    | cons c rest =>
      obtain ⟨hc, hpoint⟩ := hrest c rfl
      simp [nameTail, hc, hpoint]
  | character hc _ ih => rw [List.cons_append, nameTail, if_pos hc, ih]
  | @point c tail hc _ ih =>
    have hpoint : ¬isNameChar '.' := by decide
    rw [List.cons_append, List.cons_append, nameTail, if_neg hpoint,
      if_pos ⟨rfl, by simpa using hc⟩, nameTail, if_pos hc, ih]

/-- What is taken from the front of a text is a name. -/
theorem isName_nameText {text : List Char} (h : nameText text ≠ []) : IsName (nameText text) := by
  unfold nameText at h ⊢
  split
  · simp_all
  · rename_i c rest
    split
    · rename_i hc
      exact ⟨c, _, rfl, hc, isNameTail_nameTail rest⟩
    · simp_all

/-- A text that is taken as a whole is a name. -/
theorem isName_of_nameText {text : List Char} (hne : text ≠ []) (h : nameText text = text) :
    IsName text := by
  have hname := isName_nameText (h.symm ▸ hne)
  rwa [h] at hname

/-- A name is taken as a whole where it cannot go on. -/
theorem nameText_append {text rest : List Char} (h : IsName text) (hrest : EndsName rest) :
    nameText (text ++ rest) = text := by
  obtain ⟨first, tail, rfl, hfirst, htail⟩ := h
  rw [List.cons_append, nameText, if_pos hfirst, nameTail_append htail hrest]

/-! ## Symbols -/

/-- A text that does not go on with an equals sign. -/
def EndsSymbol (rest : List Char) : Prop := ∀ c ∈ rest.head?, c ≠ '='

theorem symbol?_append {s : String × TokenKind} (hs : s ∈ TokenKind.symbols) {rest : List Char}
    (hrest : EndsSymbol rest) : symbol? (s.1.toList ++ rest) = some ⟨s.1.toList, s.2⟩ := by
  have hequals (tail : List Char) : ('=' :: tail).isPrefixOf rest = false := by
    cases rest with
    | nil => rfl
    | cons c rest => simp [List.isPrefixOf, Ne.symm (hrest c rfl)]
  simp only [TokenKind.symbols, List.mem_cons, List.not_mem_nil, or_false] at hs
  rcases hs with rfl | rfl | rfl | rfl | rfl | rfl | rfl | rfl | rfl | rfl | rfl | rfl | rfl |
    rfl | rfl <;>
    simp [symbol?, TokenKind.symbols, List.isPrefixOf, hequals]

end Lexeme

end FormRules
