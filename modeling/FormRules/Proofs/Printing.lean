/-
  FormRules.Proofs.Printing

  What indented JSON looks like, line by line. The lines of an array are those of its items,
  indented by two blanks and between two brackets, with a comma behind each item but the last;
  those of an object have the name of a member in front of its value. An array or object
  without anything inside closes up.

  The printer writes all lines from the left margin on and needs to know the level of each;
  here the lines of a part are those that it has alone, and it is the whole that indents them.

  Main statement: `Json.pretty_eq_lines`.
-/

import FormRules.Json.Printer

namespace FormRules

namespace Json

/-! ## Strings -/

/-- The characters with a short escape, and the letter behind the backslash. -/
def shortEscapes : List (Char × Char) :=
  [('"', '"'), ('\\', '\\'), ('\x08', 'b'), ('\x0c', 'f'), ('\n', 'n'), ('\r', 'r'), ('\t', 't')]

/-- How a character stands in a string: the other control characters by the four digits of
    their number, and what is neither escaped nor a control character as itself. -/
def inString (c : Char) : List Char :=
  match shortEscapes.lookup c with
  | some letter => ['\\', letter]
  | none =>
    if c.toNat < 0x20 then '\\' :: 'u' :: (Nat.toDigits 16 c.toNat).leftpad 4 '0' else [c]

/-- A string literal. -/
def literal (s : String) : String := String.ofList ('"' :: s.toList.flatMap inString ++ ['"'])

/-- The number of a control character has two digits at most. -/
theorem leftpad_toDigits : ∀ n < 0x20,
    (Nat.toDigits 16 n).leftpad 4 '0' = ['0', '0', hexDigit (n / 16), hexDigit n] := by
  decide

theorem inString_eq (c : Char) : inString c = escapeChar c := by
  by_cases hshort : c ∈ shortEscapes.map Prod.fst
  · simp only [shortEscapes, List.map_cons, List.map_nil, List.mem_cons, List.not_mem_nil,
      or_false] at hshort
    rcases hshort with rfl | rfl | rfl | rfl | rfl | rfl | rfl <;> rfl
  · have hlookup : shortEscapes.lookup c = none := by
      rw [List.lookup_eq_none_iff]
      intro p hp
      rw [bne_iff_ne]
      rintro rfl
      exact hshort (List.mem_map_of_mem hp)
    have hbackspace : c.toNat = 0x08 → c = '\x08' := fun h => Char.toNat_inj.1 h
    have hfeed : c.toNat = 0x0c → c = '\x0c' := fun h => Char.toNat_inj.1 h
    simp only [shortEscapes, List.map_cons, List.map_nil, List.mem_cons, List.not_mem_nil,
      or_false, not_or] at hshort
    obtain ⟨hquote, hbackslash, hnotBackspace, hnotFeed, hline, hreturn, htab⟩ := hshort
    rw [inString, hlookup, escapeChar, if_neg hquote, if_neg hbackslash, if_neg hline,
      if_neg hreturn, if_neg htab, if_neg (hnotBackspace ∘ hbackspace), if_neg (hnotFeed ∘ hfeed)]
    dsimp only
    by_cases hcontrol : c.toNat < 0x20
    · rw [if_pos hcontrol, if_pos hcontrol, leftpad_toDigits _ hcontrol]
    · rw [if_neg hcontrol, if_neg hcontrol]

theorem literal_eq (s : String) : literal s = quoted s := by
  rw [literal, quoted, funext inString_eq]

/-! ## Lines -/

/-- A text in front of the first line. -/
def inFront (text : String) : List String → List String
  | [] => [text]
  | line :: lines => (text ++ line) :: lines

/-- A text behind the last line. -/
def behind (text : String) : List String → List String
  | [] => [text]
  | [line] => [line ++ text]
  | line :: lines => line :: behind text lines

/-- Blocks of lines, with a comma behind each but the last. -/
def withCommas : List (List String) → List String
  | [] => []
  | [block] => block
  | block :: blocks => behind "," block ++ withCommas blocks

/-- Blocks of lines between two brackets, which close up if there is none. -/
def bracketed (opening closing : String) (blocks : List (List String)) : List String :=
  if blocks = [] then [opening ++ closing]
  else opening :: ((withCommas blocks).map ("  " ++ ·) ++ [closing])

mutual

/-- The lines of a value. -/
def lines : Json → List String
  | .null => ["null"]
  | .boolean b => [toString b]
  | .number (.integer n) => [toString n]
  | .number (.double x) => [x.documentText]
  | .string s => [literal s]
  | .array items => bracketed "[" "]" (linesOfItems items)
  | .object members => bracketed "\x7b" "\x7d" (linesOfMembers members)

def linesOfItems : List Json → List (List String)
  | [] => []
  | item :: items => lines item :: linesOfItems items

def linesOfMembers : List (String × Json) → List (List String)
  | [] => []
  | (name, value) :: members =>
    inFront (literal name ++ ": ") (lines value) :: linesOfMembers members

end

/-- Lines as they are printed, each with its end. -/
def printed (lines : List String) : String := String.join (lines.map (· ++ "\n"))

/-! ## Joining lines -/

section Joining

variable {separator text : String} {lines : List String}

theorem behind_ne_nil (text : String) (lines : List String) : behind text lines ≠ [] := by
  fun_cases behind text lines <;> exact List.cons_ne_nil _ _

theorem intercalate_inFront (h : lines ≠ []) :
    separator.intercalate (inFront text lines) = text ++ separator.intercalate lines := by
  obtain ⟨line, lines, rfl⟩ := List.exists_cons_of_ne_nil h
  cases lines with
  | nil => simp [inFront]
  | cons => simp [inFront, String.intercalate_cons_cons, String.append_assoc]

theorem intercalate_behind (h : lines ≠ []) :
    separator.intercalate (behind text lines) = separator.intercalate lines ++ text := by
  fun_induction behind text lines with
  | case1 => exact absurd rfl h
  | case2 line => simp
  | case3 line lines hlines ih =>
    rw [String.intercalate_cons_of_ne_nil (behind_ne_nil _ _), ih hlines,
      String.intercalate_cons_of_ne_nil hlines, ← String.append_assoc]

/-- Indenting the lines is the same as joining them by a line break with the indentation. -/
theorem intercalate_indented (h : lines ≠ []) :
    separator.intercalate (lines.map ("  " ++ ·)) =
      "  " ++ (separator ++ "  ").intercalate lines := by
  induction lines with
  | nil => exact absurd rfl h
  | cons line lines ih =>
    cases lines with
    | nil => simp
    | cons next lines =>
      have hrest := ih (List.cons_ne_nil _ _)
      rw [List.map_cons] at hrest ⊢
      rw [List.map_cons, String.intercalate_cons_cons, hrest, String.intercalate_cons_cons]
      simp only [String.append_assoc]

theorem withCommas_ne_nil {blocks : List (List String)} (hne : blocks ≠ [])
    (h : ∀ block ∈ blocks, block ≠ []) : withCommas blocks ≠ [] := by
  fun_cases withCommas blocks with
  | case1 => exact absurd rfl hne
  | case2 block => exact h block (List.mem_singleton.2 rfl)
  | case3 => exact List.append_ne_nil_of_left_ne_nil (behind_ne_nil _ _) _

theorem intercalate_withCommas {blocks : List (List String)} (h : ∀ block ∈ blocks, block ≠ []) :
    separator.intercalate (withCommas blocks) =
      ("," ++ separator).intercalate (blocks.map separator.intercalate) := by
  fun_induction withCommas blocks with
  | case1 => rfl
  | case2 block => simp
  | case3 block blocks hblocks ih =>
    obtain ⟨hblock, hothers⟩ := List.forall_mem_cons.1 h
    have hrest : blocks.map separator.intercalate ≠ [] := fun hnil =>
      hblocks (List.map_eq_nil_iff.1 hnil)
    rw [String.intercalate_append_of_ne_nil (behind_ne_nil _ _)
      (withCommas_ne_nil hblocks hothers), intercalate_behind hblock, ih hothers, List.map_cons,
      String.intercalate_cons_of_ne_nil hrest]
    simp only [String.append_assoc]

theorem bracketed_ne_nil (opening closing : String) (blocks : List (List String)) :
    bracketed opening closing blocks ≠ [] := by
  unfold bracketed
  split <;> exact List.cons_ne_nil _ _

/-- Lines that are joined and ended are those that are ended each. -/
theorem intercalate_append_eq_printed (h : lines ≠ []) :
    "\n".intercalate lines ++ "\n" = printed lines := by
  induction lines with
  | nil => exact absurd rfl h
  | cons line lines ih =>
    cases lines with
    | nil => simp [printed]
    | cons next lines =>
      rw [String.intercalate_cons_cons, String.append_assoc, ih (List.cons_ne_nil _ _)]
      simp [printed, String.append_assoc]

end Joining

/-! ## The printer -/

/-- The end of a line and the indentation of the next one at some level. -/
def lineBreak (level : Nat) : String := "\n" ++ "".pushn ' ' (2 * level)

theorem lineBreak_succ (level : Nat) : lineBreak (level + 1) = lineBreak level ++ "  " := by
  have hblanks : "".pushn ' ' (2 * (level + 1)) = "".pushn ' ' (2 * level) ++ "  " := by
    show (("".pushn ' ' (2 * level)).push ' ').push ' ' = _
    exact String.ext (by simp)
  rw [lineBreak, lineBreak, hblanks, String.append_assoc]

/-- Brackets around the parts of a value. -/
theorem indentedBlock_eq (opening closing : String) (level : Nat) {blocks : List (List String)}
    (h : ∀ block ∈ blocks, block ≠ []) :
    indentedBlock opening closing level (blocks.map (lineBreak (level + 1)).intercalate) =
      (lineBreak level).intercalate (bracketed opening closing blocks) := by
  unfold indentedBlock bracketed
  by_cases hblocks : blocks = []
  · rw [hblocks]
    simp
  · -- only the lines in between are a level deeper, and the break behind them is not
    have hlines := withCommas_ne_nil hblocks h
    have hindented : (withCommas blocks).map ("  " ++ ·) ≠ [] := fun hnil =>
      hlines (List.map_eq_nil_iff.1 hnil)
    rw [if_neg (by simpa using hblocks), if_neg hblocks,
      String.intercalate_cons_of_ne_nil (List.append_ne_nil_of_left_ne_nil hindented _),
      String.intercalate_append_of_ne_nil hindented (List.cons_ne_nil _ _),
      intercalate_indented hlines, ← lineBreak_succ, intercalate_withCommas h,
      String.intercalate_singleton, lineBreak_succ]
    simp only [lineBreak, String.append_assoc]

/-- A value is at least one line. -/
theorem lines_ne_nil (value : Json) : value.lines ≠ [] := by
  cases value with
  | number n => cases n <;> exact List.cons_ne_nil _ _
  | array | object => exact bracketed_ne_nil _ _ _
  | _ => exact List.cons_ne_nil _ _

theorem linesOfItems_ne_nil (items : List Json) : ∀ block ∈ linesOfItems items, block ≠ [] := by
  induction items with
  | nil => exact List.forall_mem_nil _
  | cons item items ih => exact List.forall_mem_cons.2 ⟨lines_ne_nil item, ih⟩

theorem linesOfMembers_ne_nil (members : List (String × Json)) :
    ∀ block ∈ linesOfMembers members, block ≠ [] := by
  induction members with
  | nil => exact List.forall_mem_nil _
  | cons member members ih =>
    refine List.forall_mem_cons.2 ⟨?_, ih⟩
    fun_cases inFront (literal member.1 ++ ": ") member.2.lines <;> exact List.cons_ne_nil _ _

mutual

/-- A value is printed as its lines, from any level on. -/
theorem prettyAt_eq (level : Nat) : ∀ value : Json,
    prettyAt level value = (lineBreak level).intercalate value.lines
  | .null => by
    rw [lines, String.intercalate_singleton]
    rfl
  | .boolean b => by
    rw [lines, String.intercalate_singleton]
    cases b <;> rfl
  | .number (.integer n) => by
    rw [lines, String.intercalate_singleton, prettyAt, compact, Number.text, integerText_eq_repr]
    · rfl
    all_goals nofun
  | .number (.double x) => by
    rw [lines, String.intercalate_singleton]
    rfl
  | .string s => by
    rw [lines, String.intercalate_singleton, literal_eq]
    rfl
  | .array items => by
    rw [prettyAt, prettyItems_eq, indentedBlock_eq _ _ _ (linesOfItems_ne_nil items), lines]
  | .object members => by
    rw [prettyAt, prettyMembers_eq, indentedBlock_eq _ _ _ (linesOfMembers_ne_nil members), lines]

theorem prettyItems_eq (level : Nat) : ∀ items : List Json,
    prettyItems level items = (linesOfItems items).map (lineBreak level).intercalate
  | [] => rfl
  | item :: items => by
    rw [prettyItems, prettyAt_eq level item, prettyItems_eq level items, linesOfItems,
      List.map_cons]

theorem prettyMembers_eq (level : Nat) : ∀ members : List (String × Json),
    prettyMembers level members = (linesOfMembers members).map (lineBreak level).intercalate
  | [] => rfl
  | (name, value) :: members => by
    rw [prettyMembers, prettyAt_eq level value, prettyMembers_eq level members, linesOfMembers,
      List.map_cons, intercalate_inFront (lines_ne_nil value), literal_eq]

end

/-- The text of a value is its lines. -/
theorem pretty_eq_lines (value : Json) : value.pretty = "\n".intercalate value.lines :=
  prettyAt_eq 0 value

theorem pretty_append_eq (value : Json) : value.pretty ++ "\n" = printed value.lines := by
  rw [pretty_eq_lines, intercalate_append_eq_printed (lines_ne_nil value)]

end Json

end FormRules
