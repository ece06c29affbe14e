/-
  FormRules.Proofs.Scanning

  Splitting a text into tokens, one step at a time: a blank at the front is dropped, and
  a lexeme at the front is a token. `ScansTo` collects what texts that are put together
  from blanks and lexemes are split into, wherever they stand in a source.
-/

import FormRules.Proofs.Denotation
import FormRules.Proofs.Grammar
import FormRules.Rule.Tokens

namespace FormRules

namespace Tokens

open Grammar Lexeme

/-! ## Single steps -/

/-- What becomes of a text is up to what stands behind its blanks. -/
theorem scanFrom_eq (position : Nat) (text : List Char) :
    scanFrom position text =
      match text.dropWhile isBlank with
      | [] => .ok ⟨[], position + utf8Length (text.takeWhile isBlank)⟩
      | first :: rest =>
        match next (position + utf8Length (text.takeWhile isBlank)) first rest with
        | .error fault => .error fault
        | .ok lexeme =>
          match scanFrom (position + utf8Length (text.takeWhile isBlank) + utf8Length lexeme.text)
              ((first :: rest).drop lexeme.text.length) with
          | .error fault => .error fault
          | .ok tokens =>
            .ok ⟨⟨lexeme.kind, position + utf8Length (text.takeWhile isBlank)⟩ :: tokens.list,
              tokens.stop⟩ := by
  conv => lhs; unfold scanFrom
  split
  · rename_i htext
    rw [htext]
  · rename_i first rest htext
    rw [htext]
    dsimp only
    split
    · rename_i fault hnext
      exact hnext ▸ rfl
    · rename_i lexeme hnext
      exact hnext ▸ rfl

theorem scanFrom_nil (position : Nat) : scanFrom position [] = .ok ⟨[], position⟩ :=
  scanFrom_eq position []

/-- A blank at the front is dropped. -/
theorem scanFrom_blank {c : Char} (hc : isBlank c) (position : Nat) (text : List Char) :
    scanFrom position (c :: text) = scanFrom (position + c.utf8Size) text := by
  rw [scanFrom_eq, scanFrom_eq, List.takeWhile_cons_of_pos hc, List.dropWhile_cons_of_pos hc,
    utf8Length_cons, Nat.add_assoc position]

/-- A lexeme at the front is the first token. -/
theorem scanFrom_lexeme {position : Nat} {first : Char} {rest : List Char} {lexeme : Lexeme}
    (hfirst : isBlank first = false) (h : next position first rest = .ok lexeme) :
    scanFrom position (first :: rest) =
      match scanFrom (position + utf8Length lexeme.text)
          ((first :: rest).drop lexeme.text.length) with
      | .error fault => .error fault
      | .ok tokens => .ok ⟨⟨lexeme.kind, position⟩ :: tokens.list, tokens.stop⟩ := by
  have hblank : ¬isBlank first := by simp [hfirst]
  rw [scanFrom_eq, List.takeWhile_cons_of_neg hblank, List.dropWhile_cons_of_neg hblank]
  dsimp only
  rw [utf8Length_nil, Nat.add_zero, h]

/-- A scan fails where no lexeme is found. -/
theorem scanFrom_fault {position : Nat} {first : Char} {rest : List Char} {fault : Fault}
    (hfirst : isBlank first = false) (h : next position first rest = .error fault) :
    scanFrom position (first :: rest) = .error fault := by
  have hblank : ¬isBlank first := by simp [hfirst]
  rw [scanFrom_eq, List.takeWhile_cons_of_neg hblank, List.dropWhile_cons_of_neg hblank]
  dsimp only
  rw [utf8Length_nil, Nat.add_zero, h]

/-! ## Texts put together -/

/-- The text is split into tokens of these kinds, wherever it begins. -/
def ScansTo (text : List Char) (all : List TokenKind) : Prop :=
  ∀ position, ∃ tokens, scanFrom position text = .ok tokens ∧ kinds tokens.list = all

theorem scansTo_nil : ScansTo [] [] := fun position => ⟨_, scanFrom_nil position, rfl⟩

theorem ScansTo.blank {c : Char} {text : List Char} {all : List TokenKind} (h : ScansTo text all)
    (hc : isBlank c) : ScansTo (c :: text) all := by
  intro position
  rw [scanFrom_blank hc]
  exact h _

theorem ScansTo.blanks {blanks text : List Char} {all : List TokenKind}
    (hblanks : ∀ c ∈ blanks, isBlank c) (h : ScansTo text all) : ScansTo (blanks ++ text) all := by
  induction blanks with
  | nil => exact h
  | cons c blanks ih =>
    obtain ⟨hc, hblanks⟩ := List.forall_mem_cons.1 hblanks
    exact (ih hblanks).blank hc

/-- A lexeme that is found at the front of a text is its first token. -/
theorem ScansTo.next {first : Char} {tail : List Char} {lexeme : Lexeme} {all : List TokenKind}
    (hfirst : isBlank first = false)
    (hnext : ∀ position, Lexeme.next position first tail = .ok lexeme)
    (h : ScansTo ((first :: tail).drop lexeme.text.length) all) :
    ScansTo (first :: tail) (lexeme.kind :: all) := by
  intro position
  obtain ⟨tokens, hok, hkinds⟩ := h (position + utf8Length lexeme.text)
  rw [scanFrom_lexeme hfirst (hnext position), hok]
  exact ⟨_, rfl, by rw [kinds_cons, hkinds]⟩

/-- A lexeme may stand in front of every text that it cannot go on with. -/
theorem ScansTo.lexeme {text rest : List Char} {kind : TokenKind} {all : List TokenKind}
    (h : ScansTo rest all) (htext : Denotes text kind) (hrest : EndsBefore kind rest) :
    ScansTo (text ++ rest) (kind :: all) := by
  obtain ⟨first, tail, rfl, hfirst, hnext⟩ := next_of_denotes htext hrest
  have hdrop : (first :: (tail ++ rest)).drop (first :: tail).length = rest :=
    List.drop_left
  have hbehind : ScansTo ((first :: (tail ++ rest)).drop (first :: tail).length) all := by
    rwa [hdrop]
  exact ScansTo.next hfirst hnext hbehind

/-! ### Marks -/

/-- The symbols that no other symbol begins with. -/
def marks : List (Char × TokenKind) := [('(', .opening), (')', .closing), (',', .comma)]

/-- A mark is a token in front of every text. -/
theorem ScansTo.mark {c : Char} {kind : TokenKind} (hmark : (c, kind) ∈ marks)
    {text : List Char} {all : List TokenKind} (h : ScansTo text all) :
    ScansTo (c :: text) (kind :: all) := by
  have hnext (position : Nat) : Lexeme.next position c text = .ok ⟨[c], kind⟩ := by
    simp only [marks, List.mem_cons, List.not_mem_nil, or_false, Prod.mk.injEq] at hmark
    rcases hmark with ⟨rfl, rfl⟩ | ⟨rfl, rfl⟩ | ⟨rfl, rfl⟩
    all_goals
      rw [Lexeme.next, if_neg (by decide), numberText_eq_nil (by decide) (by decide), nameText,
        if_neg (by decide)]
      rfl
  have hblank : isBlank c = false := by
    have hall : ∀ mark ∈ marks, isBlank mark.1 = false := by decide
    exact hall _ hmark
  exact @ScansTo.next c text ⟨[c], kind⟩ all hblank hnext h

/-! ## What tokens stand for -/

/-- Every token of a text stands for a lexeme. -/
theorem denotes_of_scanFrom {position : Nat} {text : List Char} {tokens : Tokens}
    (h : scanFrom position text = .ok tokens) :
    ∀ token ∈ tokens.list, ∃ lexeme, Denotes lexeme token.kind := by
  fun_induction scanFrom position text generalizing tokens with
  | case1 => cases h; simp
  | case2 => cases h
  | case3 => cases h
  | case4 =>
    rename_i lexeme hlexeme others hothers ih
    cases h
    exact List.forall_mem_cons.2 ⟨⟨lexeme.text, denotes_of_next hlexeme⟩, ih hothers⟩

/-- A text of blanks has no tokens. -/
theorem scanFrom_blanks {text : List Char} (h : ∀ c ∈ text, isBlank c) (position : Nat) :
    scanFrom position text = .ok ⟨[], position + utf8Length text⟩ := by
  induction text generalizing position with
  | nil => exact scanFrom_nil position
  | cons c text ih =>
    obtain ⟨hc, htext⟩ := List.forall_mem_cons.1 h
    rw [scanFrom_blank hc, ih htext, utf8Length_cons, Nat.add_assoc]

/-- Where nothing stands behind the blanks there are only blanks. -/
theorem takeWhile_eq_of_dropWhile {text : List Char} (h : text.dropWhile isBlank = []) :
    text.takeWhile isBlank = text := by
  have hparts := List.takeWhile_append_dropWhile (p := isBlank) (l := text)
  rwa [h, List.append_nil] at hparts

/-- A text without tokens is blank. -/
theorem blank_of_scanFrom {position : Nat} {text : List Char} {tokens : Tokens}
    (h : scanFrom position text = .ok tokens) (hnil : tokens.list = []) :
    ∀ c ∈ text, isBlank c := by
  rw [scanFrom_eq] at h
  split at h
  · rename_i hdrop
    have htake := takeWhile_eq_of_dropWhile hdrop
    exact htake ▸ List.all_eq_true.1 List.all_takeWhile
  · -- behind the blanks a lexeme begins, which is a token or a fault
    split at h
    · cases h
    · split at h
      · cases h
      · cases h
        cases hnil

/-- A source of blanks has no tokens. -/
theorem scan_blanks {source : String} (h : source.toList.all isBlank) :
    scan source = .ok ⟨[], utf8Length source.toList⟩ := by
  rw [scan, scanFrom_blanks (List.all_eq_true.1 h), Nat.zero_add]

end Tokens

end FormRules
