/-
  FormRules.Proofs.Quotation

  A quoted string in front of any source.

  A string that is put between quotes, with a backslash in front of its backslashes and its
  quotes of this kind, is one lexeme whatever follows (`scanFrom_quoted`): each backslash takes
  the next character with it, so that the first quote that closes is the one that was put
  behind the string.

  The scan of what follows then only starts later. What is found at the front of a text does not
  depend on its position (`next_behind`), so that the same tokens or the same fault are found
  further behind (`scanFrom_behind`).

  Main statement: `scan_quoted`.
-/

import FormRules.Proofs.FirstFault
import FormRules.Proofs.Relocation

namespace FormRules

open Precedence

/-! ## Scans that start later -/

/-- What is found at the front of a text is found at every position. -/
theorem Lexeme.next_behind (shift position : Nat) (first : Char) (rest : List Char) :
    next (position + shift) first rest =
      (next position first rest).mapError (Fault.moved (· + shift)) := by
  unfold next
  by_cases hquote : first = '"' ∨ first = '\''
  · rw [if_pos hquote, if_pos hquote]
    cases stringBody first rest <;> rfl
  · rw [if_neg hquote, if_neg hquote]
    -- the classes are tried in the same order, and a fault is at the front of the text
    cases numberText (first :: rest) with
    | cons c digits =>
      dsimp only
      cases numberValue (c :: digits) <;> rfl
    | nil =>
      cases nameText (first :: rest) with
      | cons c name => rfl
      | nil => cases symbol? (first :: rest) <;> rfl

namespace Tokens

open Lexeme

/-- The outcome of a scan with all positions greater by the same: those of the tokens and of the
    end, or that of the fault. -/
def behind (shift : Nat) (outcome : Except Fault Tokens) : Except Fault Tokens :=
  relocated (· + shift) (Tokens.moved (· + shift)) outcome

/-- Tokens in front of others are moved with them. -/
theorem behind_inFront (shift : Nat) (tokens : List Token) (outcome : Except Fault Tokens) :
    behind shift (inFront tokens outcome) =
      inFront (tokens.map (Token.moved (· + shift))) (behind shift outcome) := by
  cases outcome with
  | error => rfl
  | ok others =>
    show Except.ok (Tokens.moved (· + shift) ⟨tokens ++ others.list, others.stop⟩) = _
    rw [Tokens.moved, List.map_append]
    rfl

/-- A text that begins later in its source is split in the same way, with all positions, also
    that of a fault, as much greater. -/
theorem scanFrom_behind (shift position : Nat) (text : List Char) :
    scanFrom (position + shift) text = behind shift (scanFrom position text) := by
  induction position, text using byLexemes with
  | nil position =>
    rw [scanFrom_nil, scanFrom_nil]
    rfl
  | blank position c rest hc ih =>
    rw [scanFrom_blank hc, scanFrom_blank hc, Nat.add_right_comm]
    exact ih
  | fault position first rest fault hfirst hnext =>
    have hbehind : next (position + shift) first rest = .error (fault.moved (· + shift)) := by
      rw [next_behind, hnext]
      rfl
    rw [scanFrom_fault hfirst hnext, scanFrom_fault hfirst hbehind]
    rfl
  | lexeme position first tail rest kind hfirst hnext ih =>
    have hbehind : next (position + shift) first (tail ++ rest) = .ok ⟨first :: tail, kind⟩ := by
      rw [next_behind, hnext]
      rfl
    have hscan := scanFrom_append hfirst rfl hnext
    have hscan' := scanFrom_append hfirst rfl hbehind
    rw [hscan, hscan', behind_inFront, ← ih, Nat.add_right_comm]
    rfl

/-! ## Quoted strings -/

/-- A quoted text is one token, and the scan goes on behind it. -/
theorem scanFrom_quoted {quote : Char} (hquote : quote = '"' ∨ quote = '\'') (position : Nat)
    (text rest : List Char) :
    scanFrom position (quoted quote text ++ rest) =
      inFront [⟨.string (String.ofList text), position⟩]
        (scanFrom (position + utf8Length (quoted quote text)) rest) := by
  -- a string is over at its quote, so that nothing behind it could be part of it
  have hends : EndsBefore (.string (String.ofList text)) rest := trivial
  obtain ⟨first, tail, htext, hfirst, hnext⟩ := next_of_denotes (denotes_quoted hquote text) hends
  have hwhole : first :: (tail ++ rest) = quoted quote text ++ rest := by
    rw [htext, List.cons_append]
  exact scanFrom_append hfirst hwhole (hnext position)

/-- A string as a literal in quotes of one kind. -/
def literal (quote : Char) (s : String) : String := String.ofList (quoted quote s.toList)

/-- A string in quotes of either kind, with a backslash in front of each of its backslashes and
    each of its quotes of this kind, is read as itself in front of every source: it is the first
    token, at the beginning, and behind it come the tokens of the source, or its fault, at
    positions that are greater by the bytes of the literal. -/
theorem scan_quoted {quote : Char} (hquote : quote = '"' ∨ quote = '\'') (s source : String) :
    scan (literal quote s ++ source) =
      inFront [⟨.string s, 0⟩] (behind (literal quote s).utf8ByteSize (scan source)) := by
  have hliteral : (literal quote s).toList = quoted quote s.toList := String.toList_ofList
  have hscan := scanFrom_quoted hquote 0 s.toList source.toList
  rw [← hliteral, String.ofList_toList, utf8Length_toList, scanFrom_behind] at hscan
  rw [scan, String.toList_append]
  exact hscan

/-- A backslash at the end of a string does not escape the quote behind it, and a name that
    follows at once is a token of its own. -/
theorem scan_quoted_backslash :
    literal '\'' "é'\\" = "'é\\'\\\\'" ∧
      scan "'é\\'\\\\'n" = .ok ⟨[⟨.string "é'\\", 0⟩, ⟨.name "n", 8⟩], 9⟩ ∧
      scan "'é\\'\\\\''" = .error (.unterminatedString 8) := by
  have hliteral : literal '\'' "é'\\" = "'é\\'\\\\'" := by decide
  have hname : scan "n" = .ok ⟨[⟨.name "n", 0⟩], 1⟩ := by with_unfolding_all rfl
  have hquote : scan "'" = .error (.unterminatedString 0) := by with_unfolding_all rfl
  have hscan (source : String) := scan_quoted (Or.inr rfl : '\'' = '"' ∨ '\'' = '\'') "é'\\" source
  rw [hliteral] at hscan
  refine ⟨hliteral, ?_, ?_⟩
  · have hbefore := hscan "n"
    rw [hname] at hbefore
    exact hbefore
  · have hbefore := hscan "'"
    rw [hquote] at hbefore
    exact hbefore

end Tokens

end FormRules
