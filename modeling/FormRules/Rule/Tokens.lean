/-
  FormRules.Rule.Tokens

  The tokens of a whole source. Blanks before, between and behind lexemes are dropped,
  and the first fault from the left ends the scan.
-/

import FormRules.Rule.Lexeme
import FormRules.Text.Blank
import FormRules.Text.Utf8

namespace FormRules

/-- The tokens of a source, and the position of its end. -/
structure Tokens where
  list : List Token
  stop : Nat
deriving DecidableEq

/-- The text shown for the end of a source where a token is listed. -/
def Tokens.stopText : String := "end of expression"

/-- The tokens of a text that begins at the given position of its source. -/
def Tokens.scanFrom (position : Nat) (text : List Char) : Except Fault Tokens :=
  let start := position + utf8Length (text.takeWhile isBlank)
  match _htext : text.dropWhile isBlank with
  | [] => .ok ⟨[], start⟩
  | first :: rest =>
    match _hlexeme : Lexeme.next start first rest with
    | .error fault => .error fault
    | .ok lexeme =>
      match scanFrom (start + utf8Length lexeme.text)
          ((first :: rest).drop lexeme.text.length) with
      | .error fault => .error fault
      | .ok tokens => .ok ⟨⟨lexeme.kind, start⟩ :: tokens.list, tokens.stop⟩
termination_by text.length
decreasing_by
  have hpos := List.length_pos_iff.2 (Lexeme.next_isPrefix _hlexeme).1
  have hle := (List.dropWhile_suffix (l := text) isBlank).length_le
  simp only [_htext, List.length_drop, List.length_cons] at hle ⊢
  omega

/-- Splits a source into tokens. -/
def Tokens.scan (source : String) : Except Fault Tokens := scanFrom 0 source.toList

end FormRules
