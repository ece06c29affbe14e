/-
  FormRules.Rule.Lexeme

  The lexeme at the front of a source. There are four classes:

    * a number: `-? digits (. digits)?`,
    * a string in single or double quotes, with escapes,
    * a name: words joined by points, where `true`, `false` and `null` alone are
      literals,
    * a symbol of `TokenKind.symbols`.

  Each class has a function that gives the longest front part of a text that belongs
  to it, and one that says what such a part denotes. The classes begin with different
  characters, so at most one of them applies.

  Main statement: `Lexeme.next_isPrefix`, a lexeme is a non-empty front part of the
  text it is taken from.
-/

import FormRules.Rule.Fault
import FormRules.Text.Letter
import FormRules.Text.Numeric

namespace FormRules

/-- A front part of a source and what it denotes. -/
structure Lexeme where
  text : List Char
  kind : TokenKind

namespace Lexeme

/-! ## Numbers -/

/-- The longest number without a sign at the front of a text; empty if there is none.
    A point belongs to it only with a digit behind it. -/
def unsignedText (text : List Char) : List Char :=
  match text.takeWhile Char.isDigit with
  | [] => []
  | whole =>
    match text.dropWhile Char.isDigit with
    | '.' :: rest =>
      match rest.takeWhile Char.isDigit with
      -- the point is left for the next token
      | [] => whole
      | fraction => whole ++ '.' :: fraction
    | _ => whole

/-- The longest number at the front of a text; empty if there is none. A minus sign
    belongs to it only with a digit behind it. -/
def numberText : List Char → List Char
  | '-' :: rest =>
    match unsignedText rest with
    | [] => []
    | digits => '-' :: digits
  | text => unsignedText text

/-- The value of a number without its sign. Without a point it is an integer if it fits
    64 bits, signed, and otherwise the nearest double; none if that is infinite. -/
def unsignedValue (negative : Bool) (text : List Char) : Option Number :=
  let whole := text.takeWhile Char.isDigit
  let (fraction, _) := Decimal.readFraction (text.dropWhile Char.isDigit)
  let n := Decimal.digitsValue whole
  if fraction = [] ∧ (if negative then n ≤ 2 ^ 63 else n < 2 ^ 63) then
    some (.integer (if negative then -n else n))
  else
    match (Decimal.ofDigits negative whole fraction 0).nearest with
    | .finite x => some (.double x)
    | _ => none

/-- The value of a number literal. -/
def numberValue : List Char → Option Number
  | '-' :: rest => unsignedValue true rest
  | text => unsignedValue false text

/-! ## Strings -/

/-- The characters behind an opening quote up to the next quote of its kind, that one
    included; none if the string does not end. A backslash takes the next character
    with it. -/
def stringBody (quote : Char) : List Char → Option (List Char)
  | [] => none
  | '\\' :: c :: rest => (stringBody quote rest).map fun body => '\\' :: c :: body
  | c :: rest =>
    if c = quote then some [c] else (stringBody quote rest).map fun body => c :: body

/-- What a character behind a backslash stands for. -/
def escaped (c : Char) : Char :=
  if c = 'n' then '\n' else if c = 't' then '\t' else if c = 'r' then '\r' else c

/-- The characters that the inside of a string stands for. -/
def unescape : List Char → List Char
  | '\\' :: c :: rest => escaped c :: unescape rest
  | c :: rest => c :: unescape rest
  | [] => []

/-! ## Names -/

/-- A character that may begin a name. -/
def isNameStart (c : Char) : Bool := isLetter c || c == '_' || c == '$'

/-- A character that may stand in a name. -/
def isNameChar (c : Char) : Bool := isLetter c || isNumeric c || c == '_' || c == '$'

/-- The rest of a name: name characters, and points with a name character behind them. -/
def nameTail : List Char → List Char
  | [] => []
  | c :: rest =>
    if isNameChar c then c :: nameTail rest
    else if c = '.' ∧ (rest.head?.any isNameChar) then c :: nameTail rest
    else []

/-- The longest name at the front of a text; empty if there is none. -/
def nameText : List Char → List Char
  | [] => []
  | c :: rest => if isNameStart c then c :: nameTail rest else []

/-- What a name denotes: three whole names are literals. -/
def nameKind (lexeme : List Char) : TokenKind :=
  match String.ofList lexeme with
  | "true" => .boolean true
  | "false" => .boolean false
  | "null" => .null
  | path => .name path

/-! ## Lexemes -/

/-- The symbol at the front of a text. -/
def symbol? (text : List Char) : Option Lexeme :=
  (TokenKind.symbols.find? fun s => s.1.toList.isPrefixOf text).map
    fun s => ⟨s.1.toList, s.2⟩

/-- The lexeme at the front of a text that is not empty and does not begin with a
    blank, or the fault at its position. -/
def next (position : Nat) (first : Char) (rest : List Char) : Except Fault Lexeme :=
  if first = '"' ∨ first = '\'' then
    match stringBody first rest with
    | some body =>
      .ok ⟨first :: body, .string (String.ofList (unescape body.dropLast))⟩
    | none => .error (.unterminatedString position)
  else
    -- no other class begins with a digit or a minus sign
    match numberText (first :: rest) with
    | c :: digits =>
      match numberValue (c :: digits) with
      | some n => .ok ⟨c :: digits, .number n⟩
      | none => .error (.invalidNumber (String.ofList (c :: digits)) position)
    | [] =>
      match nameText (first :: rest) with
      | c :: name => .ok ⟨c :: name, nameKind (c :: name)⟩
      | [] =>
        match symbol? (first :: rest) with
        | some lexeme => .ok lexeme
        | none => .error (.unexpectedCharacter first position)

/-! ## Lexemes are front parts -/

theorem unsignedText_isPrefix (text : List Char) : unsignedText text <+: text := by
  unfold unsignedText
  split
  · exact List.nil_prefix
  · rename_i whole _
    split
    · rename_i rest hrest
      split
      · exact List.takeWhile_prefix _
      · conv => rhs; rw [← List.takeWhile_append_dropWhile (p := Char.isDigit) (l := text), hrest]
        rw [List.prefix_append_right_inj, List.cons_prefix_cons]
        exact ⟨rfl, List.takeWhile_prefix _⟩
    · exact List.takeWhile_prefix _

theorem numberText_isPrefix (text : List Char) : numberText text <+: text := by
  unfold numberText
  split
  · rename_i rest
    have h := unsignedText_isPrefix rest
    split
    · exact List.nil_prefix
    · rename_i digits hdigits
      exact List.cons_prefix_cons.2 ⟨rfl, h⟩
  · exact unsignedText_isPrefix text

theorem stringBody_isPrefix {quote : Char} {text body : List Char}
    (h : stringBody quote text = some body) : body ≠ [] ∧ body <+: text := by
  fun_induction stringBody quote text generalizing body with
  | case1 => simp at h
  | case2 c rest ih =>
    obtain ⟨inner, hinner, rfl⟩ := Option.map_eq_some_iff.1 h
    simpa [List.cons_prefix_cons] using (ih hinner).2
  | case3 rest _ =>
    simp at h
    simp [← h]
  | case4 c rest _ _ ih =>
    obtain ⟨inner, hinner, rfl⟩ := Option.map_eq_some_iff.1 h
    simpa [List.cons_prefix_cons] using (ih hinner).2

theorem nameTail_isPrefix (text : List Char) : nameTail text <+: text := by
  fun_induction nameTail text with
  | case1 => exact List.nil_prefix
  | case2 c rest _ ih => exact List.cons_prefix_cons.2 ⟨rfl, ih⟩
  | case3 c rest _ _ ih => exact List.cons_prefix_cons.2 ⟨rfl, ih⟩
  | case4 => exact List.nil_prefix

theorem nameText_isPrefix (text : List Char) : nameText text <+: text := by
  unfold nameText
  split
  · exact List.nil_prefix
  · split
    · exact List.cons_prefix_cons.2 ⟨rfl, nameTail_isPrefix _⟩
    · exact List.nil_prefix

theorem symbols_ne_nil : ∀ s ∈ TokenKind.symbols, s.1.toList ≠ [] := by decide

theorem symbol?_isPrefix {text : List Char} {lexeme : Lexeme} (h : symbol? text = some lexeme) :
    lexeme.text ≠ [] ∧ lexeme.text <+: text := by
  obtain ⟨s, hs, heq⟩ := Option.map_eq_some_iff.1 h
  subst heq
  refine ⟨symbols_ne_nil s (List.mem_of_find?_eq_some hs), ?_⟩
  simpa using List.find?_some hs

/-- A lexeme is a non-empty front part of the text it is taken from. -/
theorem next_isPrefix {position : Nat} {first : Char} {rest : List Char} {lexeme : Lexeme}
    (h : next position first rest = .ok lexeme) :
    lexeme.text ≠ [] ∧ lexeme.text <+: first :: rest := by
  have hnumber := numberText_isPrefix (first :: rest)
  have hname := nameText_isPrefix (first :: rest)
  unfold next at h
  split at h
  · split at h
    · rename_i body hbody
      cases h
      exact ⟨by simp, List.cons_prefix_cons.2 ⟨rfl, (stringBody_isPrefix hbody).2⟩⟩
    · cases h
  · split at h
    · rename_i c digits hdigits
      split at h
      · cases h
        exact ⟨by simp, hdigits ▸ hnumber⟩
      · cases h
    · split at h
      · rename_i c name hc
        cases h
        exact ⟨by simp, hc ▸ hname⟩
      · split at h
        · rename_i found hfound
          cases h
          exact symbol?_isPrefix hfound
        · cases h

end Lexeme

end FormRules
