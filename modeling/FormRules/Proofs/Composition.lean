/-
  FormRules.Proofs.Composition

  Rules put together as text.

  What is taken from the front of a text stays the same when something is put behind the text
  that no lexeme goes on with (`next_append`): a number may end in front of a point that is
  left over, but a character behind the text does not change this. So a text that is split
  into tokens is split in the same way in front of a parenthesis or a comma
  (`ScansTo.behind`), and a source between parentheses brings its own tokens and leaves those
  around it alone.

  The grammar derives a phrase between parentheses with one more level of nesting, whatever
  is inside. The rest is counting: an operator or a call costs one level of height, `!` with
  its parentheses two of nesting.

  Main statement: `parse_composed`.
-/

import FormRules.Proofs.Rendering
import Mathlib.Data.List.Forall2

namespace FormRules

/-! ## Lexemes in front of other texts -/

namespace Lexeme

section Runs

variable {p : Char → Bool} {rest : List Char} (hrest : ∀ c ∈ rest.head?, p c = false)
include hrest

/-- A run of characters does not reach into a text that does not begin with one of them. -/
theorem takeWhile_append_of_head (text : List Char) :
    (text ++ rest).takeWhile p = text.takeWhile p := by
  induction text with
  | nil => exact takeWhile_run (List.forall_mem_nil _) hrest
  | cons c text ih =>
    rw [List.cons_append, List.takeWhile_cons, List.takeWhile_cons, ih]

theorem dropWhile_append_of_head (text : List Char) :
    (text ++ rest).dropWhile p = text.dropWhile p ++ rest := by
  induction text with
  | nil => exact dropWhile_run (List.forall_mem_nil _) hrest
  | cons c text ih =>
    rw [List.cons_append, List.dropWhile_cons, List.dropWhile_cons, ih]
    split <;> rfl

end Runs

section Append

variable {rest : List Char}

/-- The longest number at the front stays the same, even where it ends at a point. -/
theorem unsignedText_append_of_ends (hrest : EndsNumber rest) (text : List Char) :
    unsignedText (text ++ rest) = unsignedText text := by
  have hdigit : ∀ c ∈ rest.head?, c.isDigit = false := fun c hc => (hrest c hc).1
  unfold unsignedText
  rw [takeWhile_append_of_head hdigit, dropWhile_append_of_head hdigit]
  cases text.dropWhile Char.isDigit with
  | nil =>
    cases rest with
    | nil => rfl
    | cons c rest =>
      have hpoint : c ≠ '.' := (hrest c rfl).2
      simp [hpoint]
  | cons c others =>
    by_cases hpoint : c = '.'
    · subst hpoint
      simp only [List.cons_append, takeWhile_append_of_head hdigit]
    · simp [hpoint]

theorem numberText_append_of_ends (hrest : EndsNumber rest) (first : Char) (tail : List Char) :
    numberText (first :: (tail ++ rest)) = numberText (first :: tail) := by
  by_cases hminus : first = '-'
  · rw [hminus, numberText, numberText, unsignedText_append_of_ends hrest]
  · rw [numberText_eq_unsignedText (by simpa using hminus),
      numberText_eq_unsignedText (by simpa using hminus), ← List.cons_append,
      unsignedText_append_of_ends hrest]

theorem nameTail_append_of_ends (hrest : EndsName rest) (tail : List Char) :
    nameTail (tail ++ rest) = nameTail tail := by
  have hhead : rest.head?.any isNameChar = false := by
    cases rest with
    | nil => rfl
    | cons c rest => exact (hrest c rfl).1
  induction tail with
  | nil => exact nameTail_append .nil hrest
  | cons c tail ih =>
    have hnext : (tail ++ rest).head?.any isNameChar = tail.head?.any isNameChar := by
      cases tail with
      | nil => exact hhead
      | cons d tail => rfl
    rw [List.cons_append, nameTail, nameTail, ih, hnext]

theorem nameText_append_of_ends (hrest : EndsName rest) (first : Char) (tail : List Char) :
    nameText (first :: (tail ++ rest)) = nameText (first :: tail) := by
  rw [nameText, nameText, nameTail_append_of_ends hrest]

/-- What a symbol has in common with a longer one is followed by equals signs there. -/
theorem symbols_behind : ∀ s ∈ TokenKind.symbols, ∀ longer ∈ TokenKind.symbols,
    s.1.toList <+: longer.1.toList →
      (longer.1.toList.drop s.1.toList.length).all (· == '=') = true := by
  decide

/-- A symbol at the front of a text stays the one that is found. -/
theorem symbol?_append_of_some (hrest : EndsSymbol rest) {text : List Char} {lexeme : Lexeme}
    (h : symbol? text = some lexeme) : symbol? (text ++ rest) = some lexeme := by
  obtain ⟨s, hfind, rfl⟩ := Option.map_eq_some_iff.1 h
  suffices hfind' : (TokenKind.symbols.find? fun s => s.1.toList.isPrefixOf (text ++ rest)) =
      some s by
    rw [symbol?, hfind']
    rfl
  have hs : s ∈ TokenKind.symbols := List.mem_of_find?_eq_some hfind
  rw [List.find?_eq_some_iff_append] at hfind ⊢
  obtain ⟨hfront, before, behind, hsymbols, hnone⟩ := hfind
  have hfront : s.1.toList <+: text := List.isPrefixOf_iff_prefix.1 hfront
  have hlonger : s.1.toList <+: text ++ rest := hfront.trans (List.prefix_append _ _)
  refine ⟨List.isPrefixOf_iff_prefix.2 hlonger, before, behind, hsymbols, fun other hother => ?_⟩
  -- a symbol that is looked for earlier would have to reach into the rest
  have hmem : other ∈ TokenKind.symbols := by
    rw [hsymbols]
    exact List.mem_append_left _ hother
  have hnot : ¬other.1.toList <+: text := by
    intro hother'
    have hfalse := hnone other hother
    rw [List.isPrefixOf_iff_prefix.2 hother'] at hfalse
    cases hfalse
  suffices hnot' : ¬other.1.toList <+: text ++ rest by
    simpa [← List.isPrefixOf_iff_prefix] using hnot'
  intro hother'
  rcases List.prefix_or_prefix_of_prefix hother' (List.prefix_append text rest) with hle | hle
  · exact hnot hle
  · obtain ⟨back, hback⟩ := hle
    obtain ⟨middle, rfl⟩ := hfront
    cases back with
    | nil => exact hnot ⟨[], by rw [← hback, List.append_nil, List.append_nil]⟩
    | cons c back =>
      have hother : other.1.toList = s.1.toList ++ (middle ++ c :: back) := by
        rw [← hback, List.append_assoc]
      have hequals := symbols_behind s hs other hmem ⟨middle ++ c :: back, hother.symm⟩
      rw [hother, List.drop_left] at hequals
      have hc : c = '=' := by
        simpa using List.all_eq_true.1 hequals c (List.mem_append_right _ List.mem_cons_self)
      have hhead : c :: back <+: rest := by
        rw [← hback] at hother'
        exact (List.prefix_append_right_inj _).1 hother'
      obtain ⟨others, rfl⟩ := hhead
      exact hrest c rfl hc

/-- A string that ends within a text ends there in every longer text. -/
theorem stringBody_append_of_some {quote : Char} (hquote : quote ≠ '\\') {text body : List Char}
    (h : stringBody quote text = some body) : stringBody quote (text ++ rest) = some body := by
  obtain ⟨-, others, hothers⟩ := stringBody_isPrefix h
  rw [← hothers, List.append_assoc]
  exact stringBody_append hquote h _

/-- The lexeme at the front of a text is the one at the front of every longer text, if no
    lexeme goes on with what is put behind it. -/
theorem next_append (hrest : Closes rest) {position : Nat} {first : Char} {tail : List Char}
    {lexeme : Lexeme} (h : next position first tail = .ok lexeme) (position' : Nat) :
    next position' first (tail ++ rest) = .ok lexeme := by
  have hnumber := numberText_append_of_ends (hrest.endsBefore (.number (.integer 0))) first tail
  have hname := nameText_append_of_ends (hrest.endsBefore .null) first tail
  unfold next at h ⊢
  rw [hnumber, hname]
  by_cases hquote : first = '"' ∨ first = '\''
  · have hescape := (not_blank_of_quote hquote).2
    rw [if_pos hquote] at h ⊢
    cases hbody : stringBody first tail with
    | none =>
      rw [hbody] at h
      cases h
    | some body =>
      rw [hbody] at h
      rw [stringBody_append_of_some hescape hbody]
      exact h
  · rw [if_neg hquote] at h ⊢
    -- only the faults name a position
    cases hdigits : numberText (first :: tail) with
    | cons c digits =>
      simp only [hdigits] at h ⊢
      cases hvalue : numberValue (c :: digits) with
      | none =>
        simp only [hvalue] at h
        cases h
      | some n =>
        simp only [hvalue] at h ⊢
        exact h
    | nil =>
      simp only [hdigits] at h ⊢
      cases hletters : nameText (first :: tail) with
      | cons c name =>
        simp only [hletters] at h ⊢
        exact h
      | nil =>
        simp only [hletters] at h ⊢
        cases hsymbol : symbol? (first :: tail) with
        | none =>
          simp only [hsymbol] at h
          cases h
        | some found =>
          have hfound := symbol?_append_of_some (hrest.endsBefore .comma) hsymbol
          rw [List.cons_append] at hfound
          simp only [hsymbol, hfound] at h ⊢
          exact h

end Append

end Lexeme

/-! ## Tokens in front of other texts -/

namespace Tokens

open Grammar Lexeme

section Behind

variable {rest : List Char} {others : List TokenKind} (hcloses : Closes rest)
  (hrest : ScansTo rest others)
include hcloses hrest

/-- The tokens of a text stay the same in front of every text that no lexeme goes on with. -/
theorem scansTo_behind_scanFrom {position : Nat} {text : List Char} {tokens : Tokens}
    (h : scanFrom position text = .ok tokens) :
    ScansTo (text ++ rest) (kinds tokens.list ++ others) := by
  -- by the recursion of the scan, of which two cases are faults
  fun_induction scanFrom position text generalizing tokens with
  | case1 position text =>
    rename_i hblank
    cases h
    have hall : ∀ c ∈ text, isBlank c := by
      rw [← takeWhile_eq_of_dropWhile hblank]
      exact List.all_eq_true.1 List.all_takeWhile
    exact hrest.blanks hall
  | case2 => cases h
  | case3 => cases h
  | case4 position text start first tail htext lexeme hlexeme tokens' hothers =>
    rename_i ih
    cases h
    -- the blanks, the lexeme, and what is split behind the lexeme
    have hfirst : isBlank first = false := by
      have hhead := List.head?_dropWhile_not isBlank text
      rw [htext] at hhead
      simpa using hhead
    have hlength : lexeme.text.length ≤ (first :: tail).length :=
      (next_isPrefix hlexeme).2.length_le
    have hbehind := ih hothers
    rw [← List.drop_append_of_le_length hlength] at hbehind
    have hscan := ScansTo.next hfirst (next_append hcloses hlexeme) hbehind
    have hsplit : text ++ rest = text.takeWhile isBlank ++ (first :: (tail ++ rest)) := by
      rw [← List.cons_append, ← htext, ← List.append_assoc, List.takeWhile_append_dropWhile]
    rw [hsplit]
    exact hscan.blanks (List.all_eq_true.1 List.all_takeWhile)

end Behind

theorem ScansTo.behind {text rest : List Char} {all others : List TokenKind}
    (h : ScansTo text all) (hcloses : Closes rest) (hrest : ScansTo rest others) :
    ScansTo (text ++ rest) (all ++ others) := by
  obtain ⟨tokens, hok, rfl⟩ := h 0
  exact scansTo_behind_scanFrom hcloses hrest hok

/-- It does not matter where a text begins. -/
theorem scansTo_of_scan {source : String} {tokens : Tokens} (h : scan source = .ok tokens) :
    ScansTo source.toList (kinds tokens.list) := by
  have hnil : Closes [] := nofun
  have hbehind := scansTo_behind_scanFrom hnil scansTo_nil h
  rwa [List.append_nil, List.append_nil] at hbehind

/-- Between parentheses a text brings its own tokens, and behind them those of what follows. -/
theorem ScansTo.group {text rest : List Char} {all others : List TokenKind} (h : ScansTo text all)
    (hrest : ScansTo rest others) :
    ScansTo ('(' :: (text ++ ')' :: rest)) (.opening :: (all ++ .closing :: others)) := by
  have hclosing : ScansTo (')' :: rest) (.closing :: others) := hrest.mark (by decide)
  exact (h.behind (closes_cons (by decide) rest) hclosing).mark (by decide)

/-- Texts with commas between them. -/
theorem ScansTo.separated {texts : List (List Char)} {lists : List (List TokenKind)}
    (h : List.Forall₂ ScansTo texts lists) {rest : List Char} {others : List TokenKind}
    (hcloses : Closes rest) (hrest : ScansTo rest others) :
    ScansTo ([',', ' '].intercalate texts ++ rest) (Grammar.separated lists ++ others) := by
  induction h with
  | nil => exact hrest
  | @cons text all texts lists hfirst hothers ih =>
    cases hothers with
    | nil =>
      rw [List.intercalate_singleton]
      exact hfirst.behind hcloses hrest
    | @cons text' all' texts lists hsecond hothers =>
      have hcomma : ScansTo (',' :: ' ' :: _) (.comma :: _) :=
        (ih.blank (c := ' ') (by decide)).mark (by decide)
      have hwhole := hfirst.behind (closes_cons (by decide) _) hcomma
      rw [List.intercalate_cons_cons, separated_cons _ (List.cons_ne_nil _ _)]
      simpa using hwhole

end Tokens

namespace Expression

open Grammar Lexeme Tokens

/-! ## Rules -/

/-- A source that is not blank, and what it is read as. -/
def ReadsAs (limit : Nat) (source : String) (tree : Expression) : Prop :=
  source.toList.all isBlank = false ∧ parse limit source = .ok tree

/-- A source is read as a tree if and only if its tokens are derived with the tree, within the
    limit. -/
theorem readsAs_iff {limit : Nat} {source : String} {tree : Expression} :
    ReadsAs limit source tree ↔
      ∃ all nesting, ScansTo source.toList all ∧ Derives .disjunction all tree nesting ∧
        nesting ≤ limit ∧ tree.height ≤ limit := by
  constructor
  · rintro ⟨hblank, hparse⟩
    obtain ⟨tokens, hscan⟩ := exists_scan_of_parse hparse
    rw [parse_eq_ofTokens hblank hscan, ofTokens_eq_ok_iff] at hparse
    obtain ⟨nesting, hderives, hlimit⟩ := hparse
    exact ⟨_, nesting, scansTo_of_scan hscan, hderives, hlimit⟩
  · rintro ⟨all, nesting, hscan, hderives, hlimit⟩
    obtain ⟨tokens, hok, rfl⟩ := hscan 0
    have hblank := not_blank_of_scan hok hderives.kinds_ne_nil
    refine ⟨hblank, ?_⟩
    rw [parse_eq_ofTokens hblank hok, ofTokens_eq_ok_iff]
    exact ⟨nesting, hderives, hlimit⟩

section Compose

variable {limit : Nat}

/-- Two rules in parentheses with an operator between them. -/
theorem ReadsAs.join {tier : Tier} {operator : TokenKind}
    {node : Expression → Expression → Expression} (hnode : Joins tier operator node)
    {spelling left right : String} (hspelling : Denotes spelling.toList operator)
    {first second : Expression} (hleft : ReadsAs limit left first)
    (hright : ReadsAs limit right second) :
    ReadsAs (limit + 1) ("(" ++ left ++ ") " ++ spelling ++ " (" ++ right ++ ")")
      (node first second) := by
  obtain ⟨front, m, hfront, hfirst, hm, hheight⟩ := readsAs_iff.1 hleft
  obtain ⟨back, n, hback, hsecond, hn, hheight'⟩ := readsAs_iff.1 hright
  -- from the back: the right operand, a blank, the operator, a blank, the left operand
  have hgroup := (hback.group scansTo_nil).blank (c := ' ') (by decide)
  have hoperator := hgroup.lexeme hspelling ((closes_cons (by decide) _).endsBefore operator)
  have hscan := hfront.group (hoperator.blank (c := ' ') (by decide))
  obtain ⟨inner, hinner⟩ := hnode.exists_operands
  have hgroupLeft : Derives tier (.opening :: (front ++ [.closing])) first (m + 1) :=
    (Derives.group hfirst).loosen (by cases tier <;> decide)
  have hgroupRight : Derives inner (.opening :: (back ++ [.closing])) second (n + 1) :=
    (Derives.group hsecond).loosen (by cases inner <;> decide)
  -- the parentheses nest either side once more, and the node is one higher than its operands
  have hderives := Derives.join hinner hnode hgroupLeft hgroupRight
  refine readsAs_iff.2 ⟨_, _, ?_, hderives.loosen (Nat.zero_le _), ?_, ?_⟩
  · simpa using hscan
  · omega
  · rw [hnode.height_eq]
    omega

/-- A rule in parentheses behind `!`. -/
theorem ReadsAs.negation {source : String} {tree : Expression} (h : ReadsAs limit source tree) :
    ReadsAs (limit + 2) ("!(" ++ source ++ ")") (.negation tree) := by
  obtain ⟨all, nesting, hscan, hderives, hnesting, hheight⟩ := readsAs_iff.1 h
  have hnegation : Denotes ['!'] .negation := .symbol (s := ("!", .negation)) (by decide)
  have hwhole := (hscan.group scansTo_nil).lexeme hnegation
    ((closes_cons (by decide) _).endsBefore .negation)
  -- one level for the parentheses and one for `!`, but only one node
  have htree := Derives.negation (Derives.group hderives)
  refine readsAs_iff.2 ⟨_, _, ?_, htree.loosen (Nat.zero_le _), ?_, ?_⟩
  · simpa using hwhole
  · omega
  · rw [height]
    omega

/-- The arguments of a call, each with its tokens and its nesting. -/
theorem exists_arguments {sources : List String} {trees : List Expression}
    (h : List.Forall₂ (ReadsAs limit) sources trees) :
    ∃ arguments : List Argument, arguments.map Argument.tree = trees ∧
      List.Forall₂ ScansTo (sources.map String.toList) (arguments.map Argument.kinds) ∧
      (∀ argument ∈ arguments,
        Derives .disjunction argument.kinds argument.tree argument.nesting) ∧
      Argument.deepest arguments ≤ limit ∧ heightAll trees ≤ limit := by
  induction h with
  | nil => exact ⟨[], rfl, .nil, List.forall_mem_nil _, Nat.zero_le _, Nat.zero_le _⟩
  | @cons source tree sources trees hread _ ih =>
    obtain ⟨all, nesting, hscan, hderives, hnesting, hheight⟩ := readsAs_iff.1 hread
    obtain ⟨arguments, rfl, hscans, hall, hdeepest, hheights⟩ := ih
    refine ⟨⟨all, tree, nesting⟩ :: arguments, rfl, .cons hscan hscans,
      List.forall_mem_cons.2 ⟨hderives, hall⟩, ?_, ?_⟩
    · exact Nat.max_le.2 ⟨hnesting, hdeepest⟩
    · exact Nat.max_le.2 ⟨hheight, hheights⟩

/-- Any number of rules as the arguments of a call. -/
theorem ReadsAs.call {function : String} (hfunction : IsPath function) {sources : List String}
    {trees : List Expression} (h : List.Forall₂ (ReadsAs limit) sources trees) :
    ReadsAs (limit + 1) (function ++ "(" ++ ", ".intercalate sources ++ ")")
      (.call function trees) := by
  obtain ⟨arguments, rfl, hscans, hall, hdeepest, hheights⟩ := exists_arguments h
  have hclosing : ScansTo [')'] [.closing] := scansTo_nil.mark (by decide)
  have hinside := ScansTo.separated hscans (closes_cons (by decide) []) hclosing
  have hopening : ScansTo ('(' :: _) (.opening :: _) := hinside.mark (by decide)
  have hname : Denotes function.toList (.name function) := denotes_name_iff.2 ⟨rfl, hfunction⟩
  have hwhole := hopening.lexeme hname ((closes_cons (by decide) _).endsBefore (.name function))
  have htree := @Derives.call function arguments hall
  refine readsAs_iff.2 ⟨_, _, ?_, htree.loosen (Nat.zero_le _), ?_, ?_⟩
  · simpa [String.toList_intercalate] using hwhole
  · omega
  · rw [height]
    omega

end Compose

/-- Every operator is spelled as it is written. -/
theorem denotes_comparison (op : Comparison) :
    Denotes op.spelling.toList (.comparison op) := by
  have hall : ∀ op ∈ Comparison.all,
      (op.spelling, TokenKind.comparison op) ∈ TokenKind.symbols := by
    decide
  exact .symbol (hall op (by cases op <;> decide))

theorem denotes_connective (op : Connective) :
    Denotes op.spelling.toList (.connective op) := by
  cases op
  · exact .symbol (s := ("&&", .connective .and)) (by decide)
  · exact .symbol (s := ("||", .connective .or)) (by decide)

/-- Rules can be put together as text. From rules that are read within a limit, an operator
    between two of them in parentheses makes the node over both within a limit that is one
    higher, `!` in front of one in parentheses makes its negation within two more, and a name
    in front of any number of them, with commas between them and parentheses around, makes
    the call with these arguments within one more. In whatever text it is put, a source
    between parentheses brings its own tokens, and all others stay. -/
theorem parse_composed :
    (∀ limit left right first second,
      ReadsAs limit left first → ReadsAs limit right second →
      (∀ op : Comparison, parse (limit + 1)
        ("(" ++ left ++ ") " ++ op.spelling ++ " (" ++ right ++ ")") =
          .ok (.comparison op first second)) ∧
      ∀ op : Connective, parse (limit + 1)
        ("(" ++ left ++ ") " ++ op.spelling ++ " (" ++ right ++ ")") =
          .ok (.connective op first second)) ∧
    (∀ limit source tree, ReadsAs limit source tree →
      parse (limit + 2) ("!(" ++ source ++ ")") = .ok (.negation tree)) ∧
    (∀ limit function sources trees, IsPath function →
      List.Forall₂ (ReadsAs limit) sources trees →
      parse (limit + 1) (function ++ "(" ++ ", ".intercalate sources ++ ")") =
        .ok (.call function trees)) ∧
    ∀ before source behind front tokens back, scan before = .ok front →
      scan source = .ok tokens → scan behind = .ok back →
      ∃ whole, scan (before ++ "(" ++ source ++ ")" ++ behind) = .ok whole ∧
        kinds whole.list =
          kinds front.list ++ .opening :: (kinds tokens.list ++ .closing :: kinds back.list) := by
  refine ⟨fun limit left right first second hleft hright => ⟨fun op => ?_, fun op => ?_⟩,
    ?_, ?_, ?_⟩
  · exact (ReadsAs.join op.joins (denotes_comparison op) hleft hright).2
  · exact (ReadsAs.join op.joins (denotes_connective op) hleft hright).2
  · exact fun limit source tree h => h.negation.2
  · exact fun limit function sources trees hfunction h => (ReadsAs.call hfunction h).2
  · intro before source behind front tokens back hbefore hsource hbehind
    have hinside := (scansTo_of_scan hsource).group (scansTo_of_scan hbehind)
    have hwhole := (scansTo_of_scan hbefore).behind (closes_cons (by decide) _) hinside
    obtain ⟨whole, hok, hkinds⟩ := hwhole 0
    refine ⟨whole, ?_, hkinds⟩
    rw [scan, ← hok]
    simp

/-- A disjunction and a negation, joined, negated, as arguments and behind other text. -/
theorem parse_composed_disjunction :
    let first : Expression := .connective .or (.path "a") (.path "b")
    let second : Expression := .negation (.path "c")
    (ReadsAs 2 "a || b" first ∧ ReadsAs 2 "!c" second ∧ IsPath "f") ∧
      parse 3 "(a || b) && (!c)" = .ok (.connective .and first second) ∧
      parse 4 "!(a || b)" = .ok (.negation first) ∧
      parse 3 "f(a || b, !c)" = .ok (.call "f" [first, second]) ∧
      ∃ whole, scan "!(a || b) && c" = .ok whole ∧
        kinds whole.list = [.negation, .opening, .name "a", .connective .or, .name "b", .closing,
          .connective .and, .name "c"] := by
  intro first second
  obtain ⟨hjoined, hnegated, hcalled, hscanned⟩ := parse_composed
  have hfirst : ReadsAs 2 "a || b" first := ⟨by decide, by with_unfolding_all rfl⟩
  have hsecond : ReadsAs 2 "!c" second := ⟨by decide, by with_unfolding_all rfl⟩
  have hpath : IsPath "f" := ⟨isName_of_nameText (by decide) (by decide), by decide⟩
  have hbefore : scan "!" = .ok ⟨[⟨.negation, 0⟩], 1⟩ := by with_unfolding_all rfl
  have hsource : scan "a || b" =
      .ok ⟨[⟨.name "a", 0⟩, ⟨.connective .or, 2⟩, ⟨.name "b", 5⟩], 6⟩ := by
    with_unfolding_all rfl
  have hbehind : scan " && c" = .ok ⟨[⟨.connective .and, 1⟩, ⟨.name "c", 4⟩], 5⟩ := by
    with_unfolding_all rfl
  have hboth : "(" ++ "a || b" ++ ") " ++ Connective.and.spelling ++ " (" ++ "!c" ++ ")" =
      "(a || b) && (!c)" := by decide
  have hcall : "f" ++ "(" ++ ", ".intercalate ["a || b", "!c"] ++ ")" = "f(a || b, !c)" := by
    decide
  have hnot : "!(" ++ "a || b" ++ ")" = "!(a || b)" := by decide
  have hwhole : "!" ++ "(" ++ "a || b" ++ ")" ++ " && c" = "!(a || b) && c" := by decide
  refine ⟨⟨hfirst, hsecond, hpath⟩, ?_, ?_, ?_, ?_⟩
  · rw [← hboth]
    exact (hjoined 2 _ _ _ _ hfirst hsecond).2 .and
  · rw [← hnot]
    exact hnegated 2 _ _ hfirst
  · rw [← hcall]
    exact hcalled 2 "f" _ _ hpath (.cons hfirst (.cons hsecond .nil))
  · rw [← hwhole]
    exact hscanned _ _ _ _ _ _ hbefore hsource hbehind

end Expression

end FormRules
