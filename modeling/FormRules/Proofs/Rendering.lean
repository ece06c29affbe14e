/-
  FormRules.Proofs.Rendering

  Trees written back as sources. Each token of a tree is spelled as some lexeme, with
  blanks around binary operators and behind commas only: `Derives.scansBack` states that
  the lexemes of a derived phrase never run into each other.

  Main statement: `parse_render`, a rendered tree is read back within every limit that
  the tree itself keeps, and nothing but such trees is ever read.
-/

import FormRules.Proofs.Recognition
import FormRules.Proofs.Scanning
import FormRules.Proofs.Writing

namespace FormRules

open Grammar Lexeme

/-! ## Spelling tokens -/

/-- A token with its blanks: a binary operator has one on both sides, a comma one behind
    it. -/
def padded : TokenKind → List Char → List Char
  | .comparison _, text | .connective _, text => ' ' :: (text ++ [' '])
  | .comma, text => text ++ [' ']
  | _, text => text

theorem padded_opening (text : List Char) : padded .opening text = text := rfl

/-- Some tokens in a row, each spelled in its way. -/
def spelled (spell : TokenKind → List Char) (all : List TokenKind) : List Char :=
  all.flatMap fun kind => padded kind (spell kind)

/-- Every token is spelled as a lexeme that stands for it. -/
def Spells (spell : TokenKind → List Char) (all : List TokenKind) : Prop :=
  ∀ kind ∈ all, Denotes (spell kind) kind

/-- The spelled tokens are read back, in front of everything that no lexeme goes on
    with. -/
def ScansBack (spell : TokenKind → List Char) (all : List TokenKind) : Prop :=
  ∀ rest others, Tokens.ScansTo rest others → Closes rest →
    Tokens.ScansTo (spelled spell all ++ rest) (all ++ others)

/-- A phrase begins with an operand. -/
theorem Grammar.Derives.startsOperand {tier : Tier} {all : List TokenKind} {tree : Expression}
    {nesting : Nat} (h : Derives tier all tree nesting) :
    ∀ kind ∈ all.head?, Grammar.startsOperand kind := by
  obtain ⟨first, tail, rfl, hfirst⟩ := h.exists_eq_cons
  simpa using hfirst

section Spelled

variable {spell : TokenKind → List Char}

theorem spelled_cons (kind : TokenKind) (all : List TokenKind) :
    spelled spell (kind :: all) = padded kind (spell kind) ++ spelled spell all :=
  List.flatMap_cons

theorem spelled_append (front back : List TokenKind) :
    spelled spell (front ++ back) = spelled spell front ++ spelled spell back :=
  List.flatMap_append

/-- No operand begins with an equals sign. -/
theorem endsSymbol_of_startsOperand {kind : TokenKind} (hkind : startsOperand kind)
    {text : List Char} (h : Denotes text kind) (rest : List Char) : EndsSymbol (text ++ rest) := by
  have hequals : ∀ c ∈ text.head?, c ≠ '=' := by
    rintro c hc rfl
    cases h with
    | number h =>
      obtain ⟨first, tail, rfl, hfirst⟩ := h.exists_eq_cons
      obtain rfl : first = '=' := by simpa using hc
      simp at hfirst
    | string hquote =>
      simp only [List.head?_cons, Option.mem_some_iff] at hc
      subst hc
      simp at hquote
    | name h =>
      obtain ⟨first, tail, rfl, hfirst, -⟩ := h
      obtain rfl : first = '=' := by simpa using hc
      exact absurd hfirst (by decide)
    | @symbol s hs =>
      have hsymbols : ∀ s ∈ TokenKind.symbols, startsOperand s.2 → s.1.toList.head? ≠ some '=' := by
        decide
      exact hsymbols s hs hkind hc
  have hnil : Closes [] := nofun
  obtain ⟨first, tail, rfl, -⟩ := next_of_denotes h (hnil.endsBefore kind)
  exact hequals

/-- A text that begins with an operand does not begin with an equals sign. -/
theorem endsSymbol_spelled {all : List TokenKind} (hall : ∀ kind ∈ all.head?, startsOperand kind)
    (hspell : Spells spell all) {rest : List Char} (hrest : EndsSymbol rest) :
    EndsSymbol (spelled spell all ++ rest) := by
  cases all with
  | nil => exact hrest
  | cons kind all =>
    have hkind : startsOperand kind := hall kind rfl
    have hpadded : padded kind (spell kind) = spell kind := by
      cases kind <;> first | rfl | cases hkind
    rw [spelled_cons, hpadded, List.append_assoc]
    exact endsSymbol_of_startsOperand hkind (hspell kind List.mem_cons_self) _

/-! ## Spelled tokens are read back -/

theorem scansBack_nil : ScansBack spell [] := fun _ _ h _ => h

/-- A single token. -/
theorem scansBack_word {kind : TokenKind} (hpadded : padded kind (spell kind) = spell kind)
    (hspell : Denotes (spell kind) kind) : ScansBack spell [kind] := by
  intro rest others hrest hcloses
  rw [spelled_cons, hpadded, spelled, List.flatMap_nil, List.append_nil]
  exact hrest.lexeme hspell (hcloses.endsBefore kind)

/-- A binary operator stands between blanks. -/
theorem ScansBack.join {operator : TokenKind} {front back : List TokenKind}
    (hpadded : padded operator (spell operator) = ' ' :: (spell operator ++ [' ']))
    (hoperator : Denotes (spell operator) operator) (hfront : ScansBack spell front)
    (hback : ScansBack spell back) : ScansBack spell (front ++ operator :: back) := by
  intro rest others hrest hcloses
  -- from the back: the right operand, a blank, the operator, a blank, the left operand
  have hbehind := (hback rest others hrest hcloses).blank (c := ' ') (by decide)
  have hsecond := hbehind.lexeme hoperator ((closes_cons (by decide) _).endsBefore operator)
  have hfirst := hfront _ _ (hsecond.blank (c := ' ') (by decide)) (closes_cons (by decide) _)
  simpa [spelled_append, spelled_cons, hpadded] using hfirst

/-- An operand behind `!`. -/
theorem ScansBack.negation {all : List TokenKind} (h : ScansBack spell all)
    (hall : ∀ kind ∈ all.head?, startsOperand kind) (hspell : Spells spell (.negation :: all)) :
    ScansBack spell (.negation :: all) := by
  intro rest others hrest hcloses
  obtain ⟨hnegation, hoperand⟩ := List.forall_mem_cons.1 hspell
  have hinner := h rest others hrest hcloses
  have hstart : EndsSymbol (spelled spell all ++ rest) :=
    endsSymbol_spelled hall hoperand (hcloses.endsBefore .negation)
  have hwhole := hinner.lexeme hnegation hstart
  simpa [spelled_cons, padded] using hwhole

/-- Tokens in parentheses. -/
theorem ScansBack.enclosed {all : List TokenKind} (h : ScansBack spell all)
    (hspell : Spells spell (.opening :: (all ++ [.closing]))) :
    ScansBack spell (.opening :: (all ++ [.closing])) := by
  intro rest others hrest hcloses
  simp only [Spells, List.forall_mem_cons, List.forall_mem_append] at hspell
  obtain ⟨hopening, -, hclosing, -⟩ := hspell
  have hleft : spell .opening = ['('] :=
    Denotes.eq_of_symbol (s := ("(", .opening)) (by decide) hopening
  have hright : spell .closing = [')'] :=
    Denotes.eq_of_symbol (s := (")", .closing)) (by decide) hclosing
  have hlast : Tokens.ScansTo (')' :: rest) (.closing :: others) := hrest.mark (by decide)
  have hinner := h _ _ hlast (closes_cons (by decide) _)
  have hwhole : Tokens.ScansTo ('(' :: _) (.opening :: _) := hinner.mark (by decide)
  simpa [spelled_cons, spelled_append, padded, hleft, hright, spelled] using hwhole

/-- A name in front of a parenthesis. -/
theorem ScansBack.name {function : String} {inside : List TokenKind}
    (h : ScansBack spell (.opening :: inside))
    (hname : Denotes (spell (.name function)) (.name function))
    (hopening : Denotes (spell .opening) .opening) :
    ScansBack spell (.name function :: .opening :: inside) := by
  intro rest others hrest hcloses
  have hinner := h rest others hrest hcloses
  have hparenthesis : spell .opening = ['('] :=
    Denotes.eq_of_symbol (s := ("(", .opening)) (by decide) hopening
  have hstart : Closes (spelled spell (.opening :: inside) ++ rest) := by
    rw [spelled_cons, padded_opening, hparenthesis]
    exact closes_cons (by decide) _
  have hwhole := hinner.lexeme hname (hstart.endsBefore (.name function))
  simpa [spelled_cons, padded] using hwhole

/-- Tokens with commas between them. -/
theorem scansBack_separated {lists : List (List TokenKind)}
    (h : ∀ all ∈ lists, Spells spell all → ScansBack spell all)
    (hspell : Spells spell (separated lists)) : ScansBack spell (separated lists) := by
  induction lists with
  | nil => exact scansBack_nil
  | cons all others ih =>
    obtain ⟨hall, hothers⟩ := List.forall_mem_cons.1 h
    by_cases hlast : others = []
    · subst hlast
      exact hall hspell
    · rw [separated_cons _ hlast] at hspell ⊢
      simp only [Spells, List.forall_mem_cons, List.forall_mem_append] at hspell
      obtain ⟨hfront, hcomma, hback⟩ := hspell
      have hsymbol : spell .comma = [','] :=
        Denotes.eq_of_symbol (s := (",", .comma)) (by decide) hcomma
      intro rest others' hrest hcloses
      have hbehind := (ih hothers hback rest others' hrest hcloses).blank (c := ' ') (by decide)
      have hsecond : Tokens.ScansTo (',' :: ' ' :: _) (.comma :: _) := hbehind.mark (by decide)
      have hfirst := hall hfront _ _ hsecond (closes_cons (by decide) _)
      simpa [spelled_append, spelled_cons, padded, hsymbol] using hfirst

/-- Every derived phrase is read back from its spellings. -/
theorem Grammar.Derives.scansBack {tier : Tier} {all : List TokenKind} {tree : Expression}
    {nesting : Nat} (h : Derives tier all tree nesting) (hspell : Spells spell all) :
    ScansBack spell all := by
  induction h with
  | operand _ _ ih => exact ih hspell
  | @join _ _ operator _ front back _ _ _ _ _ hnode _ _ ihleft ihright =>
    simp only [Spells, List.forall_mem_cons, List.forall_mem_append] at hspell
    obtain ⟨hfront, hoperator, hback⟩ := hspell
    have hpadded : padded operator (spell operator) = ' ' :: (spell operator ++ [' ']) := by
      cases hnode <;> rfl
    exact (ihleft hfront).join hpadded hoperator (ihright hback)
  | negation h ih =>
    exact (ih (List.forall_mem_cons.1 hspell).2).negation h.startsOperand hspell
  | @literal kind _ h =>
    refine scansBack_word ?_ (hspell kind List.mem_cons_self)
    cases kind <;> first | rfl | cases h
  | path => exact scansBack_word rfl (hspell _ List.mem_cons_self)
  | group h ih =>
    have hinside := (List.forall_mem_append.1 (List.forall_mem_cons.1 hspell).2).1
    exact (ih hinside).enclosed hspell
  | call h ih =>
    obtain ⟨hname, hcall⟩ := List.forall_mem_cons.1 hspell
    obtain ⟨hopening, hinside⟩ := List.forall_mem_cons.1 hcall
    have harguments := scansBack_separated
      (by simpa using ih) (List.forall_mem_append.1 hinside).1
    exact (harguments.enclosed hcall).name hname hopening

end Spelled

/-! ## Which tokens can be spelled -/

/-- Some lexeme stands for the token. -/
def Spellable (kind : TokenKind) : Prop := ∃ text, Denotes text kind

theorem spellable_symbol {s : String × TokenKind} (h : s ∈ TokenKind.symbols) : Spellable s.2 :=
  ⟨s.1.toList, .symbol h⟩

theorem Grammar.Joins.spellable {tier : Tier} {operator : TokenKind}
    {node : Expression → Expression → Expression} (h : Joins tier operator node) :
    Spellable operator := by
  have hall : ∀ op : Comparison, Spellable (.comparison op) := by
    intro op
    cases op
    · exact spellable_symbol (s := ("==", _)) (by decide)
    · exact spellable_symbol (s := ("!=", _)) (by decide)
    · exact spellable_symbol (s := ("===", _)) (by decide)
    · exact spellable_symbol (s := ("!==", _)) (by decide)
    · exact spellable_symbol (s := (">", _)) (by decide)
    · exact spellable_symbol (s := ("<", _)) (by decide)
    · exact spellable_symbol (s := (">=", _)) (by decide)
    · exact spellable_symbol (s := ("<=", _)) (by decide)
  cases h with
  | or => exact spellable_symbol (s := ("||", _)) (by decide)
  | and => exact spellable_symbol (s := ("&&", _)) (by decide)
  | equality | ordering => exact hall _

/-- Any literal but a number can be spelled, and a number if it is read from somewhere. -/
theorem spellable_literal {kind : TokenKind} {value : Json} (h : literal? kind = some value) :
    Spellable kind ↔ (Expression.Label.literal value).IsLexable := by
  cases kind with
  | number n =>
    cases h
    simp only [Spellable, denotes_number_iff, Expression.Label.IsLexable]
  | string s =>
    cases h
    refine iff_of_true ⟨quoted '"' s.toList, ?_⟩ trivial
    simpa using denotes_quoted (Or.inl rfl) s.toList
  | boolean b =>
    cases h
    refine iff_of_true ?_ trivial
    cases b
    · exact ⟨"false".toList, .name (isName_of_nameText (by decide) (by decide))⟩
    · exact ⟨"true".toList, .name (isName_of_nameText (by decide) (by decide))⟩
  | null =>
    cases h
    exact iff_of_true ⟨"null".toList, .name (isName_of_nameText (by decide) (by decide))⟩ trivial
  | _ => cases h

theorem spellable_name {path : String} : Spellable (.name path) ↔ IsPath path := by
  simp [Spellable, denotes_name_iff]

theorem spellable_separated {lists : List (List TokenKind)} :
    (∀ kind ∈ separated lists, Spellable kind) ↔
      ∀ all ∈ lists, ∀ kind ∈ all, Spellable kind := by
  have hcomma : Spellable .comma := spellable_symbol (s := (",", .comma)) (by decide)
  induction lists with
  | nil => simp [separated]
  | cons all others ih =>
    by_cases hlast : others = []
    · simp [hlast, separated]
    · rw [separated_cons _ hlast, List.forall_mem_append, List.forall_mem_cons,
        List.forall_mem_cons]
      exact and_congr_right fun _ => (and_iff_right hcomma).trans ih

/-- The tokens of a phrase can be spelled exactly if its tree can be written. -/
theorem Grammar.Derives.spellable_iff {tier : Tier} {all : List TokenKind} {tree : Expression}
    {nesting : Nat} (h : Derives tier all tree nesting) :
    (∀ kind ∈ all, Spellable kind) ↔ tree.IsLexable := by
  have hopening : Spellable .opening := spellable_symbol (s := ("(", .opening)) (by decide)
  have hclosing : Spellable .closing := spellable_symbol (s := (")", .closing)) (by decide)
  have hnegation : Spellable .negation := spellable_symbol (s := ("!", .negation)) (by decide)
  induction h with
  | operand _ _ ih => exact ih
  | join _ hnode _ _ ihleft ihright =>
    have hboth := and_congr ihleft ((and_iff_right hnode.spellable).trans ihright)
    rw [List.forall_mem_append, List.forall_mem_cons]
    cases hnode <;> simpa using hboth
  | negation _ ih => simp [hnegation, ih]
  | literal h => simpa using spellable_literal h
  | path => simpa using spellable_name
  | group _ ih =>
    rw [List.forall_mem_cons, List.forall_mem_append]
    simpa [hopening, hclosing] using ih
  | @call function arguments _ ih =>
    rw [List.forall_mem_cons, List.forall_mem_cons, List.forall_mem_append, spellable_separated,
      spellable_name, Expression.isLexable_call]
    simp only [List.forall_mem_map]
    have harguments : (∀ argument ∈ arguments, ∀ kind ∈ argument.kinds, Spellable kind) ↔
        ∀ argument ∈ arguments, argument.tree.IsLexable :=
      forall_congr' fun argument => forall_congr' fun hargument => ih argument hargument
    rw [harguments]
    simp [hopening, hclosing]

namespace Expression

/-! ## Whole sources -/

/-- A tree as a source. -/
def render (spell : TokenKind → List Char) (tree : Expression) : String :=
  String.ofList (spelled spell tree.written)

/-- Spelled tokens of a tree are the tokens of its source. -/
theorem scan_render {spell : TokenKind → List Char} {tree : Expression} (h : tree.IsLexable)
    (hspell : Spells spell tree.written) :
    ∃ tokens, Tokens.scan (render spell tree) = .ok tokens ∧ kinds tokens.list = tree.written := by
  obtain ⟨nesting, hderives, -⟩ := fits_written h
  have hnil : Closes [] := nofun
  obtain ⟨tokens, hok, hkinds⟩ := hderives.scansBack hspell [] [] Tokens.scansTo_nil hnil 0
  rw [List.append_nil] at hok hkinds
  refine ⟨tokens, ?_, hkinds⟩
  rw [Tokens.scan, render, String.toList_ofList, hok]

/-- A source that has tokens is not blank. -/
theorem not_blank_of_scan {source : String} {tokens : Tokens}
    (hscan : Tokens.scan source = .ok tokens) (hne : kinds tokens.list ≠ []) :
    source.toList.all isBlank = false := by
  refine Bool.eq_false_iff.2 fun hblank => hne ?_
  obtain rfl := Except.ok.inj ((Tokens.scan_blanks hblank).symm.trans hscan)
  rfl

/-- What a source is read as is up to its tokens. -/
theorem parse_of_tokens {limit : Nat} {source : String} {tokens : Tokens}
    (hscan : Tokens.scan source = .ok tokens) :
    parse limit source = if kinds tokens.list = [] then .ok always else ofTokens limit tokens := by
  by_cases hnil : kinds tokens.list = []
  · have hblank : source.toList.all isBlank = true :=
      List.all_eq_true.2 (Tokens.blank_of_scanFrom hscan (List.map_eq_nil_iff.1 hnil))
    rw [if_pos hnil, parse, if_pos hblank]
  · rw [if_neg hnil, parse_eq_ofTokens (not_blank_of_scan hscan hnil) hscan]

/-- What is read as a tree is split into tokens. -/
theorem exists_scan_of_parse {limit : Nat} {source : String} {tree : Expression}
    (h : parse limit source = .ok tree) : ∃ tokens, Tokens.scan source = .ok tokens := by
  cases hblank : source.toList.all isBlank with
  | true => exact ⟨_, Tokens.scan_blanks hblank⟩
  | false =>
    cases hscan : Tokens.scan source with
    | ok tokens => exact ⟨tokens, rfl⟩
    | error fault => simp [parse, hblank, hscan] at h

/-- A source with the tokens of a tree is read as the tree, wherever its blanks are and
    however the tokens are spelled. -/
theorem parse_of_scan {limit : Nat} {source : String} {tokens : Tokens} {tree : Expression}
    (h : tree.IsLexable) (hscan : Tokens.scan source = .ok tokens)
    (hkinds : kinds tokens.list = tree.written) (hlimit : tree.height ≤ limit) :
    parse limit source = .ok tree := by
  obtain ⟨nesting, hderives, hheight, -⟩ := fits_written h
  have hblank := not_blank_of_scan hscan (hkinds ▸ hderives.kinds_ne_nil)
  rw [parse_eq_ofTokens hblank hscan, ofTokens_eq_ok_iff, hkinds]
  exact ⟨nesting, hderives.loosen (Nat.zero_le _), Nat.le_trans hheight hlimit, hlimit⟩

/-- What is read from a source can be written, and is no higher than the limit. -/
theorem isLexable_of_parse {limit : Nat} {source : String} {tree : Expression}
    (hblank : source.toList.all isBlank = false) (h : parse limit source = .ok tree) :
    tree.IsLexable ∧ tree.height ≤ limit := by
  cases hscan : Tokens.scan source with
  | error fault => simp [parse, hblank, hscan] at h
  | ok tokens =>
    rw [parse_eq_ofTokens hblank hscan, ofTokens_eq_ok_iff] at h
    obtain ⟨nesting, hderives, -, hheight⟩ := h
    refine ⟨hderives.spellable_iff.1 ?_, hheight⟩
    exact List.forall_mem_map.2 (Tokens.denotes_of_scanFrom hscan)

/-- The tokens of a tree that can be written have spellings. -/
theorem exists_spells {tree : Expression} (h : tree.IsLexable) :
    ∃ spell, Spells spell tree.written := by
  obtain ⟨nesting, hderives, -⟩ := fits_written h
  have hspellable := hderives.spellable_iff.2 h
  -- a spelling for every kind of token, of which only those written matter
  have hall : ∀ kind, ∃ text, kind ∈ tree.written → Denotes text kind := by
    intro kind
    by_cases hkind : kind ∈ tree.written
    · obtain ⟨text, htext⟩ := hspellable kind hkind
      exact ⟨text, fun _ => htext⟩
    · exact ⟨[], fun hmem => absurd hmem hkind⟩
  exact Classical.axiomOfChoice hall

/-- A tree whose leaves and calls can be written has a source with as few parentheses as
    there can be, and this source is read as the tree within every limit that the tree
    itself keeps. Nothing but these trees is read from sources that are not blank. -/
theorem parse_render :
    (∀ tree : Expression, tree.IsLexable →
      (∃ spell, Spells spell tree.written) ∧
      (∀ spell limit, Spells spell tree.written → tree.height ≤ limit →
        parse limit (render spell tree) = .ok tree) ∧
      (∀ source tokens limit, Tokens.scan source = .ok tokens →
        kinds tokens.list = tree.written → tree.height ≤ limit →
        parse limit source = .ok tree) ∧
      (∀ all nesting, Derives .disjunction all tree nesting →
        tree.written.count .opening ≤ all.count .opening)) ∧
    ∀ (limit : Nat) (tree : Expression),
      (∃ source : String, source.toList.all isBlank = false ∧ parse limit source = .ok tree) ↔
        tree.IsLexable ∧ tree.height ≤ limit := by
  have hrender : ∀ tree : Expression, tree.IsLexable → ∀ spell limit,
      Spells spell tree.written → tree.height ≤ limit →
      parse limit (render spell tree) = .ok tree := by
    intro tree h spell limit hspell hlimit
    obtain ⟨tokens, hscan, hkinds⟩ := scan_render h hspell
    exact parse_of_scan h hscan hkinds hlimit
  constructor
  · intro tree h
    refine ⟨exists_spells h, hrender tree h, ?_, ?_⟩
    · intro source tokens limit hscan hkinds hlimit
      exact parse_of_scan h hscan hkinds hlimit
    · intro all nesting hderives
      have hcount := count_opening_le hderives
      rwa [@enclosed_of_le Tier.disjunction.tightness _ (Nat.zero_le _)] at hcount
  · intro limit tree
    constructor
    · rintro ⟨source, hblank, hparse⟩
      exact isLexable_of_parse hblank hparse
    · rintro ⟨h, hlimit⟩
      obtain ⟨spell, hspell⟩ := exists_spells h
      obtain ⟨nesting, hderives, -⟩ := fits_written h
      obtain ⟨tokens, hscan, hkinds⟩ := scan_render h hspell
      exact ⟨render spell tree, not_blank_of_scan hscan (hkinds ▸ hderives.kinds_ne_nil),
        hrender tree h spell limit hspell hlimit⟩

/-- An equality under `!` is put in parentheses. Its source is nested as deep as the tree is
    high, and is read within that limit. -/
theorem render_negated_equality :
    (Expression.negation (.comparison .looseEqual (.path "a")
        (.literal (.number (.integer 1))))).IsLexable ∧
      parse 3 "!(a == 1)" =
        .ok (.negation
          (.comparison .looseEqual (.path "a") (.literal (.number (.integer 1))))) := by
  have hpath : IsPath "a" := ⟨isName_of_nameText (by decide) (by decide), by decide⟩
  have hone : IsNumber ['1'] ∧ numberValue ['1'] = some (.integer 1) :=
    ⟨Or.inl ⟨['1'], ⟨by decide, by simp⟩, Or.inl rfl⟩, by decide +kernel⟩
  have hlexable : (Expression.negation (.comparison .looseEqual (.path "a")
      (.literal (.number (.integer 1))))).IsLexable := by
    simp only [isLexable_negation, isLexable_comparison, isLexable_path, isLexable_literal]
    exact ⟨hpath, _, hone⟩
  have hwritten : (Expression.negation (.comparison .looseEqual (.path "a")
      (.literal (.number (.integer 1))))).written =
      [.negation, .opening, .name "a", .comparison .looseEqual, .number (.integer 1),
        .closing] := by
    decide
  have hspell : Spells (fun kind => kind.text.toList)
      [.negation, .opening, .name "a", .comparison .looseEqual, .number (.integer 1),
        .closing] := by
    simp only [Spells, List.forall_mem_cons, List.not_mem_nil, false_imp_iff, implies_true]
    exact ⟨.symbol (s := ("!", .negation)) (by decide), .symbol (s := ("(", .opening)) (by decide),
      denotes_name_iff.2 ⟨rfl, hpath⟩, .symbol (s := ("==", .comparison .looseEqual)) (by decide),
      denotes_number_iff.2 hone, .symbol (s := (")", .closing)) (by decide), trivial⟩
  have hrender : render (fun kind => kind.text.toList)
      (.negation (.comparison .looseEqual (.path "a") (.literal (.number (.integer 1))))) =
      "!(a == 1)" := by
    rw [render, hwritten]
    decide
  refine ⟨hlexable, ?_⟩
  rw [← hrender]
  exact (parse_render.1 _ hlexable).2.1 _ 3 (hwritten ▸ hspell) (by decide)

end Expression

end FormRules
