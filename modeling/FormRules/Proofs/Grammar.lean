/-
  FormRules.Proofs.Grammar

  The grammar of rule expressions, as a relation between the kinds of some tokens and
  the tree that they stand for:

    disjunction  := conjunction ('||' conjunction)*
    conjunction  := equality ('&&' equality)*
    equality     := ordering (('==' | '!=' | '===' | '!==') ordering)*
    ordering     := unary (('>' | '<' | '>=' | '<=') unary)*
    unary        := '!' unary | primary
    primary      := literal | path | call | '(' disjunction ')'
    call         := name '(' (disjunction (',' disjunction)*)? ')'

  A derivation also counts how deep its source is nested: one for an operand, and one
  more for each `!`, `(` or call around it. The relation knows nothing of limits and
  of the order in which tokens are looked at.

  `Ends` says what may stand behind a phrase that cannot be continued. It is what ties
  the longest phrase at the front of some tokens to the derivations of that phrase.
-/

import FormRules.Rule.Expression
import FormRules.Rule.Token

namespace FormRules

namespace Grammar

/-! ## Tiers -/

/-- The tiers of the grammar, from loosest to tightest. -/
inductive Tier where
  | disjunction
  | conjunction
  | equality
  | ordering
  | unary
deriving DecidableEq

/-- The tier of the operands of a tier's operators; unary phrases have no such
    operators. -/
def Tier.operands? : Tier → Option Tier
  | .disjunction => some .conjunction
  | .conjunction => some .equality
  | .equality => some .ordering
  | .ordering => some .unary
  | .unary => none

/-- The place of a tier in the order of tightness. -/
def Tier.tightness : Tier → Nat
  | .disjunction => 0
  | .conjunction => 1
  | .equality => 2
  | .ordering => 3
  | .unary => 4

/-- The tier of the operands is the next tighter one. -/
theorem Tier.tightness_operands {tier inner : Tier} (h : tier.operands? = some inner) :
    inner.tightness = tier.tightness + 1 := by
  cases tier <;> cases h <;> rfl

/-- Tiers of one tightness are the same. -/
theorem Tier.tightness_inj {tier other : Tier} (h : tier.tightness = other.tightness) :
    tier = other := by
  cases tier <;> cases other <;> first | rfl | cases h

/-- The binary operators of each tier, with the nodes that they make. -/
inductive Joins : Tier → TokenKind → (Expression → Expression → Expression) → Prop
  | or : Joins .disjunction (.connective .or) (.connective .or)
  | and : Joins .conjunction (.connective .and) (.connective .and)
  | equality {op : Comparison}
      (h : op ∈ [Comparison.looseEqual, .looseUnequal, .strictEqual, .strictUnequal]) :
      Joins .equality (.comparison op) (.comparison op)
  | ordering {op : Comparison}
      (h : op ∈ [Comparison.greater, .less, .greaterOrEqual, .lessOrEqual]) :
      Joins .ordering (.comparison op) (.comparison op)

/-- The literal that a token stands for. -/
def literal? : TokenKind → Option Json
  | .number n => some (.number n)
  | .string s => some (.string s)
  | .boolean b => some (.boolean b)
  | .null => some .null
  | _ => none

/-! ## Derivations -/

/-- An argument of a call: its tokens, its tree and the depth of its nesting. -/
structure Argument where
  kinds : List TokenKind
  tree : Expression
  nesting : Nat

/-- Several lists of tokens with commas between them. -/
def separated : List (List TokenKind) → List TokenKind
  | [] => []
  | [kinds] => kinds
  | kinds :: others => kinds ++ .comma :: separated others

theorem separated_cons (kinds : List TokenKind) {others : List (List TokenKind)}
    (h : others ≠ []) : separated (kinds :: others) = kinds ++ .comma :: separated others := by
  cases others with
  | nil => exact absurd rfl h
  | cons => rfl

/-- Separated lists begin with the first of them. -/
theorem exists_separated_eq_append (kinds : List TokenKind) (others : List (List TokenKind)) :
    ∃ back, separated (kinds :: others) = kinds ++ back := by
  cases others with
  | nil => exact ⟨[], (List.append_nil kinds).symm⟩
  | cons => exact ⟨_, rfl⟩

/-- The nesting of the most deeply nested argument, zero if there is none. -/
def Argument.deepest : List Argument → Nat
  | [] => 0
  | argument :: arguments => max argument.nesting (deepest arguments)

/-- The tokens of a phrase of some tier, the tree that it stands for and the depth to
    which its source is nested. Operators of one tier group to the left, parentheses
    leave no node, and a name in front of a parenthesis is the name of a call. -/
inductive Derives : Tier → List TokenKind → Expression → Nat → Prop
  | operand {tier inner : Tier} {kinds : List TokenKind} {tree : Expression} {nesting : Nat}
      (hinner : tier.operands? = some inner) (h : Derives inner kinds tree nesting) :
      Derives tier kinds tree nesting
  | join {tier inner : Tier} {operator : TokenKind}
      {node : Expression → Expression → Expression} {front back : List TokenKind}
      {left right : Expression} {m n : Nat}
      (hinner : tier.operands? = some inner) (hnode : Joins tier operator node)
      (hleft : Derives tier front left m) (hright : Derives inner back right n) :
      Derives tier (front ++ operator :: back) (node left right) (max m n)
  | negation {kinds : List TokenKind} {tree : Expression} {nesting : Nat}
      (h : Derives .unary kinds tree nesting) :
      Derives .unary (.negation :: kinds) (.negation tree) (nesting + 1)
  | literal {kind : TokenKind} {value : Json} (h : literal? kind = some value) :
      Derives .unary [kind] (.literal value) 1
  | path {text : String} : Derives .unary [.name text] (.path text) 1
  | group {kinds : List TokenKind} {tree : Expression} {nesting : Nat}
      (h : Derives .disjunction kinds tree nesting) :
      Derives .unary (.opening :: (kinds ++ [.closing])) tree (nesting + 1)
  | call {function : String} {arguments : List Argument}
      (h : ∀ argument ∈ arguments,
        Derives .disjunction argument.kinds argument.tree argument.nesting) :
      Derives .unary
        (.name function :: .opening :: (separated (arguments.map Argument.kinds) ++ [.closing]))
        (.call function (arguments.map Argument.tree)) (Argument.deepest arguments + 1)

/-! ## What every derivation has -/

/-- Nesting counts from one. -/
theorem Derives.nesting_pos {tier : Tier} {kinds : List TokenKind} {tree : Expression}
    {nesting : Nat} (h : Derives tier kinds tree nesting) : 0 < nesting := by
  induction h with
  | operand _ _ ih => exact ih
  | join _ _ _ _ ihleft _ => exact Nat.lt_of_lt_of_le ihleft (Nat.le_max_left _ _)
  | negation | literal | path | group | call => omega

/-- A phrase is one of every looser tier. -/
theorem Derives.loosen {tier inner : Tier} {kinds : List TokenKind} {tree : Expression}
    {nesting : Nat} (h : Derives inner kinds tree nesting)
    (hle : tier.tightness ≤ inner.tightness) : Derives tier kinds tree nesting := by
  rcases Nat.eq_or_lt_of_le hle with heq | hlt
  · exact Tier.tightness_inj heq ▸ h
  · -- one tier at a time, from the tightest
    obtain ⟨next, hnext⟩ : ∃ next, tier.operands? = some next := by
      cases tier with
      | unary => cases inner <;> simp [Tier.tightness] at hlt
      | _ => exact ⟨_, rfl⟩
    have htight := Tier.tightness_operands hnext
    exact .operand hnext (h.loosen (by omega))
termination_by inner.tightness - tier.tightness

/-- A token with which an operand begins. -/
def startsOperand : TokenKind → Bool
  | .number _ | .string _ | .boolean _ | .null | .name _ | .negation | .opening => true
  | .comparison _ | .connective _ | .dot | .comma | .closing => false

/-- A phrase begins like an operand. -/
theorem Derives.exists_eq_cons {tier : Tier} {kinds : List TokenKind} {tree : Expression}
    {nesting : Nat} (h : Derives tier kinds tree nesting) :
    ∃ first others, kinds = first :: others ∧ startsOperand first := by
  induction h with
  | operand _ _ ih => exact ih
  | join _ _ _ _ ihleft _ =>
    obtain ⟨first, others, rfl, hfirst⟩ := ihleft
    exact ⟨first, _, rfl, hfirst⟩
  | @literal kind _ h =>
    refine ⟨kind, [], rfl, ?_⟩
    cases kind <;> simp_all [literal?, startsOperand]
  | negation | path | group | call => exact ⟨_, _, rfl, rfl⟩

/-- A phrase has at least one token. -/
theorem Derives.kinds_ne_nil {tier : Tier} {kinds : List TokenKind} {tree : Expression}
    {nesting : Nat} (h : Derives tier kinds tree nesting) : kinds ≠ [] := by
  obtain ⟨first, others, rfl, -⟩ := h.exists_eq_cons
  exact List.cons_ne_nil _ _

/-- A node made by an operator is one higher than the taller of its operands. -/
theorem Joins.height_eq {tier : Tier} {operator : TokenKind}
    {node : Expression → Expression → Expression} (h : Joins tier operator node)
    (left right : Expression) :
    (node left right).height = max left.height right.height + 1 := by
  cases h <;> rfl

/-- An operator belongs to one tier and makes one kind of node. -/
theorem Joins.unique {tier other : Tier} {operator : TokenKind}
    {node node' : Expression → Expression → Expression} (h : Joins tier operator node)
    (h' : Joins other operator node') : tier = other ∧ node = node' := by
  cases h with
  | or => cases h'; exact ⟨rfl, rfl⟩
  | and => cases h'; exact ⟨rfl, rfl⟩
  | @equality op h =>
    cases h' with
    | equality => exact ⟨rfl, rfl⟩
    | ordering h' => exact absurd h' (by revert h; cases op <;> decide)
  | @ordering op h =>
    cases h' with
    | ordering => exact ⟨rfl, rfl⟩
    | equality h' => exact absurd h' (by revert h; cases op <;> decide)

/-! ## Kinds of tokens -/

/-- The kinds of some tokens. -/
def kinds (tokens : List Token) : List TokenKind := tokens.map Token.kind

@[simp] theorem kinds_nil : kinds [] = [] := rfl

@[simp] theorem kinds_cons (token : Token) (tokens : List Token) :
    kinds (token :: tokens) = token.kind :: kinds tokens := rfl

@[simp] theorem kinds_append (front back : List Token) :
    kinds (front ++ back) = kinds front ++ kinds back := List.map_append

/-- Tokens of given kinds, all at one position. -/
def tokensOf (position : Nat) (all : List TokenKind) : List Token := all.map (⟨·, position⟩)

@[simp] theorem kinds_tokensOf (position : Nat) (all : List TokenKind) :
    kinds (tokensOf position all) = all := by
  simp [kinds, tokensOf, Function.comp_def]

/-- Where a token of some kind stands among the kinds, the tokens split in the same
    way. -/
theorem exists_of_kinds_eq_append_cons {tokens : List Token} {front back : List TokenKind}
    {kind : TokenKind} (h : kinds tokens = front ++ kind :: back) :
    ∃ before position after, tokens = before ++ ⟨kind, position⟩ :: after ∧
      kinds before = front ∧ kinds after = back := by
  obtain ⟨before, others, rfl, hfront, hothers⟩ := List.map_eq_append_iff.1 h
  obtain ⟨⟨_, position⟩, after, rfl, rfl, hback⟩ := List.map_eq_cons_iff.1 hothers
  exact ⟨before, position, after, rfl, hfront, hback⟩

/-- A single kind is that of a single token. -/
theorem exists_of_kinds_eq_singleton {tokens : List Token} {kind : TokenKind}
    (h : kinds tokens = [kind]) : ∃ position, tokens = [⟨kind, position⟩] := by
  obtain ⟨⟨_, position⟩, others, rfl, rfl, hothers⟩ := List.map_eq_cons_iff.1 h
  obtain rfl : others = [] := List.map_eq_nil_iff.1 hothers
  exact ⟨position, rfl⟩

/-- Tokens between two others. -/
theorem exists_of_kinds_eq_enclosed {tokens : List Token} {first last : TokenKind}
    {inside : List TokenKind} (h : kinds tokens = first :: (inside ++ [last])) :
    ∃ start between stop, tokens = ⟨first, start⟩ :: (between ++ [⟨last, stop⟩]) ∧
      kinds between = inside := by
  obtain ⟨⟨_, start⟩, others, rfl, rfl, hothers⟩ := List.map_eq_cons_iff.1 h
  obtain ⟨between, end', rfl, hbetween, hend⟩ := List.map_eq_append_iff.1 hothers
  obtain ⟨stop, rfl⟩ := exists_of_kinds_eq_singleton hend
  exact ⟨start, between, stop, rfl, hbetween⟩

/-! ## Ends of phrases -/

/-- A token that continues a phrase of a tier: an operator of this tier or of a tighter
    one. -/
def Continues (tier : Tier) (kind : TokenKind) : Prop :=
  ∃ other node, tier.tightness ≤ other.tightness ∧ Joins other kind node

/-- The token behind a phrase does not continue it. A parenthesis behind a name would
    make a call of it. -/
def Ends (tier : Tier) (kinds : List TokenKind) (next : Option TokenKind) : Prop :=
  ∀ kind ∈ next, ¬Continues tier kind ∧
    (kind = .opening → ∀ name, kinds.getLast? ≠ some (.name name))

/-- A token continues a phrase if it is an operator of its tier, or continues one of the
    operands. -/
theorem continues_iff {tier inner : Tier} (hinner : tier.operands? = some inner)
    {kind : TokenKind} :
    Continues tier kind ↔ (∃ node, Joins tier kind node) ∨ Continues inner kind := by
  have htight := Tier.tightness_operands hinner
  constructor
  · rintro ⟨other, node, hle, hjoins⟩
    by_cases heq : other = tier
    · exact Or.inl ⟨node, heq ▸ hjoins⟩
    · refine Or.inr ⟨other, node, ?_, hjoins⟩
      have hne : tier.tightness ≠ other.tightness := fun h => heq (Tier.tightness_inj h).symm
      omega
  · rintro (⟨node, hjoins⟩ | ⟨other, node, hle, hjoins⟩)
    · exact ⟨tier, node, Nat.le_refl _, hjoins⟩
    · exact ⟨other, node, by omega, hjoins⟩

/-- An operator of a tier ends the operand in front of it. -/
theorem Joins.ends {tier inner : Tier} {operator : TokenKind}
    {node : Expression → Expression → Expression} (h : Joins tier operator node)
    (hinner : tier.operands? = some inner) (front : List TokenKind) :
    Ends inner front (some operator) := by
  rintro kind hkind
  obtain rfl : operator = kind := by simpa using hkind
  refine ⟨?_, by rintro rfl; cases h⟩
  rintro ⟨other, node', hle, hjoins⟩
  obtain ⟨rfl, -⟩ := h.unique hjoins
  have := Tier.tightness_operands hinner
  omega

/-- A phrase whose last operand ends there ends there too, unless one more operator of
    its tier follows. -/
theorem Ends.of_operand {tier inner : Tier} (hinner : tier.operands? = some inner)
    {front : List TokenKind} {next : Option TokenKind} (h : Ends inner front next)
    (hnone : ∀ kind ∈ next, ∀ node, ¬Joins tier kind node) : Ends tier front next := by
  intro kind hkind
  refine ⟨?_, (h kind hkind).2⟩
  rw [continues_iff hinner]
  rintro (⟨node, hjoins⟩ | hcontinues)
  · exact hnone kind hkind node hjoins
  · exact (h kind hkind).1 hcontinues

/-- The operands of a phrase that ends, end there too. -/
theorem Ends.operand {tier inner : Tier} (hinner : tier.operands? = some inner)
    {front : List TokenKind} {next : Option TokenKind} (h : Ends tier front next) :
    Ends inner front next := by
  intro kind hkind
  exact ⟨fun hcontinues => (h kind hkind).1 ((continues_iff hinner).2 (Or.inr hcontinues)),
    (h kind hkind).2⟩

/-- A token that is neither an operator nor an opening parenthesis ends every phrase. -/
theorem ends_of_not_joins {tier : Tier} {front : List TokenKind} {next : Option TokenKind}
    (h : ∀ kind ∈ next, kind ≠ .opening ∧ ∀ other node, ¬Joins other kind node) :
    Ends tier front next := by
  intro kind hkind
  obtain ⟨hopening, hjoins⟩ := h kind hkind
  exact ⟨fun ⟨other, node, _, hj⟩ => hjoins other node hj, fun heq => absurd heq hopening⟩

/-- Behind a unary phrase only a parenthesis matters. -/
theorem ends_unary {front : List TokenKind} {next : Option TokenKind}
    (h : next = some .opening → ∀ name, front.getLast? ≠ some (.name name)) :
    Ends .unary front next := by
  rintro kind rfl
  refine ⟨?_, fun heq => h (congrArg some heq)⟩
  rintro ⟨other, node, hle, hjoins⟩
  cases hjoins <;> simp [Tier.tightness] at hle

/-- Behind the last tokens of a phrase the same may stand as behind the whole phrase. -/
theorem ends_append_iff {tier : Tier} {front back : List TokenKind} {next : Option TokenKind}
    (hback : back ≠ []) : Ends tier (front ++ back) next ↔ Ends tier back next := by
  obtain ⟨last, hlast⟩ := Option.ne_none_iff_exists'.1 (mt List.getLast?_eq_none_iff.1 hback)
  simp only [Ends, List.getLast?_append, hlast, Option.some_or]

end Grammar

end FormRules
