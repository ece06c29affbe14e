/-
  FormRules.Proofs.Chains

  What a level of the reader does for a tier of the grammar.

  `Reads` states that a tree that the level returns is derived from the tokens it has
  used, which end there, and keeps both limits; and that of a derived phrase that ends
  the level returns the tree, or refuses it if the phrase exceeds one of the limits.
  Chains carry `Reads` from a tier's operands to the tier (`chain_reads`), so that the
  four binary tiers are one lemma.
-/

import FormRules.Proofs.Grammar
import FormRules.Rule.Precedence

namespace FormRules

namespace Precedence

open Grammar

/-! ## What a level does -/

/-- The level returns this tree, with its height, and leaves these tokens. -/
def Gives (level : Level) (input : List Token) (tree : Expression) (rest : List Token) : Prop :=
  ∃ parsed, level input = .ok parsed ∧ parsed.tree = tree ∧ parsed.height = tree.height ∧
    parsed.rest = rest

/-- The outcome is that the limit is exceeded. -/
def Refuses {α : Type} (limit : Nat) (outcome : Except Fault α) : Prop :=
  ∃ position, outcome = .error (.tooDeep limit position)

/-- The tokens in front of the rest are a phrase of the tier, within both limits, and
    the rest does not continue a phrase of the tier `last`. -/
def IsPhrase (limit levels : Nat) (tier last : Tier) (input : List Token) (tree : Expression)
    (rest : List Token) : Prop :=
  ∃ front nesting, input = front ++ rest ∧ Derives tier (kinds front) tree nesting ∧
    nesting ≤ levels ∧ tree.height ≤ limit ∧ Ends last (kinds front) (nextKind rest)

/-- The level returns this tree if it keeps both limits, and refuses it if not. -/
def Decides (limit levels : Nat) (level : Level) (input : List Token) (tree : Expression)
    (nesting : Nat) (rest : List Token) : Prop :=
  (nesting ≤ levels → tree.height ≤ limit → Gives level input tree rest) ∧
    (levels < nesting ∨ limit < tree.height → Refuses limit (level input))

/-- What a level does with some tokens depends on its outcome only. -/
theorem Decides.congr {limit levels : Nat} {level other : Level} {input rest : List Token}
    {tree : Expression} {nesting : Nat} (h : Decides limit levels other input tree nesting rest)
    (heq : level input = other input) : Decides limit levels level input tree nesting rest := by
  rw [Decides, Gives, heq]
  exact h

/-- A level reads a tier exactly, with so many levels of nesting left. -/
structure Reads (limit levels : Nat) (tier : Tier) (level : Level) : Prop where
  /-- What is returned is derived. -/
  sound : ∀ {input : List Token} {parsed : Parsed input}, level input = .ok parsed →
    parsed.height = parsed.tree.height ∧
      IsPhrase limit levels tier tier input parsed.tree parsed.rest
  /-- What is derived is returned or refused. -/
  decides : ∀ {front rest : List Token} {tree : Expression} {nesting : Nat},
    Derives tier (kinds front) tree nesting → Ends tier (kinds front) (nextKind rest) →
    Decides limit levels level (front ++ rest) tree nesting rest

/-! ## Single steps of a chain -/

section Chain

variable {limit levels : Nat} {tier inner : Tier} {operand : Level}
  {node? : TokenKind → Option (Expression → Expression → Expression)}
  {node : Expression → Expression → Expression} {input : List Token}

/-- A chain ends where no operator of its level follows. -/
theorem chainFrom_stop {left : Parsed input} (h : ∀ kind ∈ nextKind left.rest, node? kind = none) :
    chainFrom limit node? operand left = .ok left := by
  unfold chainFrom
  split
  · rfl
  · rename_i token rest hrest
    have hnone : node? token.kind = none := h token.kind (by simp [nextKind, hrest])
    rw [hnone]

/-- With one more token read, no more tokens are left than behind it. -/
theorem Parsed.shorter_behind (left : Parsed input) {token : Token} {rest behind : List Token}
    (hrest : left.rest = token :: rest) (hbehind : behind.length ≤ rest.length) :
    behind.length < input.length := by
  have hleft := left.shorter
  rw [hrest, List.length_cons] at hleft
  omega

/-- What has been read so far as the left operand of one more operator. -/
def Parsed.join (left : Parsed input) {token : Token} {rest : List Token}
    (hrest : left.rest = token :: rest) (node : Expression → Expression → Expression)
    (right : Parsed rest) : Parsed input :=
  ⟨node left.tree right.tree, max left.height right.height + 1, right.rest,
    left.shorter_behind hrest (Nat.le_of_lt right.shorter)⟩

/-- Where an operator follows, what becomes of the chain is up to the operand behind it
    and to the height of the new node. -/
theorem chainFrom_cons {left : Parsed input} {token : Token} {rest : List Token}
    (hrest : left.rest = token :: rest) (hnode : node? token.kind = some node) :
    chainFrom limit node? operand left =
      match operand rest with
      | .error fault => .error fault
      | .ok right =>
        if limit < max left.height right.height + 1 then
          .error (.tooDeep limit token.position)
        else chainFrom limit node? operand (left.join hrest node right) := by
  conv => lhs; unfold chainFrom
  split
  · rename_i hnil
    simp [hrest] at hnil
  · rename_i token' rest' hrest'
    obtain ⟨rfl, rfl⟩ : token = token' ∧ rest = rest' := by simpa [hrest] using hrest'
    rw [hnode]
    rfl

/-! ## Chains -/

/-- An operand is a phrase of the operator's tier. -/
theorem IsPhrase.ofOperand (hinner : tier.operands? = some inner) {last : Tier} {tree : Expression}
    {rest : List Token} (h : IsPhrase limit levels inner last input tree rest) :
    IsPhrase limit levels tier last input tree rest := by
  obtain ⟨front, nesting, hinput, hderives, hphrase⟩ := h
  exact ⟨front, nesting, hinput, .operand hinner hderives, hphrase⟩

/-- A phrase, an operator and an operand are a phrase of the operator's tier. -/
theorem IsPhrase.join (hinner : tier.operands? = some inner) {token : Token}
    (hjoins : Joins tier token.kind node) {left right : Expression} {rest last : List Token}
    (hleft : IsPhrase limit levels tier inner input left (token :: rest))
    (hright : IsPhrase limit levels inner inner rest right last)
    (hlimit : (node left right).height ≤ limit) :
    IsPhrase limit levels tier inner input (node left right) last := by
  obtain ⟨front, m, rfl, hfront, hm, -, -⟩ := hleft
  obtain ⟨back, n, rfl, hback, hn, -, hends⟩ := hright
  refine ⟨front ++ token :: back, max m n, by simp, ?_, Nat.max_le.2 ⟨hm, hn⟩, hlimit, ?_⟩
  · rw [kinds_append, kinds_cons]
    exact .join hinner hjoins hfront hback
  · rw [kinds_append, kinds_cons, List.append_cons, ends_append_iff hback.kinds_ne_nil]
    exact hends

/-- A phrase is complete where no operator of its tier follows. -/
theorem IsPhrase.ends (hinner : tier.operands? = some inner) {tree : Expression}
    {rest : List Token} (h : IsPhrase limit levels tier inner input tree rest)
    (hnone : ∀ kind ∈ nextKind rest, ∀ node, ¬Joins tier kind node) :
    IsPhrase limit levels tier tier input tree rest := by
  obtain ⟨front, nesting, hinput, hderives, hlevels, hlimit, hends⟩ := h
  exact ⟨front, nesting, hinput, hderives, hlevels, hlimit, hends.of_operand hinner hnone⟩

/-- Operators put their node on the phrase read so far, until none of the tier follows. -/
theorem chainFrom_sound (hoperand : Reads limit levels inner operand)
    (hinner : tier.operands? = some inner)
    (hnode : ∀ kind node, node? kind = some node ↔ Joins tier kind node)
    {left parsed : Parsed input} (hheight : left.height = left.tree.height)
    (hleft : IsPhrase limit levels tier inner input left.tree left.rest)
    (h : chainFrom limit node? operand left = .ok parsed) :
    parsed.height = parsed.tree.height ∧
      IsPhrase limit levels tier tier input parsed.tree parsed.rest := by
  -- what has been read stays a phrase of the tier whose last operand has ended
  fun_induction chainFrom limit node? operand left with
  | case1 left hrest =>
    cases h
    exact ⟨hheight, hleft.ends hinner (by simp [hrest, nextKind])⟩
  | case2 left token rest hrest hnone =>
    cases h
    refine ⟨hheight, hleft.ends hinner ?_⟩
    intro kind hkind node hjoins
    obtain rfl : token.kind = kind := by simpa [hrest, nextKind] using hkind
    simp [(hnode _ _).2 hjoins] at hnone
  | case3 => cases h
  | case4 => cases h
  | case5 left token rest hrest node hsome right hright height hle ih =>
    have hjoins := (hnode _ _).1 hsome
    obtain ⟨hheight', hphrase⟩ := hoperand.sound hright
    have hnext : height = (node left.tree right.tree).height := by
      rw [hjoins.height_eq, ← hheight, ← hheight']
    rw [hrest] at hleft
    exact ih hnext (hleft.join hinner hjoins hphrase (hnext ▸ Nat.not_lt.1 hle)) h

/-- The chain comes to the end of a phrase within both limits and goes on from there, or
    it refuses the phrase. -/
def Reaches (limit levels : Nat) (node? : TokenKind → Option (Expression → Expression → Expression))
    (operand : Level) (input : List Token) (tree : Expression) (nesting : Nat)
    (rest : List Token) : Prop :=
  (nesting ≤ levels → tree.height ≤ limit →
    ∃ left : Parsed input, left.tree = tree ∧ left.height = tree.height ∧ left.rest = rest ∧
      chain limit node? operand input = chainFrom limit node? operand left) ∧
  (levels < nesting ∨ limit < tree.height → Refuses limit (chain limit node? operand input))

/-- A chain comes to the end of its first operand. -/
theorem reaches_operand {rest : List Token} {tree : Expression} {nesting : Nat}
    (h : Decides limit levels operand input tree nesting rest) :
    Reaches limit levels node? operand input tree nesting rest := by
  constructor
  · intro hlevels hlimit
    obtain ⟨left, hok, htree, hheight, hrest⟩ := h.1 hlevels hlimit
    exact ⟨left, htree, hheight, hrest, by rw [chain, hok]⟩
  · intro hbeyond
    obtain ⟨position, herror⟩ := h.2 hbeyond
    exact ⟨position, by rw [chain, herror]⟩

/-- A chain that comes to an operator comes to the end of the operand behind it. -/
theorem Reaches.join {token : Token} {between rest : List Token} {left right : Expression}
    {m n : Nat} (hnode : node? token.kind = some node)
    (hheight : (node left right).height = max left.height right.height + 1)
    (hleft : Reaches limit levels node? operand input left m (token :: between))
    (hright : Decides limit levels operand between right n rest) :
    Reaches limit levels node? operand input (node left right) (max m n) rest := by
  -- the left part is read first, whatever becomes of the right one
  by_cases hwithin : m ≤ levels ∧ left.height ≤ limit
  · obtain ⟨read, htree, hread, hrest, hchain⟩ := hleft.1 hwithin.1 hwithin.2
    rw [Reaches, hchain, chainFrom_cons hrest hnode]
    by_cases hwithin' : n ≤ levels ∧ right.height ≤ limit
    · obtain ⟨parsed, hok, htree', hread', hrest'⟩ := hright.1 hwithin'.1 hwithin'.2
      rw [hok]
      constructor
      · intro _ hlimit
        refine ⟨read.join hrest node parsed, ?_, ?_, hrest', if_neg ?_⟩
        · rw [Parsed.join, htree, htree']
        · rw [Parsed.join, hread, hread', hheight]
        · omega
      · -- both parts keep the limits, so that only the new node can be too high
        intro hbeyond
        exact ⟨token.position, if_pos (by omega)⟩
    · obtain ⟨position, herror⟩ := hright.2 (by omega)
      rw [herror]
      exact ⟨fun hlevels hlimit => by omega, fun _ => ⟨position, rfl⟩⟩
  · obtain ⟨position, herror⟩ := hleft.2 (by omega)
    exact ⟨fun hlevels hlimit => by omega, fun _ => ⟨position, herror⟩⟩

/-- A chain comes to the end of every derived phrase of its tier. -/
theorem chain_reaches (hoperand : Reads limit levels inner operand)
    (hinner : tier.operands? = some inner)
    (hnode : ∀ kind node, node? kind = some node ↔ Joins tier kind node)
    {all : List TokenKind} {tree : Expression} {nesting : Nat} (h : Derives tier all tree nesting)
    {front rest : List Token} (hfront : kinds front = all)
    (hends : Ends inner all (nextKind rest)) :
    Reaches limit levels node? operand (front ++ rest) tree nesting rest := by
  -- a chain groups to the left, as derivations do, so that the left part comes first
  induction h generalizing front rest with
  | operand hinner' h =>
    obtain rfl : inner = _ := Option.some.inj (hinner.symm.trans hinner')
    subst hfront
    exact reaches_operand (hoperand.decides h hends)
  | @join tier inner' operator node kindsLeft kindsRight left right m n hinner' hjoins hleft hright
      ihleft _ =>
    obtain rfl : inner = inner' := Option.some.inj (hinner.symm.trans hinner')
    obtain ⟨before, position, behind, rfl, rfl, rfl⟩ := exists_of_kinds_eq_append_cons hfront
    have hendsLeft : Ends inner (kinds before)
        (nextKind (⟨operator, position⟩ :: (behind ++ rest))) := hjoins.ends hinner _
    -- the whole phrase ends where its right operand does
    have hendsRight : Ends inner (kinds behind) (nextKind rest) := by
      rw [List.append_cons, ends_append_iff hright.kinds_ne_nil] at hends
      exact hends
    rw [List.append_assoc, List.cons_append]
    exact (ihleft hinner hnode rfl hendsLeft).join ((hnode operator node).2 hjoins)
      (hjoins.height_eq left right) (hoperand.decides hright hendsRight)
  | negation | literal | path | group | call => cases hinner

/-- A chain reads the tier of its operators, if its level of operands reads theirs. -/
theorem chain_reads (hoperand : Reads limit levels inner operand)
    (hinner : tier.operands? = some inner)
    (hnode : ∀ kind node, node? kind = some node ↔ Joins tier kind node) :
    Reads limit levels tier (chain limit node? operand) where
  sound := by
    intro input parsed h
    unfold chain at h
    split at h
    · cases h
    · rename_i left hleft
      obtain ⟨hheight, hphrase⟩ := hoperand.sound hleft
      exact chainFrom_sound hoperand hinner hnode hheight (hphrase.ofOperand hinner) h
  decides := by
    intro front rest tree nesting hderives hends
    obtain ⟨hgives, hrefuses⟩ :=
      chain_reaches hoperand hinner hnode hderives rfl (hends.operand hinner)
    refine ⟨fun hlevels hlimit => ?_, hrefuses⟩
    obtain ⟨left, htree, hheight, hrest, hchain⟩ := hgives hlevels hlimit
    refine ⟨left, ?_, htree, hheight, hrest⟩
    -- the token behind the phrase does not continue it, so that it is no operator
    rw [hchain, chainFrom_stop]
    intro kind hkind
    rw [hrest] at hkind
    refine Option.eq_none_iff_forall_ne_some.2 fun node hsome => ?_
    exact (hends kind hkind).1 ((continues_iff hinner).2 (Or.inl ⟨node, (hnode _ _).1 hsome⟩))

end Chain

/-! ## The binary tiers -/

theorem disjunctionNode?_eq_some_iff (kind : TokenKind)
    (node : Expression → Expression → Expression) :
    disjunctionNode? kind = some node ↔ Joins .disjunction kind node := by
  constructor
  · intro h
    unfold disjunctionNode? at h
    split at h <;> cases h
    exact .or
  · rintro ⟨⟩
    rfl

theorem conjunctionNode?_eq_some_iff (kind : TokenKind)
    (node : Expression → Expression → Expression) :
    conjunctionNode? kind = some node ↔ Joins .conjunction kind node := by
  constructor
  · intro h
    unfold conjunctionNode? at h
    split at h <;> cases h
    exact .and
  · rintro ⟨⟩
    rfl

theorem equalityNode?_eq_some_iff (kind : TokenKind)
    (node : Expression → Expression → Expression) :
    equalityNode? kind = some node ↔ Joins .equality kind node := by
  constructor
  · intro h
    unfold equalityNode? at h
    split at h
    · rename_i op
      split at h <;> cases h
      exact .equality (by cases op <;> simp_all [Comparison.isEquality])
    · cases h
  · intro h
    cases h with
    | @equality op h => cases op <;> simp_all [equalityNode?, Comparison.isEquality]

theorem orderingNode?_eq_some_iff (kind : TokenKind)
    (node : Expression → Expression → Expression) :
    orderingNode? kind = some node ↔ Joins .ordering kind node := by
  constructor
  · intro h
    unfold orderingNode? at h
    split at h
    · rename_i op
      split at h <;> cases h
      exact .ordering (by cases op <;> simp_all [Comparison.isEquality])
    · cases h
  · intro h
    cases h with
    | @ordering op h => cases op <;> simp_all [orderingNode?, Comparison.isEquality]

/-- What chains carry from the operands of a tier to the tier holds of whole expressions,
    if it holds of unary phrases. -/
theorem expression_of_chain {limit : Nat} {P : Tier → Level → Prop}
    (hchain : ∀ {tier inner : Tier}
      {node? : TokenKind → Option (Expression → Expression → Expression)} {operand : Level},
      P inner operand → tier.operands? = some inner →
      (∀ kind node, node? kind = some node ↔ Joins tier kind node) →
      P tier (chain limit node? operand))
    {unary : Level} (h : P .unary unary) : P .disjunction (expression limit unary) := by
  have hordering : P .ordering (chain limit orderingNode? unary) :=
    hchain h rfl orderingNode?_eq_some_iff
  have hequality := hchain hordering rfl equalityNode?_eq_some_iff
  have hconjunction := hchain hequality rfl conjunctionNode?_eq_some_iff
  exact hchain hconjunction rfl disjunctionNode?_eq_some_iff

/-- Whole expressions are read exactly, if unary phrases are. -/
theorem expression_reads {limit levels : Nat} {unary : Level}
    (h : Reads limit levels .unary unary) :
    Reads limit levels .disjunction (expression limit unary) :=
  expression_of_chain chain_reads h

end Precedence

end FormRules
