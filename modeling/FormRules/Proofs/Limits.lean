/-
  FormRules.Proofs.Limits

  The limit on nesting and height is a guard and nothing else. A reader under a low limit
  and one under a higher limit take the same steps, until the low limit is exceeded.

    * `Guards` states this of two outcomes. Chains, arguments and operands pass it on, so
      that by induction on the levels of nesting that the lower limit allows it holds of
      whole expressions (`unary_guards`, `expression_guards`).
    * `ofTokens_threshold`: the least limit under which derived tokens are read is the
      larger one of the nesting of their source and the height of their tree.

  Main statement: `parse_under_limits`.
-/

import FormRules.Proofs.Locating
import FormRules.Proofs.Recognition

namespace FormRules

namespace Precedence

open Grammar

/-! ## Two limits -/

/-- Under the lower limit the outcome is that under the higher one, unless the lower limit
    is exceeded. -/
def Guards {α : Type} (limit : Nat) (low high : Except Fault α) : Prop :=
  low = high ∨ Refuses limit low

/-- One level of the reader guards another one, whatever the tokens. -/
def GuardsLevel (limit : Nat) (low high : Level) : Prop :=
  ∀ input, Guards limit (low input) (high input)

/-- A result under the lower limit is the result under the higher one. -/
theorem Guards.eq_ok {α : Type} {limit : Nat} {low high : Except Fault α} {result : α}
    (h : Guards limit low high) (hlow : low = .ok result) : high = .ok result := by
  rcases h with heq | ⟨position, hrefuses⟩
  · rw [← heq, hlow]
  · rw [hlow] at hrefuses
    cases hrefuses

/-- A fault under the lower limit is the fault under the higher one, or it is the limit. -/
theorem Guards.eq_error {α : Type} {limit : Nat} {low high : Except Fault α} {fault : Fault}
    (h : Guards limit low high) (hlow : low = .error fault) :
    high = .error fault ∨ ∃ position, fault = .tooDeep limit position := by
  rcases h with heq | ⟨position, hrefuses⟩
  · exact Or.inl (heq ▸ hlow)
  · rw [hlow] at hrefuses
    exact Or.inr ⟨position, Except.error.inj hrefuses⟩

section Readers

variable {limit limit' stop : Nat} {low high : Level}

/-! ## Chains -/

theorem chainFrom_guards {node? : TokenKind → Option (Expression → Expression → Expression)}
    (hlimit : limit ≤ limit') (h : GuardsLevel limit low high) {input : List Token}
    (left : Parsed input) :
    Guards limit (chainFrom limit node? low left) (chainFrom limit' node? high left) := by
  fun_induction chainFrom limit node? low left with
  | case1 left hrest =>
    have hstop : ∀ kind ∈ nextKind left.rest, node? kind = none := by simp [hrest, nextKind]
    exact Or.inl (chainFrom_stop hstop).symm
  | case2 left token rest hrest hnone =>
    have hstop : ∀ kind ∈ nextKind left.rest, node? kind = none := by simp [hrest, nextKind, hnone]
    exact Or.inl (chainFrom_stop hstop).symm
  | case3 left token rest hrest node hsome fault herror =>
    -- the operand behind the operator fails, by a fault of its own or by the limit
    rw [chainFrom_cons hrest hsome]
    rcases (h rest).eq_error herror with hhigh | ⟨position, rfl⟩
    · rw [hhigh]
      exact Or.inl rfl
    · exact Or.inr ⟨position, rfl⟩
  | case4 left token => exact Or.inr ⟨token.position, rfl⟩
  | case5 left token rest hrest node hsome right hright height hle ih =>
    have hhigh : high rest = .ok right := (h rest).eq_ok hright
    -- a node that keeps the lower limit keeps the higher one
    have hkeeps : ¬limit' < max left.height right.height + 1 := by omega
    rw [chainFrom_cons hrest hsome, hhigh]
    dsimp only
    rw [if_neg hkeeps]
    exact ih

theorem chain_guards {node? : TokenKind → Option (Expression → Expression → Expression)}
    (hlimit : limit ≤ limit') (h : GuardsLevel limit low high) :
    GuardsLevel limit (chain limit node? low) (chain limit' node? high) := by
  intro input
  unfold chain
  cases hlow : low input with
  | error fault =>
    rcases (h input).eq_error hlow with hhigh | ⟨position, rfl⟩
    · rw [hhigh]
      exact Or.inl rfl
    · exact Or.inr ⟨position, rfl⟩
  | ok left =>
    rw [(h input).eq_ok hlow]
    exact chainFrom_guards hlimit h left

theorem expression_guards (hlimit : limit ≤ limit') (h : GuardsLevel limit low high) :
    GuardsLevel limit (expression limit low) (expression limit' high) := by
  have hordering := @chain_guards _ _ _ _ orderingNode? hlimit h
  have hequality := @chain_guards _ _ _ _ equalityNode? hlimit hordering
  have hconjunction := @chain_guards _ _ _ _ conjunctionNode? hlimit hequality
  exact chain_guards hlimit hconjunction

/-! ## Operands -/

theorem argumentsFrom_guards (h : GuardsLevel limit low high) (input : List Token) :
    Guards limit (argumentsFrom stop low input) (argumentsFrom stop high input) := by
  fun_induction argumentsFrom stop low input with
  | case1 input fault herror =>
    rcases (h input).eq_error herror with hhigh | ⟨position, rfl⟩
    · exact Or.inl (argumentsFrom_fault hhigh).symm
    · exact Or.inr ⟨position, rfl⟩
  | case2 input first hfirst position others hrest fault herror ih =>
    rw [argumentsFrom_comma ((h input).eq_ok hfirst) hrest]
    rcases ih.eq_error herror with hhigh | ⟨position', rfl⟩
    · rw [hhigh]
      exact Or.inl rfl
    · exact Or.inr ⟨position', rfl⟩
  | case3 input first hfirst position others hrest more hmore ih =>
    rw [argumentsFrom_comma ((h input).eq_ok hfirst) hrest, ih.eq_ok hmore]
    exact Or.inl rfl
  | case4 input first hfirst position rest hrest =>
    exact Or.inl (argumentsFrom_closing ((h input).eq_ok hfirst) hrest).symm
  | case5 input first hfirst hcomma hclosing =>
    have hcomma' : nextKind first.rest ≠ some .comma := by
      intro hkind
      obtain ⟨position, others, hrest⟩ := nextKind_eq_some_iff.1 hkind
      exact hcomma position others hrest
    have hclosing' : nextKind first.rest ≠ some .closing := by
      intro hkind
      obtain ⟨position, others, hrest⟩ := nextKind_eq_some_iff.1 hkind
      exact hclosing position others hrest
    exact Or.inl (argumentsFrom_separator ((h input).eq_ok hfirst) hcomma' hclosing').symm

theorem arguments_guards (h : GuardsLevel limit low high) (input : List Token) :
    Guards limit (arguments stop low input) (arguments stop high input) := by
  unfold arguments
  split
  · exact Or.inl rfl
  · exact argumentsFrom_guards h input

theorem primary_call_guards (hlimit : limit ≤ limit') (h : GuardsLevel limit low high)
    (name : String) (position opening : Nat) (inside : List Token) :
    Guards limit (primary limit stop low (⟨.name name, position⟩ :: ⟨.opening, opening⟩ :: inside))
      (primary limit' stop high (⟨.name name, position⟩ :: ⟨.opening, opening⟩ :: inside)) := by
  have harguments := @arguments_guards _ stop _ _ h inside
  simp only [primary]
  cases hlow : arguments stop low inside with
  | error fault =>
    rcases harguments.eq_error hlow with hhigh | ⟨position', rfl⟩
    · rw [hhigh]
      exact Or.inl rfl
    · exact Or.inr ⟨position', rfl⟩
  | ok parsed =>
    rw [harguments.eq_ok hlow]
    dsimp only
    by_cases hheight : limit < parsed.height + 1
    · rw [if_pos hheight]
      exact Or.inr ⟨position, rfl⟩
    · rw [if_neg hheight, if_neg (by omega)]
      exact Or.inl rfl

theorem primary_group_guards (h : GuardsLevel limit low high) (opening : Nat)
    (inside : List Token) :
    Guards limit (primary limit stop low (⟨.opening, opening⟩ :: inside))
      (primary limit' stop high (⟨.opening, opening⟩ :: inside)) := by
  simp only [primary]
  cases hlow : low inside with
  | error fault =>
    rcases (h inside).eq_error hlow with hhigh | ⟨position, rfl⟩
    · rw [hhigh]
      exact Or.inl rfl
    · exact Or.inr ⟨position, rfl⟩
  | ok parsed =>
    rw [(h inside).eq_ok hlow]
    exact Or.inl rfl

/-- Nothing but what stands in parentheses depends on the limit. -/
theorem primary_guards (hlimit : limit ≤ limit') (h : GuardsLevel limit low high) :
    GuardsLevel limit (primary limit stop low) (primary limit' stop high) := by
  intro input
  match input with
  | [] => exact Or.inl rfl
  | ⟨.name name, position⟩ :: rest =>
    by_cases hopening : nextKind rest = some .opening
    · obtain ⟨opening, inside, rfl⟩ := nextKind_eq_some_iff.1 hopening
      exact primary_call_guards hlimit h name position opening inside
    · rw [primary_path name position hopening, primary_path name position hopening]
      exact Or.inl rfl
  | ⟨.opening, opening⟩ :: inside => exact primary_group_guards h opening inside
  | ⟨.number _, _⟩ :: _ | ⟨.string _, _⟩ :: _ | ⟨.boolean _, _⟩ :: _ | ⟨.null, _⟩ :: _
  | ⟨.comparison _, _⟩ :: _ | ⟨.connective _, _⟩ :: _ | ⟨.negation, _⟩ :: _ | ⟨.dot, _⟩ :: _
  | ⟨.comma, _⟩ :: _ | ⟨.closing, _⟩ :: _ => exact Or.inl rfl

/-! ## Unary phrases -/

theorem unary_negation_guards {levels levels' : Nat} (hlimit : limit ≤ limit')
    (h : GuardsLevel limit (unary limit stop levels) (unary limit' stop levels'))
    (position : Nat) (rest : List Token) :
    Guards limit (unary limit stop (levels + 1) (⟨.negation, position⟩ :: rest))
      (unary limit' stop (levels' + 1) (⟨.negation, position⟩ :: rest)) := by
  simp only [unary]
  cases hlow : unary limit stop levels rest with
  | error fault =>
    rcases (h rest).eq_error hlow with hhigh | ⟨position', rfl⟩
    · rw [hhigh]
      exact Or.inl rfl
    · exact Or.inr ⟨position', rfl⟩
  | ok operand =>
    rw [(h rest).eq_ok hlow]
    dsimp only
    by_cases hheight : limit < operand.height + 1
    · rw [if_pos hheight]
      exact Or.inr ⟨position, rfl⟩
    · rw [if_neg hheight, if_neg (by omega)]
      exact Or.inl rfl

/-- A reader with fewer levels of nesting guards one with more. -/
theorem unary_guards {levels levels' : Nat} (hlimit : limit ≤ limit') (hlevels : levels ≤ levels') :
    GuardsLevel limit (unary limit stop levels) (unary limit' stop levels') := by
  induction levels generalizing levels' with
  | zero => exact fun input => Or.inr ⟨nextPosition stop input, rfl⟩
  | succ levels ih =>
    obtain ⟨more, rfl⟩ : ∃ more, levels' = more + 1 := ⟨levels' - 1, by omega⟩
    have hinner : GuardsLevel limit (unary limit stop levels) (unary limit' stop more) :=
      ih (by omega)
    intro input
    by_cases hnegation : nextKind input = some .negation
    · obtain ⟨position, rest, rfl⟩ := nextKind_eq_some_iff.1 hnegation
      exact unary_negation_guards hlimit hinner position rest
    · rw [unary_eq_primary hnegation, unary_eq_primary hnegation]
      exact primary_guards hlimit (expression_guards hlimit hinner) input

end Readers

end Precedence

namespace Expression

open Grammar Precedence

/-! ## Whole sources -/

/-- The tokens of a source are read alike under two limits, unless the lower one is
    exceeded. -/
theorem ofTokens_guards {limit limit' : Nat} (hlimit : limit ≤ limit') (tokens : Tokens) :
    Guards limit (ofTokens limit tokens) (ofTokens limit' tokens) := by
  have hunary : GuardsLevel limit (unary limit tokens.stop limit)
      (unary limit' tokens.stop limit') := unary_guards hlimit hlimit
  have hexpression := expression_guards hlimit hunary tokens.list
  unfold ofTokens
  cases hlow : expression limit (unary limit tokens.stop limit) tokens.list with
  | error fault =>
    rcases hexpression.eq_error hlow with hhigh | ⟨position, rfl⟩
    · rw [hhigh]
      exact Or.inl rfl
    · exact Or.inr ⟨position, rfl⟩
  | ok parsed =>
    rw [hexpression.eq_ok hlow]
    exact Or.inl rfl

theorem parse_guards {limit limit' : Nat} (hlimit : limit ≤ limit') (source : String) :
    Guards limit (parse limit source) (parse limit' source) := by
  cases hblank : source.toList.all isBlank with
  | true =>
    have hparse (bound : Nat) : parse bound source = .ok always := by simp [parse, hblank]
    rw [hparse, hparse]
    exact Or.inl rfl
  | false =>
    cases hscan : Tokens.scan source with
    | error fault =>
      have hparse (bound : Nat) : parse bound source = .error fault := by
        simp [parse, hblank, hscan]
      rw [hparse, hparse]
      exact Or.inl rfl
    | ok tokens =>
      rw [parse_eq_ofTokens hblank hscan, parse_eq_ofTokens hblank hscan]
      exact ofTokens_guards hlimit tokens

/-- From the threshold on the outcome is this tree, and below it the limit is exceeded. -/
def Threshold (bound : Nat) (tree : Expression) (outcome : Nat → Except Fault Expression) : Prop :=
  ∀ limit, (bound ≤ limit → outcome limit = .ok tree) ∧
    (limit < bound → Refuses limit (outcome limit))

/-- Derived tokens are read as soon as the limit reaches both the nesting of their source
    and the height of their tree. -/
theorem ofTokens_threshold {tokens : Tokens} {tree : Expression} {nesting : Nat}
    (h : Derives .disjunction (kinds tokens.list) tree nesting) :
    Threshold (max nesting tree.height) tree fun limit => ofTokens limit tokens := by
  intro limit
  constructor
  · intro hreaches
    exact ofTokens_eq_ok_iff.2 ⟨nesting, h, by omega, by omega⟩
  · intro hbelow
    exact ofTokens_refuses h (by omega)

/-- A source that stands for an expression: one of blanks only, or one whose tokens the
    grammar derives. -/
def IsGrammatical (source : String) : Prop :=
  source.toList.all isBlank ∨ ∃ tokens tree nesting, Tokens.scan source = .ok tokens ∧
    Derives .disjunction (kinds tokens.list) tree nesting

/-- A source that stands for an expression has a threshold. That of blanks is zero. -/
theorem exists_threshold {source : String} (h : IsGrammatical source) :
    ∃ bound tree, Threshold bound tree fun limit => parse limit source := by
  cases hblank : source.toList.all isBlank with
  | true =>
    refine ⟨0, always, fun limit => ⟨fun _ => ?_, fun hbelow => absurd hbelow (Nat.not_lt_zero _)⟩⟩
    simp [parse, hblank]
  | false =>
    rcases h with hall | ⟨tokens, tree, nesting, hscan, hderives⟩
    · rw [hblank] at hall
      cases hall
    · refine ⟨max nesting tree.height, tree, ?_⟩
      simpa only [parse_eq_ofTokens hblank hscan] using ofTokens_threshold hderives

/-- Of two limits the lower one gives the outcome of the higher one, the same tree or the
    same fault at the same place, unless the lower limit is exceeded. So a higher limit
    changes neither a tree nor a fault other than this one, and each source that stands
    for an expression is read from one threshold on, and refused below it. -/
theorem parse_under_limits (source : String) :
    (∀ limit limit', limit ≤ limit' →
      (parse limit source = parse limit' source ∨
        ∃ position, parse limit source = .error (.tooDeep limit position)) ∧
      (∀ tree, parse limit source = .ok tree → parse limit' source = .ok tree) ∧
      (∀ fault, parse limit source = .error fault →
        (∀ position, fault ≠ .tooDeep limit position) → parse limit' source = .error fault)) ∧
    (IsGrammatical source → ∃ bound tree, ∀ limit,
      (bound ≤ limit → parse limit source = .ok tree) ∧
      (limit < bound → ∃ position, parse limit source = .error (.tooDeep limit position))) := by
  refine ⟨fun limit limit' hlimit => ?_, exists_threshold⟩
  have hguards := parse_guards hlimit source
  refine ⟨hguards, fun tree => hguards.eq_ok, fun fault herror hother => ?_⟩
  rcases hguards.eq_error herror with hsame | ⟨position, rfl⟩
  · exact hsame
  · exact absurd rfl (hother position)

/-- A negated path in parentheses is refused under the limit two and read from three on. -/
theorem parse_negated_group_under_limits :
    parse 2 "!(a)" = .error (.tooDeep 2 2) ∧ parse 3 "!(a)" = .ok (.negation (.path "a")) ∧
      parse 64 "!(a)" = .ok (.negation (.path "a")) ∧
      ∃ bound tree, ∀ limit, (bound ≤ limit → parse limit "!(a)" = .ok tree) ∧
        (limit < bound → ∃ position, parse limit "!(a)" = .error (.tooDeep limit position)) := by
  have hscan : Tokens.scan "!(a)" =
      .ok ⟨[⟨.negation, 0⟩, ⟨.opening, 1⟩, ⟨.name "a", 2⟩, ⟨.closing, 3⟩], 4⟩ := by
    with_unfolding_all rfl
  have hpath : Derives .disjunction [.name "a"] (.path "a") 1 :=
    Derives.path.loosen (Nat.zero_le _)
  have hderives : Derives .disjunction [.negation, .opening, .name "a", .closing]
      (.negation (.path "a")) 3 := hpath.group.negation.loosen (Nat.zero_le _)
  have hthree : parse 3 "!(a)" = .ok (.negation (.path "a")) := by with_unfolding_all rfl
  have htwo : parse 2 "!(a)" = .error (.tooDeep 2 2) := by with_unfolding_all rfl
  obtain ⟨hlimits, hthreshold⟩ := parse_under_limits "!(a)"
  exact ⟨htwo, hthree, (hlimits 3 64 (by decide)).2.1 _ hthree,
    hthreshold (Or.inr ⟨_, _, _, hscan, hderives⟩)⟩

end Expression

end FormRules
