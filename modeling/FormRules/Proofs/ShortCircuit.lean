/-
  FormRules.Proofs.ShortCircuit

  The algebra of the connectives, which yield operands and may stop or fail early.

  The outcome of an operand settles a connective if it is a fault or a value that decides, which
  is a false one for `&&` and a true one for `||` (`Connective.Decides`), and then it is the
  outcome of the whole; otherwise the whole has the outcome of the second operand
  (`evaluate_of_settled` and `evaluate_of_open`). No more than this is needed for the laws: each
  is a case analysis on which operands settle. A negation settles the other connective exactly if
  what is negated settles the one (`settledBy_negation`).

  Outcomes are put together node by node, so that a law holds at every place of a tree
  (`evaluate_replaceAt_congr`), and along a chain of any length the first outcome that
  settles is that of the chain.

  Main statement: `evaluate_shortCircuit`.
-/

import FormRules.Proofs.Reaching
import FormRules.Proofs.Recognition
import FormRules.Proofs.Writing

namespace FormRules

namespace Connective

/-! ## Outcomes of operands -/

/-- The other connective. -/
def dual : Connective → Connective
  | .and => .or
  | .or => .and

/-- The outcome of an operand is that of the connective whatever comes behind it: it is a fault,
    or a value that decides. -/
def settledBy (op : Connective) : Except Fault Value → Bool
  | .error _ => true
  | .ok value => op.Decides value

/-- The outcome of several operands one after the other: the first one that settles the
    connective, or else the last one. -/
def outcome (op : Connective) (first : Except Fault Value) (rest : List (Except Fault Value)) :
    Except Fault Value :=
  ((first :: rest).find? op.settledBy).getD (rest.getLastD first)

variable {op : Connective} {first second : Except Fault Value}

theorem outcome_of_settled (h : op.settledBy first = true) (rest : List (Except Fault Value)) :
    op.outcome first rest = first := by
  rw [outcome, List.find?_cons_of_pos h, Option.getD_some]

theorem outcome_of_open (h : op.settledBy first = false) (rest : List (Except Fault Value)) :
    op.outcome first (second :: rest) = op.outcome second rest := by
  rw [outcome, outcome, List.find?_cons_of_neg (by simp [h]), List.getLastD_cons]

/-- A single operand has its own outcome. -/
theorem outcome_nil (op : Connective) (first : Except Fault Value) :
    op.outcome first [] = first := by
  cases h : op.settledBy first with
  | true => exact outcome_of_settled h []
  | false =>
    rw [outcome, List.find?_cons_of_neg (by simp [h])]
    rfl

end Connective

namespace Expression

open Grammar

variable {context : Context} {op : Connective}

/-! ## Two operands -/

/-- The second operand does not matter if the first one settles the connective. -/
theorem evaluate_of_settled {a : Expression} (h : op.settledBy (evaluate context a) = true)
    (b : Expression) : evaluate context (.connective op a b) = evaluate context a := by
  rw [evaluate_connective]
  cases ha : evaluate context a with
  | error fault => rfl
  | ok value =>
    rw [ha] at h
    exact if_pos (Connective.decides_iff.1 (of_decide_eq_true h))

/-- If the first operand leaves the connective open, only the second one matters. -/
theorem evaluate_of_open {a : Expression} (h : op.settledBy (evaluate context a) = false)
    (b : Expression) : evaluate context (.connective op a b) = evaluate context b := by
  rw [evaluate_connective]
  cases ha : evaluate context a with
  | error fault =>
    rw [ha] at h
    cases h
  | ok value =>
    rw [ha] at h
    exact if_neg (of_decide_eq_false h ∘ Connective.decides_iff.2)

theorem evaluate_negation_congr {a b : Expression}
    (h : evaluate context a = evaluate context b) :
    evaluate context (.negation a) = evaluate context (.negation b) := by
  rw [evaluate_negation, evaluate_negation, h]

/-- A negation settles the other connective. -/
theorem settledBy_negation (op : Connective) (a : Expression) :
    op.dual.settledBy (evaluate context (.negation a)) =
      op.settledBy (evaluate context a) := by
  rw [evaluate_negation]
  cases evaluate context a with
  | error fault => rfl
  | ok value =>
    apply Bool.decide_congr
    rw [Connective.decides_iff, Connective.decides_iff]
    cases op <;> simp [Connective.dual, Connective.decidedBy, Value.ofBool, Value.isTruthy,
      Json.isTruthy]

/-! ## The laws -/

section Laws

variable (op : Connective) (a b c : Expression)

/-- It does not matter how three operands are grouped. -/
theorem evaluate_associative :
    evaluate context (.connective op (.connective op a b) c) =
      evaluate context (.connective op a (.connective op b c)) := by
  cases ha : op.settledBy (evaluate context a) with
  | true =>
    have hab := evaluate_of_settled ha b
    rw [evaluate_of_settled ha, evaluate_of_settled (by rw [hab, ha]), hab]
  | false =>
    -- what `a` leaves open has the outcome of `b` on the left, and of `b` and `c` on the right
    have hab := evaluate_of_open ha b
    rw [evaluate_of_open ha]
    cases hb : op.settledBy (evaluate context b) with
    | true => rw [evaluate_of_settled hb, evaluate_of_settled (by rw [hab, hb]), hab]
    | false => rw [evaluate_of_open hb, evaluate_of_open (by rw [hab, hb])]

/-- A negation goes inside, where it turns one connective into the other. -/
theorem evaluate_negated :
    evaluate context (.negation (.connective op a b)) =
      evaluate context (.connective op.dual (.negation a) (.negation b)) := by
  have hnegation : op.dual.settledBy (evaluate context (.negation a)) =
      op.settledBy (evaluate context a) := settledBy_negation op a
  cases ha : op.settledBy (evaluate context a) with
  | true =>
    rw [evaluate_of_settled (hnegation.trans ha)]
    exact evaluate_negation_congr (evaluate_of_settled ha b)
  | false =>
    rw [evaluate_of_open (hnegation.trans ha)]
    exact evaluate_negation_congr (evaluate_of_open ha b)

/-- An operand can be taken inside the other connective. -/
theorem evaluate_distributive :
    evaluate context (.connective op a (.connective op.dual b c)) =
      evaluate context (.connective op.dual (.connective op a b) (.connective op a c)) := by
  cases ha : op.settledBy (evaluate context a) with
  | true =>
    -- both operands of the outer connective have the outcome of `a`
    have hab := evaluate_of_settled ha b
    have hac := evaluate_of_settled ha c
    rw [evaluate_of_settled ha]
    cases hdual : op.dual.settledBy (evaluate context a) with
    | true => rw [evaluate_of_settled (by rw [hab, hdual]), hab]
    | false => rw [evaluate_of_open (by rw [hab, hdual]), hac]
  | false =>
    have hab := evaluate_of_open ha b
    have hac := evaluate_of_open ha c
    rw [evaluate_of_open ha]
    cases hb : op.dual.settledBy (evaluate context b) with
    | true => rw [evaluate_of_settled hb, evaluate_of_settled (by rw [hab, hb]), hab]
    | false => rw [evaluate_of_open hb, evaluate_of_open (by rw [hab, hb]), hac]

/-- An operand on both sides has its own outcome. -/
theorem evaluate_idempotent :
    evaluate context (.connective op a a) = evaluate context a := by
  cases ha : op.settledBy (evaluate context a) with
  | true => exact evaluate_of_settled ha a
  | false => exact evaluate_of_open ha a

end Laws

/-- The laws of the connectives, for each of the two. -/
inductive Law : Expression → Expression → Prop
  | associative (op : Connective) (a b c : Expression) :
      Law (.connective op (.connective op a b) c) (.connective op a (.connective op b c))
  | negated (op : Connective) (a b : Expression) :
      Law (.negation (.connective op a b))
        (.connective op.dual (.negation a) (.negation b))
  | distributive (op : Connective) (a b c : Expression) :
      Law (.connective op a (.connective op.dual b c))
        (.connective op.dual (.connective op a b) (.connective op a c))
  | idempotent (op : Connective) (a : Expression) : Law (.connective op a a) a

/-- Both sides of a law have the same outcome. -/
theorem Law.evaluate_eq {left right : Expression} (h : Law left right) (context : Context) :
    evaluate context left = evaluate context right := by
  cases h with
  | associative op a b c => exact evaluate_associative op a b c
  | negated op a b => exact evaluate_negated op a b
  | distributive op a b c => exact evaluate_distributive op a b c
  | idempotent op => exact evaluate_idempotent op right

/-! ## Inside other expressions -/

/-- A node can be replaced by one of the same outcome. -/
theorem evaluate_replaceAt_congr {tree node replacement : Expression} {place : List Nat}
    (hnode : tree.subtree? place = some node)
    (h : evaluate context replacement = evaluate context node) :
    evaluate context (tree.replaceAt place replacement) = evaluate context tree := by
  induction place generalizing tree with
  | nil =>
    obtain rfl : tree = node := Option.some.inj hnode
    exact h
  | cons index place ih =>
    rw [replaceAt]
    apply evaluate_modifyChild
    intro child hchild
    apply ih
    -- the child that is entered is the one that the place goes through
    rwa [subtree?, hchild.child, Option.bind_some] at hnode

/-! ## Chains -/

/-- Operands joined by one connective from the left. -/
def chain (op : Connective) (first : Expression) (rest : List Expression) : Expression :=
  rest.foldl (.connective op) first

/-- Along a chain the first outcome that settles the connective is that of the chain, and if
    there is none the last one is. -/
theorem evaluate_chain (op : Connective) (first : Expression) (rest : List Expression) :
    evaluate context (chain op first rest) =
      op.outcome (evaluate context first) (rest.map (evaluate context)) := by
  induction rest generalizing first with
  | nil => exact (op.outcome_nil _).symm
  | cons second rest ih =>
    -- the first two operands make the first one of the rest of the chain
    have hchain : evaluate context (chain op first (second :: rest)) =
        op.outcome (evaluate context (.connective op first second))
          (rest.map (evaluate context)) := ih (.connective op first second)
    rw [hchain, List.map_cons]
    cases hfirst : op.settledBy (evaluate context first) with
    | true =>
      rw [evaluate_of_settled hfirst, Connective.outcome_of_settled hfirst,
        Connective.outcome_of_settled hfirst]
    | false => rw [evaluate_of_open hfirst, Connective.outcome_of_open hfirst]

/-- The tokens of operands with one connective between them. -/
def chainKinds (op : Connective) (first : List TokenKind) (rest : List Argument) :
    List TokenKind :=
  first ++ rest.flatMap fun operand => .connective op :: operand.kinds

/-- The grammar groups operands to the left. -/
theorem derives_chain {inner : Tier} (hinner : op.tier.operands? = some inner)
    {front : List TokenKind} {first : Expression} {nesting : Nat}
    (hfirst : Derives op.tier front first nesting) {rest : List Argument}
    (hrest : ∀ operand ∈ rest, Derives inner operand.kinds operand.tree operand.nesting) :
    ∃ nesting, Derives op.tier (chainKinds op front rest)
      (chain op first (rest.map Argument.tree)) nesting := by
  induction rest generalizing front first nesting with
  | nil =>
    refine ⟨nesting, ?_⟩
    rw [chainKinds, List.flatMap_nil, List.append_nil]
    exact hfirst
  | cons operand rest ih =>
    obtain ⟨hoperand, hothers⟩ := List.forall_mem_cons.1 hrest
    obtain ⟨deepest, hderives⟩ := ih (.join hinner op.joins hfirst hoperand) hothers
    refine ⟨deepest, ?_⟩
    have hkinds : chainKinds op front (operand :: rest) =
        chainKinds op (front ++ .connective op :: operand.kinds) rest := by
      simp [chainKinds]
    rw [hkinds]
    exact hderives

/-- Operands with one connective between them are read as their chain, by every limit from some
    one on. -/
theorem parse_chain {source : String} {tokens : Tokens}
    (hblank : source.toList.all isBlank = false) (hscan : Tokens.scan source = .ok tokens)
    {inner : Tier} (hinner : op.tier.operands? = some inner) {first : Argument}
    {rest : List Argument}
    (hoperands : ∀ operand ∈ first :: rest,
      Derives inner operand.kinds operand.tree operand.nesting)
    (hkinds : kinds tokens.list = chainKinds op first.kinds rest) :
    ∃ least, ∀ limit,
      (least ≤ limit → parse limit source = .ok (chain op first.tree (rest.map Argument.tree))) ∧
      (limit < least → ∃ position, parse limit source = .error (.tooDeep limit position)) := by
  obtain ⟨hfirst, hrest⟩ := List.forall_mem_cons.1 hoperands
  obtain ⟨nesting, hchain⟩ := derives_chain hinner (.operand hinner hfirst) hrest
  have hderives : Derives .disjunction (chainKinds op first.kinds rest)
      (chain op first.tree (rest.map Argument.tree)) nesting := hchain.loosen (Nat.zero_le _)
  rw [← hkinds] at hderives
  -- the nesting of the source and the height of the tree have to fit
  refine ⟨max nesting (chain op first.tree (rest.map Argument.tree)).height, fun limit => ?_⟩
  obtain ⟨hread, hrefuse, -⟩ := (parse_eq_ok_iff_derives limit hblank).1 tokens hscan
  constructor
  · intro hle
    exact (hread _).2 ⟨nesting, hderives, by omega, by omega⟩
  · intro hlt
    exact hrefuse _ _ hderives (by omega)

/-- Each connective is associative, idempotent and distributes over the other one, and negation
    turns one into the other: both sides have the same value or the same fault in every context.
    In any tree either side can be put for the other one wherever it stands.

    Operands that are grouped to the left have the first outcome that is a fault or decides, or
    else the outcome of the last one. A source of operands with one connective between them, each
    a phrase of the next tighter tier, is read as the tree that groups them in this way, by every
    limit that is not too small. -/
theorem evaluate_shortCircuit :
    (∀ {left right : Expression}, Law left right → ∀ context : Context,
      evaluate context left = evaluate context right ∧
      ∀ (tree : Expression) (place : List Nat),
        (tree.subtree? place = some left →
          evaluate context (tree.replaceAt place right) = evaluate context tree) ∧
        (tree.subtree? place = some right →
          evaluate context (tree.replaceAt place left) = evaluate context tree)) ∧
    (∀ (op : Connective) (first : Expression) (rest : List Expression) (context : Context),
      evaluate context (chain op first rest) =
        op.outcome (evaluate context first) (rest.map (evaluate context))) ∧
    ∀ {op : Connective} {source : String} {tokens : Tokens} {inner : Tier} {first : Argument}
      {rest : List Argument}, source.toList.all isBlank = false →
      Tokens.scan source = .ok tokens → op.tier.operands? = some inner →
      (∀ operand ∈ first :: rest, Derives inner operand.kinds operand.tree operand.nesting) →
      kinds tokens.list = chainKinds op first.kinds rest →
      ∃ least, ∀ limit,
        (least ≤ limit →
          parse limit source = .ok (chain op first.tree (rest.map Argument.tree))) ∧
        (limit < least → ∃ position, parse limit source = .error (.tooDeep limit position)) := by
  refine ⟨?_, fun op first rest context => evaluate_chain op first rest, ?_⟩
  · intro left right h context
    have hequal := h.evaluate_eq context
    refine ⟨hequal, fun tree place => ⟨?_, ?_⟩⟩
    · intro hleft
      exact evaluate_replaceAt_congr hleft hequal.symm
    · intro hright
      exact evaluate_replaceAt_congr hright hequal
  · intro op source tokens inner first rest hblank hscan hinner hoperands hkinds
    exact parse_chain hblank hscan hinner hoperands hkinds

/-- An undefined operand leaves the chain open, and the string behind it decides, so that the
    call is not looked at. In front of the string the call settles the chain with its fault, and
    behind a false operand of `&&` it is not looked at again. Below another call, the negation of
    a part of the chain can be written with the other connective. -/
theorem evaluate_shortCircuit_unknown :
    let source := "a||'b'||f()"
    let undefined : Expression := .path "a"
    let string : Expression := .literal (.string "b")
    let unknown : Expression := .call "f" []
    let tree := chain .or undefined [string, unknown]
    (∃ least, ∀ limit, least ≤ limit → parse limit source = .ok tree) ∧
      evaluate .empty tree = .ok (some (.string "b")) ∧
      evaluate .empty (chain .or undefined [unknown, string]) =
        .error (.unknownFunction "f") ∧
      evaluate .empty (chain .and string [.literal (.boolean false), unknown]) =
        .ok (some (.boolean false)) ∧
      evaluate .empty
          (.call "has" [.connective .and (.negation undefined) (.negation unknown)]) =
        evaluate .empty (.call "has" [.negation (.connective .or undefined unknown)]) := by
  intro source undefined string unknown tree
  have hblank : source.toList.all isBlank = false := by decide
  have hscan : Tokens.scan "a||'b'||f()" = .ok ⟨[⟨.name "a", 0⟩, ⟨.connective .or, 1⟩,
      ⟨.string "b", 3⟩, ⟨.connective .or, 6⟩, ⟨.name "f", 8⟩, ⟨.opening, 9⟩, ⟨.closing, 10⟩],
      11⟩ := by
    with_unfolding_all rfl
  have hpath : Derives .conjunction [.name "a"] undefined 1 := Derives.path.loosen (by decide)
  have hstring : Derives .conjunction [.string "b"] string 1 :=
    (Derives.literal rfl).loosen (by decide)
  have hcall : Derives .conjunction [.name "f", .opening, .closing] unknown 1 :=
    (@Derives.call "f" [] (List.forall_mem_nil _)).loosen (by decide)
  obtain ⟨hlaws, hchain, hparse⟩ := evaluate_shortCircuit
  have hoperands : ∀ operand ∈ [(⟨[.name "a"], undefined, 1⟩ : Argument),
      ⟨[.string "b"], string, 1⟩, ⟨[.name "f", .opening, .closing], unknown, 1⟩],
      Derives .conjunction operand.kinds operand.tree operand.nesting := by
    simp [hpath, hstring, hcall]
  obtain ⟨least, hleast⟩ := @hparse .or source _ _ _ _ hblank hscan rfl hoperands rfl
  obtain ⟨-, hreplace⟩ := hlaws (.negated .or undefined unknown) .empty
  have hundefined : evaluate .empty undefined = .ok none := by with_unfolding_all rfl
  have hvalue : evaluate .empty string = .ok (some (.string "b")) := rfl
  have hunknown : evaluate .empty unknown = .error (.unknownFunction "f") := by
    with_unfolding_all rfl
  refine ⟨⟨least, fun limit => (hleast limit).1⟩, ?_, ?_, ?_, ?_⟩
  · rw [hchain, List.map_cons, List.map_cons, hundefined, hvalue,
      Connective.outcome_of_open rfl, Connective.outcome_of_settled rfl]
  · rw [hchain, List.map_cons, hundefined, hunknown, Connective.outcome_of_open rfl,
      Connective.outcome_of_settled rfl]
  · rw [hchain, List.map_cons, List.map_cons, hvalue, Connective.outcome_of_open rfl]
    exact Connective.outcome_of_settled rfl _
  · exact (hreplace (.call "has" [.negation (.connective .or undefined unknown)]) [0]).1 rfl

end Expression

end FormRules
