/-
  FormRules.Proofs.Reaching

  Which nodes of an expression its evaluation comes to, and which of them it fails at.

  Evaluation enters the children of a node (`Enters`), but not the second operand of a
  connective unless the first one has a value that does not decide it, and not the arguments
  of a function that does not exist (`functionNames`). Nodes on the way of nothing but such
  steps are reached (`Reaches`). What a node does with its children is said twice: a value
  needs values of all children that are entered (`values_of_ok`), and a fault is that of the
  first child that has one, or the node itself calls an unknown function (`fault_of_error`).
  By induction over the tree, evaluation fails at the first unknown call that is reached.

  On the other hand nothing but the outcomes of the entered children matters, so that what
  is not reached can be anything (`evaluate_replaceAt`).

  Main statement: `evaluate_reaches`.
-/

import FormRules.Proofs.Places
import FormRules.Proofs.Truth

namespace FormRules

namespace Expression

/-- The names of the functions that can be called. -/
def functionNames : List String := ["empty", "present", "has", "in", "oneOf", "length"]

/-- The table has the functions of these names and no others. -/
theorem mem_functionNames_iff {name : String} :
    name ∈ functionNames ↔ Builtin.named? name ≠ none := by
  have hperm : functionNames.Perm (Builtin.all.map Builtin.name) := by decide
  rw [hperm.mem_iff, List.mem_map, Builtin.named?, Ne, List.find?_eq_none]
  simp

theorem not_mem_functionNames_iff {name : String} :
    name ∉ functionNames ↔ Builtin.named? name = none := by
  rw [mem_functionNames_iff, not_not]

/-! ## Reached nodes -/

/-- Evaluation goes from a node to the child with some number. -/
inductive Enters (context : Context) : Expression → Nat → Expression → Prop
  | operand (operand : Expression) : Enters context (.negation operand) 0 operand
  | left (op : Comparison) (left right : Expression) :
      Enters context (.comparison op left right) 0 left
  | right (op : Comparison) (left right : Expression) :
      Enters context (.comparison op left right) 1 right
  | first (op : Connective) (first second : Expression) :
      Enters context (.connective op first second) 0 first
  | second {op : Connective} {first : Expression} {value : Value} (second : Expression)
      (hvalue : evaluate context first = .ok value) (hopen : ¬op.Decides value) :
      Enters context (.connective op first second) 1 second
  | argument {function : String} {arguments : List Expression} {index : Nat}
      {argument : Expression} (hknown : function ∈ functionNames)
      (hargument : arguments[index]? = some argument) :
      Enters context (.call function arguments) index argument

/-- Evaluation of a tree comes to the node at a place: the root, and the children that are
    entered from a node that it comes to. -/
inductive Reaches (context : Context) : Expression → List Nat → Expression → Prop
  | root (tree : Expression) : Reaches context tree [] tree
  | inside {tree child node : Expression} {index : Nat} {place : List Nat}
      (hchild : Enters context tree index child) (h : Reaches context child place node) :
      Reaches context tree (index :: place) node

section Evaluate

variable {context : Context}

theorem Enters.child {tree child : Expression} {index : Nat}
    (h : Enters context tree index child) : tree.children[index]? = some child := by
  cases h with
  | argument _ hargument => exact hargument
  | _ => rfl

/-- What is reached at a place is what stands there. -/
theorem Reaches.subtree? {tree node : Expression} {place : List Nat}
    (h : Reaches context tree place node) : tree.subtree? place = some node := by
  induction h with
  | root => rfl
  | inside hchild _ ih => rw [Expression.subtree?, hchild.child, Option.bind_some, ih]

/-! ## Single nodes -/

theorem evaluateAll_values {trees : List Expression} {values : List Value}
    (h : evaluateAll context trees = .ok values) {index : Nat} {tree : Expression}
    (htree : trees[index]? = some tree) : ∃ value, evaluate context tree = .ok value := by
  induction trees generalizing values index with
  | nil => cases htree
  | cons first trees ih =>
    rw [evaluateAll_cons] at h
    obtain ⟨value, hfirst, h⟩ := ok_of_bind h
    obtain ⟨rest, hrest, -⟩ := ok_of_bind h
    cases index with
    | zero =>
      obtain rfl : first = tree := Option.some.inj htree
      exact ⟨value, hfirst⟩
    | succ index => exact ih hrest htree

theorem evaluateAll_fault {trees : List Expression} {fault : Fault}
    (h : evaluateAll context trees = .error fault) :
    ∃ (index : Nat) (tree : Expression), trees[index]? = some tree ∧
      evaluate context tree = .error fault ∧
      ∀ (earlier : Nat) other, trees[earlier]? = some other → earlier < index →
        ∃ value, evaluate context other = .ok value := by
  induction trees with
  | nil => cases h
  | cons first trees ih =>
    rw [evaluateAll_cons] at h
    rcases error_of_bind h with hfirst | ⟨value, hfirst, h⟩
    · exact ⟨0, first, rfl, hfirst, fun _ _ _ hlt => absurd hlt (Nat.not_lt_zero _)⟩
    rcases error_of_bind h with hrest | ⟨rest, -, h⟩
    · obtain ⟨index, tree, htree, herror, hearlier⟩ := ih hrest
      refine ⟨index + 1, tree, htree, herror, ?_⟩
      intro earlier other hother hlt
      cases earlier with
      | zero =>
        obtain rfl : first = other := Option.some.inj hother
        exact ⟨value, hfirst⟩
      | succ earlier => exact hearlier earlier other hother (by omega)
    · cases h

/-- A node that is no call of an unknown function. -/
def IsKnown (node : Expression) : Prop :=
  ∀ function arguments, node = .call function arguments → function ∈ functionNames

theorem isKnown_call {function : String} (h : function ∈ functionNames)
    (arguments : List Expression) : IsKnown (.call function arguments) := by
  rintro _ _ ⟨⟩
  exact h

/-- A node that has a value is known, and every child that is entered has a value. -/
theorem values_of_ok {tree : Expression} {value : Value}
    (h : evaluate context tree = .ok value) :
    tree.IsKnown ∧ ∀ index child, Enters context tree index child →
      ∃ value, evaluate context child = .ok value := by
  cases tree with
  | literal | path => exact ⟨nofun, nofun⟩
  | negation operand =>
    rw [evaluate_negation] at h
    obtain ⟨a, hoperand, -⟩ := ok_of_bind h
    refine ⟨nofun, ?_⟩
    rintro _ _ ⟨⟩
    exact ⟨a, hoperand⟩
  | comparison op left right =>
    rw [evaluate_comparison] at h
    obtain ⟨a, hleft, h⟩ := ok_of_bind h
    obtain ⟨b, hright, -⟩ := ok_of_bind h
    refine ⟨nofun, ?_⟩
    intro index child hchild
    cases hchild with
    | left => exact ⟨a, hleft⟩
    | right => exact ⟨b, hright⟩
  | connective op first second =>
    rw [evaluate_connective] at h
    obtain ⟨a, hfirst, h⟩ := ok_of_bind h
    refine ⟨nofun, ?_⟩
    intro index child hchild
    cases hchild with
    | first => exact ⟨a, hfirst⟩
    | second _ hvalue hopen =>
      -- the second operand is entered, so its value is the value of the node
      obtain rfl := Except.ok.inj (hfirst.symm.trans hvalue)
      rw [if_neg fun hdecides => hopen (Connective.decides_iff.2 hdecides)] at h
      exact ⟨value, h⟩
  | call function arguments =>
    rw [evaluate_call] at h
    cases hnamed : Builtin.named? function with
    | none => simp [hnamed] at h
    | some builtin =>
      rw [hnamed] at h
      obtain ⟨values, hvalues, -⟩ := ok_of_bind h
      refine ⟨isKnown_call (mem_functionNames_iff.2 (by simp [hnamed])) arguments, ?_⟩
      intro index child hchild
      exact evaluateAll_values hvalues hchild.child

/-- A node that fails calls an unknown function, or it is known and fails as the first child
    does that is entered and fails. -/
theorem fault_of_error {tree : Expression} {fault : Fault}
    (h : evaluate context tree = .error fault) :
    (∃ function arguments, tree = .call function arguments ∧ function ∉ functionNames ∧
        fault = .unknownFunction function) ∨
      (tree.IsKnown ∧ ∃ index child, Enters context tree index child ∧
        evaluate context child = .error fault ∧
        ∀ earlier other, Enters context tree earlier other → earlier < index →
          ∃ value, evaluate context other = .ok value) := by
  cases tree with
  | literal | path => rw [evaluate] at h; cases h
  | negation operand =>
    rw [evaluate_negation] at h
    rcases error_of_bind h with hoperand | ⟨a, -, h⟩
    · exact Or.inr ⟨nofun, 0, operand, .operand operand, hoperand,
        fun _ _ _ hlt => absurd hlt (Nat.not_lt_zero _)⟩
    · cases h
  | comparison op left right =>
    rw [evaluate_comparison] at h
    rcases error_of_bind h with hleft | ⟨a, hleft, h⟩
    · exact Or.inr ⟨nofun, 0, left, .left op left right, hleft,
        fun _ _ _ hlt => absurd hlt (Nat.not_lt_zero _)⟩
    rcases error_of_bind h with hright | ⟨b, -, h⟩
    · refine Or.inr ⟨nofun, 1, right, .right op left right, hright, ?_⟩
      intro earlier other hother hlt
      cases hother with
      | left => exact ⟨a, hleft⟩
      | right => exact absurd hlt (Nat.lt_irrefl _)
    · cases h
  | connective op first second =>
    rw [evaluate_connective] at h
    rcases error_of_bind h with hfirst | ⟨a, hfirst, h⟩
    · exact Or.inr ⟨nofun, 0, first, .first op first second, hfirst,
        fun _ _ _ hlt => absurd hlt (Nat.not_lt_zero _)⟩
    split at h
    · cases h
    · rename_i hopen
      have hsecond := Enters.second second hfirst fun hdecides =>
        hopen (Connective.decides_iff.1 hdecides)
      refine Or.inr ⟨nofun, 1, second, hsecond, h, ?_⟩
      intro earlier other hother hlt
      cases hother with
      | first => exact ⟨a, hfirst⟩
      | second => exact absurd hlt (Nat.lt_irrefl _)
  | call function arguments =>
    rw [evaluate_call] at h
    cases hnamed : Builtin.named? function with
    | none =>
      rw [hnamed] at h
      cases h
      exact Or.inl ⟨function, arguments, rfl, not_mem_functionNames_iff.2 hnamed, rfl⟩
    | some builtin =>
      rw [hnamed] at h
      have hknown : function ∈ functionNames := mem_functionNames_iff.2 (by simp [hnamed])
      rcases error_of_bind h with hall | ⟨values, -, h⟩
      · obtain ⟨index, argument, hargument, herror, hearlier⟩ := evaluateAll_fault hall
        refine Or.inr ⟨isKnown_call hknown arguments, index, argument,
          .argument hknown hargument, herror, ?_⟩
        intro earlier other hother hlt
        exact hearlier earlier other hother.child hlt
      · cases h

/-! ## Whole trees -/

/-- Where evaluation has a value it reaches no unknown function. -/
theorem known_of_ok {tree : Expression} {value : Value} (h : evaluate context tree = .ok value)
    {place : List Nat} {function : String} {arguments : List Expression}
    (hreached : Reaches context tree place (.call function arguments)) :
    function ∈ functionNames := by
  generalize hnode : Expression.call function arguments = node at hreached
  induction hreached generalizing value with
  | root tree => exact (values_of_ok h).1 function arguments hnode.symm
  | inside hchild _ ih =>
    obtain ⟨value, hvalue⟩ := (values_of_ok h).2 _ _ hchild
    exact ih hvalue hnode

/-- The call at a place is the first one that is reached and whose function does not
    exist. -/
structure FirstUnknown (context : Context) (tree : Expression) (place : List Nat)
    (function : String) : Prop where
  reached : ∃ arguments, Reaches context tree place (.call function arguments)
  unknown : function ∉ functionNames
  first : ∀ earlier other arguments, earlier < place →
    Reaches context tree earlier (.call other arguments) → other ∈ functionNames

/-- The first unknown call below a child is that of the node, if the node is known and the
    children before have values. -/
theorem FirstUnknown.below {tree child : Expression} {index : Nat} {place : List Nat}
    {function : String} (h : FirstUnknown context child place function)
    (hchild : Enters context tree index child)
    (hroot : tree.IsKnown)
    (hearlier : ∀ earlier other, Enters context tree earlier other → earlier < index →
      ∃ value, evaluate context other = .ok value) :
    FirstUnknown context tree (index :: place) function := by
  obtain ⟨arguments, hreached⟩ := h.reached
  refine ⟨⟨arguments, .inside hchild hreached⟩, h.unknown, ?_⟩
  intro earlier other arguments hlt hother
  cases hother with
  | root => exact hroot _ _ rfl
  | @inside _ sibling _ number rest hsibling hbelow =>
    rcases List.cons_lt_cons_iff.1 hlt with hbefore | ⟨rfl, hinside⟩
    · -- in a child before, which has a value
      obtain ⟨value, hvalue⟩ := hearlier number sibling hsibling hbefore
      exact known_of_ok hvalue hbelow
    · -- in the same child
      obtain rfl : child = sibling :=
        Option.some.inj (hchild.child.symm.trans hsibling.child)
      exact h.first rest other arguments hinside hbelow

/-- Evaluation that fails does so at the first unknown call. -/
theorem exists_firstUnknown {tree : Expression} {fault : Fault}
    (h : evaluate context tree = .error fault) :
    ∃ place function, FirstUnknown context tree place function ∧
      fault = .unknownFunction function := by
  induction tree using byChildren with
  | node tree ih =>
    rcases fault_of_error h with ⟨function, arguments, rfl, hunknown, rfl⟩ |
      ⟨hroot, index, child, hchild, herror, hearlier⟩
    · -- nothing comes before the root
      refine ⟨[], function, ⟨⟨arguments, .root _⟩, hunknown, ?_⟩, rfl⟩
      intro earlier _ _ hlt
      exact absurd hlt (List.not_lt_nil earlier)
    · obtain ⟨place, function, hfirst, rfl⟩ :=
        ih child (List.mem_of_getElem? hchild.child) herror
      exact ⟨index :: place, function, hfirst.below hchild hroot hearlier, rfl⟩

/-- There is one first unknown call. -/
theorem FirstUnknown.unique {tree : Expression} {place other : List Nat}
    {function name : String} (h : FirstUnknown context tree place function)
    (h' : FirstUnknown context tree other name) : function = name := by
  obtain ⟨arguments, hreached⟩ := h.reached
  obtain ⟨arguments', hreached'⟩ := h'.reached
  have hnot : ¬place < other := fun hlt => h.unknown (h'.first _ _ _ hlt hreached)
  have hnot' : ¬other < place := fun hlt => h'.unknown (h.first _ _ _ hlt hreached')
  obtain rfl : place = other := List.le_antisymm (List.not_lt.1 hnot') (List.not_lt.1 hnot)
  have hsame := hreached.subtree?.symm.trans hreached'.subtree?
  simp only [Option.some_inj, call.injEq] at hsame
  exact hsame.1

theorem FirstUnknown.evaluate {tree : Expression} {place : List Nat} {function : String}
    (h : FirstUnknown context tree place function) :
    Expression.evaluate context tree = .error (.unknownFunction function) := by
  cases houtcome : Expression.evaluate context tree with
  | ok value =>
    obtain ⟨arguments, hreached⟩ := h.reached
    exact absurd (known_of_ok houtcome hreached) h.unknown
  | error fault =>
    obtain ⟨other, name, hother, rfl⟩ := exists_firstUnknown houtcome
    rw [h.unique hother]

/-! ## What is not reached -/

theorem evaluateAll_modify {change : Expression → Expression} {trees : List Expression}
    {index : Nat} (h : ∀ tree, trees[index]? = some tree →
      evaluate context (change tree) = evaluate context tree) :
    evaluateAll context (trees.modify index change) = evaluateAll context trees := by
  induction trees generalizing index with
  | nil => simp
  | cons first trees ih =>
    cases index with
    | zero =>
      rw [List.modify_zero_cons, evaluateAll_cons, evaluateAll_cons, h first rfl]
    | succ index =>
      rw [List.modify_succ_cons, evaluateAll_cons, evaluateAll_cons, ih h]

/-- Changing a child so that it keeps its outcome if it is entered does not show. -/
theorem evaluate_modifyChild {tree : Expression} {index : Nat} {change : Expression → Expression}
    (h : ∀ child, Enters context tree index child →
      evaluate context (change child) = evaluate context child) :
    evaluate context (tree.modifyChild index change) = evaluate context tree := by
  cases tree with
  | literal | path => rfl
  | negation operand =>
    rw [modifyChild]
    split
    · rename_i hindex
      subst hindex
      rw [evaluate_negation, evaluate_negation, h operand (.operand operand)]
    · rfl
  | comparison op left right =>
    have hleft : evaluate context (if index = 0 then change left else left) =
        evaluate context left := by
      split
      · rename_i hindex
        subst hindex
        exact h left (.left op left right)
      · rfl
    have hright : evaluate context (if index = 1 then change right else right) =
        evaluate context right := by
      split
      · rename_i hindex
        subst hindex
        exact h right (.right op left right)
      · rfl
    rw [modifyChild, evaluate_comparison, evaluate_comparison, hleft, hright]
  | connective op first second =>
    have hfirst : evaluate context (if index = 0 then change first else first) =
        evaluate context first := by
      split
      · rename_i hindex
        subst hindex
        exact h first (.first op first second)
      · rfl
    rw [modifyChild, evaluate_connective, evaluate_connective, hfirst]
    cases hvalue : evaluate context first with
    | error fault => rfl
    | ok a =>
      show (if op.decidedBy a then _ else _) = if op.decidedBy a then _ else _
      by_cases hdecides : op.Decides a
      · have hdecided := Connective.decides_iff.1 hdecides
        rw [if_pos hdecided, if_pos hdecided]
      · -- the second operand is entered only here
        have hopen := hdecides ∘ Connective.decides_iff.2
        rw [if_neg hopen, if_neg hopen]
        split
        · rename_i hindex
          subst hindex
          exact h second (.second second hvalue hdecides)
        · rfl
  | call function arguments =>
    rw [modifyChild, evaluate_call, evaluate_call]
    cases hnamed : Builtin.named? function with
    | none => rfl
    | some builtin =>
      have hknown : function ∈ functionNames := mem_functionNames_iff.2 (by simp [hnamed])
      rw [evaluateAll_modify fun argument hargument => h argument (.argument hknown hargument)]

/-- What stands at a place that is not reached makes no difference. -/
theorem evaluate_replaceAt {tree : Expression} {place : List Nat}
    (h : ∀ node, ¬Reaches context tree place node) (replacement : Expression) :
    evaluate context (tree.replaceAt place replacement) = evaluate context tree := by
  induction place generalizing tree with
  | nil => exact absurd (.root tree) (h tree)
  | cons index place ih =>
    rw [replaceAt]
    apply evaluate_modifyChild
    intro child hchild
    apply ih
    intro node hnode
    exact h node (.inside hchild hnode)

end Evaluate

/-- Evaluation fails if and only if it reaches a call of a function that does not exist, and
    the fault names the first such function in the order of the walk. What stands where
    evaluation does not come to can be replaced by anything. -/
theorem evaluate_reaches (context : Context) (tree : Expression) :
    ((∃ fault, evaluate context tree = .error fault) ↔
      ∃ place function arguments, Reaches context tree place (.call function arguments) ∧
        function ∉ functionNames) ∧
    (∀ fault, evaluate context tree = .error fault ↔
      ∃ place function arguments, Reaches context tree place (.call function arguments) ∧
        function ∉ functionNames ∧ fault = .unknownFunction function ∧
        ∀ earlier other arguments, earlier < place →
          Reaches context tree earlier (.call other arguments) → other ∈ functionNames) ∧
    ∀ place node replacement, tree.subtree? place = some node →
      ¬Reaches context tree place node →
      (tree.replaceAt place replacement).subtree? place = some replacement ∧
        evaluate context (tree.replaceAt place replacement) = evaluate context tree := by
  refine ⟨⟨?_, ?_⟩, fun fault => ⟨?_, ?_⟩, ?_⟩
  · rintro ⟨fault, herror⟩
    obtain ⟨place, function, hfirst, -⟩ := exists_firstUnknown herror
    obtain ⟨arguments, hreached⟩ := hfirst.reached
    exact ⟨place, function, arguments, hreached, hfirst.unknown⟩
  · rintro ⟨place, function, arguments, hreached, hunknown⟩
    cases houtcome : evaluate context tree with
    | error fault => exact ⟨fault, rfl⟩
    | ok value => exact absurd (known_of_ok houtcome hreached) hunknown
  · intro herror
    obtain ⟨place, function, hfirst, rfl⟩ := exists_firstUnknown herror
    obtain ⟨arguments, hreached⟩ := hfirst.reached
    exact ⟨place, function, arguments, hreached, hfirst.unknown, rfl, hfirst.first⟩
  · rintro ⟨place, function, arguments, hreached, hunknown, rfl, hearlier⟩
    exact FirstUnknown.evaluate ⟨⟨arguments, hreached⟩, hunknown, hearlier⟩
  · intro place node replacement hnode hunreached
    refine ⟨subtree?_replaceAt hnode replacement, evaluate_replaceAt ?_ replacement⟩
    intro other hother
    -- only what stands at the place could be reached there
    obtain rfl : node = other := Option.some.inj (hnode.symm.trans hother.subtree?)
    exact hunreached hother

/-- The second operand of `&&` is not reached behind a false one, and neither is the argument
    of an unknown function, whose fault is that of the whole. What stands at either place can be
    replaced by anything. -/
theorem evaluate_hides_argument :
    let skipped : Expression := .call "skipped" []
    let inner : Expression := .call "inner" []
    let decided : Expression := .connective .and (.literal (.boolean false)) skipped
    let tree : Expression := .connective .or decided (.call "nope" [inner])
    evaluate .empty decided = .ok (some (.boolean false)) ∧
      evaluate .empty tree = .error (.unknownFunction "nope") ∧
      (∃ place function arguments, Reaches .empty tree place (.call function arguments) ∧
        function ∉ functionNames) ∧
      ∀ place node, (place, node) ∈ [([0, 1], skipped), ([1, 0], inner)] →
        tree.subtree? place = some node ∧ ¬Reaches .empty tree place node ∧
          ∀ replacement, evaluate .empty (tree.replaceAt place replacement) =
            .error (.unknownFunction "nope") := by
  intro skipped inner decided tree
  have hdecided : evaluate .empty decided = .ok (some (.boolean false)) := by
    with_unfolding_all rfl
  have herror : evaluate .empty tree = .error (.unknownFunction "nope") := by
    with_unfolding_all rfl
  have hskipped : ¬Reaches .empty tree [0, 1] skipped := by
    intro h
    -- the first operand would have to leave the connective open
    simp only [tree, decided] at h
    obtain _ | ⟨hfirst, h⟩ := h
    cases hfirst
    obtain _ | ⟨hsecond, -⟩ := h
    cases hsecond with
    | second _ hvalue hopen =>
      obtain rfl := Except.ok.inj hvalue
      exact hopen (.and .no)
  have hinner : ¬Reaches .empty tree [1, 0] inner := by
    intro h
    -- the function would have to exist
    simp only [tree] at h
    obtain _ | ⟨hsecond, h⟩ := h
    cases hsecond
    obtain _ | ⟨hargument, -⟩ := h
    cases hargument with
    | argument hknown => exact absurd hknown (by decide)
  obtain ⟨hfails, -, hreplace⟩ := evaluate_reaches .empty tree
  refine ⟨hdecided, herror, hfails.1 ⟨_, herror⟩, fun place node hplace => ?_⟩
  have hplaces : tree.subtree? place = some node ∧ ¬Reaches .empty tree place node := by
    simp only [List.mem_cons, Prod.mk.injEq, List.not_mem_nil, or_false] at hplace
    rcases hplace with ⟨rfl, rfl⟩ | ⟨rfl, rfl⟩
    · exact ⟨rfl, hskipped⟩
    · exact ⟨rfl, hinner⟩
  refine ⟨hplaces.1, hplaces.2, fun replacement => ?_⟩
  rw [(hreplace place node replacement hplaces.1 hplaces.2).2, herror]

end Expression

end FormRules
