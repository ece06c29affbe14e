/-
  FormRules.Proofs.Places

  The places of the nodes of an expression. One tree may stand in another at several
  places, so that a node is told by its place: the numbers of the children on the way down
  to it. What stands at a place is `subtree?`, and `replaceAt` puts something else there.

  Places are compared like words: one that leads further down is greater than those on its
  way, and otherwise the first different child decides. This is the order of the walk, which
  takes the places of a tree in ascending order (`nodes_eq_places` and `places_ascend`).
-/

import FormRules.Rule.Expression

namespace FormRules

namespace Expression

/-! ## Children -/

/-- The children of a node, from left to right. -/
def children : Expression → List Expression
  | .literal _ | .path _ => []
  | .negation operand => [operand]
  | .comparison _ left right | .connective _ left right => [left, right]
  | .call _ arguments => arguments

mutual

/-- What holds of a tree as soon as it holds of its children holds of every tree. -/
@[elab_as_elim]
theorem byChildren {motive : Expression → Prop}
    (node : ∀ tree : Expression, (∀ child ∈ tree.children, motive child) → motive tree) :
    ∀ tree : Expression, motive tree
  | .literal data => node (.literal data) (List.forall_mem_nil _)
  | .path text => node (.path text) (List.forall_mem_nil _)
  | .negation operand =>
    node (.negation operand) (List.forall_mem_singleton.2 (byChildren node operand))
  | .comparison op left right =>
    node (.comparison op left right) <| List.forall_mem_cons.2
      ⟨byChildren node left, List.forall_mem_singleton.2 (byChildren node right)⟩
  | .connective op left right =>
    node (.connective op left right) <| List.forall_mem_cons.2
      ⟨byChildren node left, List.forall_mem_singleton.2 (byChildren node right)⟩
  | .call function arguments =>
    node (.call function arguments) (byChildrenAll node arguments)

theorem byChildrenAll {motive : Expression → Prop}
    (node : ∀ tree : Expression, (∀ child ∈ tree.children, motive child) → motive tree) :
    ∀ trees : List Expression, ∀ tree ∈ trees, motive tree
  | [] => List.forall_mem_nil _
  | tree :: trees => List.forall_mem_cons.2 ⟨byChildren node tree, byChildrenAll node trees⟩

end

/-! ## Places -/

/-- What stands at a place: nothing if there are not so many children. -/
def subtree? (tree : Expression) : List Nat → Option Expression
  | [] => some tree
  | index :: place => tree.children[index]?.bind fun child => child.subtree? place

/-- A node with one of its children changed. -/
def modifyChild (index : Nat) (change : Expression → Expression) : Expression → Expression
  | .literal data => .literal data
  | .path text => .path text
  | .negation operand => .negation (if index = 0 then change operand else operand)
  | .comparison op left right =>
    .comparison op (if index = 0 then change left else left)
      (if index = 1 then change right else right)
  | .connective op left right =>
    .connective op (if index = 0 then change left else left)
      (if index = 1 then change right else right)
  | .call function arguments => .call function (arguments.modify index change)

/-- The tree with something else at a place. -/
def replaceAt : Expression → List Nat → Expression → Expression
  | _, [], replacement => replacement
  | tree, index :: place, replacement =>
    tree.modifyChild index fun child => child.replaceAt place replacement

theorem children_modifyChild (index : Nat) (change : Expression → Expression)
    (tree : Expression) :
    (tree.modifyChild index change).children = tree.children.modify index change := by
  cases tree with
  | literal | path => simp [modifyChild, children]
  | negation operand =>
    cases index <;> simp [modifyChild, children]
  | comparison op left right | connective op left right =>
    match index with
    | 0 | 1 | _ + 2 => simp [modifyChild, children]
  | call function arguments => rfl

/-- At the place of a replacement stands the replacement. -/
theorem subtree?_replaceAt {place : List Nat} {tree node : Expression}
    (h : tree.subtree? place = some node) (replacement : Expression) :
    (tree.replaceAt place replacement).subtree? place = some replacement := by
  induction place generalizing tree with
  | nil => rfl
  | cons index place ih =>
    obtain ⟨child, hchild, hnode⟩ := Option.bind_eq_some_iff.1 h
    rw [replaceAt, subtree?, children_modifyChild, List.getElem?_modify_eq, hchild]
    exact ih hnode

/-! ## The order of the walk -/

mutual

/-- The places of all nodes: a node before its children, and the children from left to
    right. -/
def places : Expression → List (List Nat)
  | .literal _ | .path _ => [[]]
  | .negation operand => [] :: (places operand).map (0 :: ·)
  | .comparison _ left right | .connective _ left right =>
    [] :: ((places left).map (0 :: ·) ++ (places right).map (1 :: ·))
  | .call _ arguments => [] :: placesAll 0 arguments

/-- The places in trees that are children, the first of them with the given number. -/
def placesAll (index : Nat) : List Expression → List (List Nat)
  | [] => []
  | tree :: trees => (places tree).map (index :: ·) ++ placesAll (index + 1) trees

end

theorem nodes_eq_children (tree : Expression) : tree.nodes = tree :: nodesAll tree.children := by
  cases tree <;> simp [nodes, nodesAll, children]

theorem places_eq_children (tree : Expression) :
    tree.places = [] :: placesAll 0 tree.children := by
  cases tree <;> simp [places, placesAll, children]

/-- A place in one of some children begins with the number of this child. -/
theorem exists_cons_of_mem_placesAll {index : Nat} {trees : List Expression} {place : List Nat}
    (h : place ∈ placesAll index trees) : ∃ first rest, place = first :: rest ∧ index ≤ first := by
  induction trees generalizing index with
  | nil => cases h
  | cons tree trees ih =>
    rw [placesAll, List.mem_append] at h
    rcases h with hfirst | hlater
    · obtain ⟨rest, -, rfl⟩ := List.mem_map.1 hfirst
      exact ⟨index, rest, rfl, Nat.le_refl _⟩
    · obtain ⟨first, rest, rfl, hle⟩ := ih hlater
      exact ⟨first, rest, rfl, by omega⟩

theorem placesAll_ascend {trees : List Expression}
    (h : ∀ tree ∈ trees, tree.places.Pairwise (· < ·)) (index : Nat) :
    (placesAll index trees).Pairwise (· < ·) := by
  induction trees generalizing index with
  | nil => exact .nil
  | cons tree trees ih =>
    obtain ⟨htree, htrees⟩ := List.forall_mem_cons.1 h
    rw [placesAll, List.pairwise_append]
    refine ⟨?_, ih htrees (index + 1), ?_⟩
    · -- below one child, its number makes no difference
      refine List.pairwise_map.2 (htree.imp fun hlt => ?_)
      exact List.cons_lt_cons_iff.2 (Or.inr ⟨rfl, hlt⟩)
    · intro place hplace later hlater
      obtain ⟨below, -, rfl⟩ := List.mem_map.1 hplace
      obtain ⟨first, rest, rfl, hle⟩ := exists_cons_of_mem_placesAll hlater
      have hlt : index < first := by omega
      exact List.cons_lt_cons_iff.2 (Or.inl hlt)

/-- The places of a tree ascend. -/
theorem places_ascend (tree : Expression) : tree.places.Pairwise (· < ·) := by
  induction tree using byChildren with
  | node tree ih =>
    rw [places_eq_children, List.pairwise_cons]
    refine ⟨?_, placesAll_ascend ih 0⟩
    intro place hplace
    obtain ⟨first, rest, rfl, -⟩ := exists_cons_of_mem_placesAll hplace
    exact List.nil_lt_cons _ _

/-- The walk through some children of a node, the first of them with the given number. -/
theorem nodesAll_eq_placesAll {node : Expression} {trees : List Expression}
    (h : ∀ tree ∈ trees, tree.places.map (fun place => tree.subtree? place) = tree.nodes.map some)
    {index : Nat} (hchildren : node.children.drop index = trees) :
    (placesAll index trees).map (fun place => node.subtree? place) = (nodesAll trees).map some := by
  induction trees generalizing index with
  | nil => rfl
  | cons tree trees ih =>
    obtain ⟨htree, htrees⟩ := List.forall_mem_cons.1 h
    have hchild : node.children[index]? = some tree := by
      have hhead := List.head?_drop (l := node.children) (i := index)
      rw [hchildren] at hhead
      exact hhead.symm
    have hlater : node.children.drop (index + 1) = trees := by
      rw [← List.tail_drop, hchildren]
      rfl
    have hfirst : (fun place => node.subtree? (index :: place)) =
        fun place => tree.subtree? place := by
      funext place
      rw [subtree?, hchild]
      rfl
    rw [placesAll, nodesAll, List.map_append, List.map_append, List.map_map, ih htrees hlater,
      ← htree, ← hfirst]
    rfl

/-- The walk goes from place to place. -/
theorem nodes_eq_places (tree : Expression) :
    tree.places.map (fun place => tree.subtree? place) = tree.nodes.map some := by
  induction tree using byChildren with
  | node tree ih =>
    have hchildren := nodesAll_eq_placesAll ih (List.drop_zero (l := tree.children))
    rw [places_eq_children, nodes_eq_children, List.map_cons, List.map_cons, hchildren]
    rfl

end Expression

end FormRules
