/-
  FormRules.Proofs.Preorder

  The walk through a tree loses nothing. It comes by every place of the tree once, by a node
  before what stands below it and by what stands below a child before what stands below a later
  one: `Precedes` says this of two places, and it is the order of places as words.

  The labels on the way determine the tree. Each says how many children its node has, and so
  how much of a sequence of labels belongs to the first child, then to the second, whatever
  stands behind the tree (`labels_append_inj`). The induction needs this remainder, since behind
  a child stand the labels of its later siblings.

  Main statement: `walk_lossless`.
-/

import FormRules.Proofs.Places
import Mathlib.Data.List.Infix

namespace FormRules

namespace Expression

/-! ## All places -/

/-- A place in one of some children is the number of this child and a place in it. -/
theorem mem_placesAll_iff {trees : List Expression} {index count : Nat} {place : List Nat} :
    (index + count) :: place ∈ placesAll index trees ↔
      ∃ tree, trees[count]? = some tree ∧ place ∈ tree.places := by
  induction trees generalizing index count with
  | nil => simp [placesAll]
  | cons tree trees ih =>
    rw [placesAll, List.mem_append]
    cases count with
    | zero =>
      -- the places in later children begin with later numbers
      have hlater : ¬index :: place ∈ placesAll (index + 1) trees := by
        intro hmem
        obtain ⟨first, rest, heq, hle⟩ := exists_cons_of_mem_placesAll hmem
        have hfirst := (List.cons.inj heq).1
        omega
      rw [Nat.add_zero, or_iff_left hlater]
      simp
    | succ count =>
      have hfirst : ¬(index + (count + 1)) :: place ∈ tree.places.map (index :: ·) := by
        rw [List.mem_map]
        rintro ⟨below, -, heq⟩
        have hindex := (List.cons.inj heq).1
        omega
      have hindex : index + (count + 1) = index + 1 + count := by omega
      rw [or_iff_right hfirst, hindex, ih, List.getElem?_cons_succ]

/-- The places of a tree are those where something stands. -/
theorem mem_places_iff (tree : Expression) (place : List Nat) :
    place ∈ tree.places ↔ ∃ node, tree.subtree? place = some node := by
  induction place generalizing tree with
  | nil =>
    rw [places_eq_children]
    exact iff_of_true List.mem_cons_self ⟨tree, rfl⟩
  | cons index place ih =>
    have hchild := @mem_placesAll_iff tree.children 0 index place
    rw [Nat.zero_add] at hchild
    rw [places_eq_children, List.mem_cons, or_iff_right (List.cons_ne_nil _ _), hchild]
    simp only [subtree?, Option.bind_eq_some_iff, ih]
    constructor
    · rintro ⟨child, hchild, node, hnode⟩
      exact ⟨node, child, hchild, hnode⟩
    · rintro ⟨node, child, hchild, hnode⟩
      exact ⟨child, hchild, node, hnode⟩

/-! ## The order of the walk -/

/-- One place comes before another one in the order of the walk: the other one lies below it, or
    they lie below two children of one node and the first child is the earlier one. -/
inductive Precedes : List Nat → List Nat → Prop
  | below (place : List Nat) (index : Nat) (rest : List Nat) :
      Precedes place (place ++ index :: rest)
  | earlier (node : List Nat) {index later : Nat} (rest others : List Nat) (h : index < later) :
      Precedes (node ++ index :: rest) (node ++ later :: others)

theorem Precedes.cons {place other : List Nat} (h : Precedes place other) (index : Nat) :
    Precedes (index :: place) (index :: other) := by
  cases h with
  | below _ first rest => exact .below (index :: place) first rest
  | earlier node rest others h => exact .earlier (index :: node) rest others h

/-- The order of the walk is the order of places as words. -/
theorem precedes_iff_lt {place other : List Nat} : Precedes place other ↔ place < other := by
  constructor
  · rintro (⟨_, index, rest⟩ | ⟨node, rest, others, h⟩)
    · -- the two places agree up to the end of the first one
      induction place with
      | nil => exact List.nil_lt_cons _ _
      | cons first place ih => exact List.cons_lt_cons_iff.2 (Or.inr ⟨rfl, ih⟩)
    · -- the two places agree down to the common node
      induction node with
      | nil => exact List.cons_lt_cons_iff.2 (Or.inl h)
      | cons first node ih => exact List.cons_lt_cons_iff.2 (Or.inr ⟨rfl, ih⟩)
  · intro hlt
    induction place generalizing other with
    | nil =>
      cases other with
      | nil => exact absurd hlt (List.lt_irrefl _)
      | cons index rest => exact .below [] index rest
    | cons first place ih =>
      cases other with
      | nil => exact absurd hlt (List.not_lt_nil _)
      | cons index rest =>
        rcases List.cons_lt_cons_iff.1 hlt with hearlier | ⟨rfl, hbelow⟩
        · exact .earlier [] place rest hearlier
        · exact (ih hbelow).cons first

/-- The walk comes by one place before another one exactly if the first one precedes. -/
theorem precedes_getElem_iff (tree : Expression) {i j : Nat} (hi : i < tree.places.length)
    (hj : j < tree.places.length) : Precedes tree.places[i] tree.places[j] ↔ i < j := by
  have hascend := List.pairwise_iff_getElem.1 tree.places_ascend
  rw [precedes_iff_lt]
  constructor
  · intro hlt
    rcases Nat.lt_trichotomy i j with h | rfl | h
    · exact h
    · exact absurd hlt (List.lt_irrefl _)
    · exact absurd (List.lt_trans hlt (hascend j i hj hi h)) (List.lt_irrefl _)
  · exact hascend i j hi hj

/-! ## The labels of a tree -/

/-- How many children a node with this label has. -/
def Label.arity : Label → Nat
  | .literal _ | .path _ => 0
  | .negation => 1
  | .comparison _ | .connective _ => 2
  | .call _ count => count

theorem arity_label (tree : Expression) : tree.label.arity = tree.children.length := by
  cases tree <;> rfl

/-- A tree is the label of its topmost node and the children of this node. -/
theorem eq_of_label_of_children {a b : Expression} (hlabel : a.label = b.label)
    (hchildren : a.children = b.children) : a = b := by
  cases a with
  | literal value =>
    cases b with
    | literal => rw [Label.literal.inj hlabel]
    | _ => cases hlabel
  | path text =>
    cases b with
    | path => rw [Label.path.inj hlabel]
    | _ => cases hlabel
  | negation operand =>
    cases b with
    | negation => rw [List.singleton_inj.1 hchildren]
    | _ => cases hlabel
  | comparison op left right =>
    cases b with
    | comparison =>
      obtain ⟨rfl, hright⟩ := List.cons.inj hchildren
      rw [Label.comparison.inj hlabel, List.singleton_inj.1 hright]
    | _ => cases hlabel
  | connective op left right =>
    cases b with
    | connective =>
      obtain ⟨rfl, hright⟩ := List.cons.inj hchildren
      rw [Label.connective.inj hlabel, List.singleton_inj.1 hright]
    | _ => cases hlabel
  | call function arguments =>
    cases b with
    | call other others =>
      have harguments : arguments = others := hchildren
      rw [(Label.call.inj hlabel).1, harguments]
    | _ => cases hlabel

theorem nodesAll_eq_flatMap (trees : List Expression) : nodesAll trees = trees.flatMap nodes := by
  induction trees with
  | nil => rfl
  | cons tree trees ih => rw [nodesAll, List.flatMap_cons, ih]

/-- The labels of a tree are that of its topmost node and those of its children, one behind the
    other. -/
theorem labels_eq_children (tree : Expression) :
    tree.labels = tree.label :: tree.children.flatMap labels := by
  rw [labels, nodes_eq_children, nodesAll_eq_flatMap, List.map_cons, List.map_flatMap]
  rfl

/-- The labels of as many trees are told apart, if those of each one are. -/
theorem flatMap_labels_append_inj {trees others : List Expression}
    (htrees : ∀ tree ∈ trees, ∀ (other : Expression) (rest remainder : List Label),
      tree.labels ++ rest = other.labels ++ remainder → tree = other ∧ rest = remainder)
    (hlength : trees.length = others.length) {rest remainder : List Label}
    (h : trees.flatMap labels ++ rest = others.flatMap labels ++ remainder) :
    trees = others ∧ rest = remainder := by
  induction trees generalizing others with
  | nil =>
    obtain rfl := List.length_eq_zero_iff.1 hlength.symm
    exact ⟨rfl, h⟩
  | cons tree trees ih =>
    cases others with
    | nil => cases hlength
    | cons other others =>
      obtain ⟨htree, hlater⟩ := List.forall_mem_cons.1 htrees
      rw [List.flatMap_cons, List.flatMap_cons, List.append_assoc, List.append_assoc] at h
      -- behind the first tree stand the labels of the others
      obtain ⟨rfl, hothers⟩ := htree other _ _ h
      obtain ⟨rfl, hrest⟩ := ih hlater (Nat.succ.inj hlength) hothers
      exact ⟨rfl, hrest⟩

/-- The labels of a tree end where they do whatever stands behind them, and they determine the
    tree. -/
theorem labels_append_inj (a b : Expression) (rest remainder : List Label)
    (h : a.labels ++ rest = b.labels ++ remainder) : a = b ∧ rest = remainder := by
  induction a using byChildren generalizing b rest remainder with
  | node a ih =>
    rw [labels_eq_children a, labels_eq_children b, List.cons_append, List.cons_append] at h
    obtain ⟨hlabel, hbehind⟩ := List.cons.inj h
    have hlength : a.children.length = b.children.length := by
      rw [← arity_label, ← arity_label, hlabel]
    obtain ⟨hchildren, hrest⟩ := flatMap_labels_append_inj ih hlength hbehind
    exact ⟨eq_of_label_of_children hlabel hchildren, hrest⟩

/-- The labels of one tree begin those of another one only if the trees are the same. -/
theorem labels_isPrefix_iff {a b : Expression} : a.labels <+: b.labels ↔ a = b := by
  constructor
  · rintro ⟨rest, h⟩
    rw [← List.append_nil b.labels] at h
    exact (labels_append_inj a b rest [] h).1
  · rintro rfl
    exact List.prefix_rfl

/-- The labels of a tree determine it. -/
theorem labels_inj {a b : Expression} : a.labels = b.labels ↔ a = b := by
  constructor
  · intro h
    rw [← labels_isPrefix_iff, h]
  · exact congrArg labels

/-- The walk loses nothing. It goes through the places of a tree where something stands, once
    through each, by what stands below a place after the place itself and by what stands below a
    child before what stands below a later one. Two trees with the same labels on the way are the
    same, and the labels of no tree go on to those of another one. -/
theorem walk_lossless :
    (∀ tree : Expression,
      tree.nodes.map some = tree.places.map (fun place => tree.subtree? place) ∧
      tree.places.Nodup ∧
      (∀ place, place ∈ tree.places ↔ ∃ node, tree.subtree? place = some node) ∧
      ∀ (i j : Nat) (hi : i < tree.places.length) (hj : j < tree.places.length),
        Precedes tree.places[i] tree.places[j] ↔ i < j) ∧
    (∀ a b : Expression, a.labels = b.labels ↔ a = b) ∧
    ∀ a b : Expression, a.labels <+: b.labels ↔ a.labels = b.labels := by
  refine ⟨fun tree => ⟨tree.nodes_eq_places.symm, ?_, tree.mem_places_iff,
    fun i j hi hj => tree.precedes_getElem_iff hi hj⟩, fun a b => labels_inj, fun a b => ?_⟩
  · refine tree.places_ascend.imp fun hlt heq => ?_
    rw [heq] at hlt
    exact List.lt_irrefl _ hlt
  · rw [labels_isPrefix_iff, labels_inj]

end Expression

end FormRules
