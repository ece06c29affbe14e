/-
  FormRules.Proofs.Writing

  Trees written back as tokens, with the fewest parentheses: a left operand of an
  operator is put in parentheses if it belongs to a looser tier, a right operand also if
  it belongs to the same tier, and the operand of `!` if it belongs to any binary tier.

    * `fits_written`: what is written is derived again, and is nested no deeper than the
      tree is high. Parentheses stand around operators only, and an operator is always
      higher than its operands.
    * `count_opening_le`: no derivation of the tree has fewer parentheses.
-/

import FormRules.Proofs.Denotation
import FormRules.Proofs.Grammar

namespace FormRules

open Grammar Lexeme

/-! ## Tokens of a tree -/

/-- The tier of a comparison. -/
def Comparison.tier (op : Comparison) : Tier := if op.isEquality then .equality else .ordering

/-- The tier of a connective. -/
def Connective.tier : Connective → Tier
  | .or => .disjunction
  | .and => .conjunction

namespace Expression

/-- The tightest tier to which a tree belongs without parentheses. -/
def tier : Expression → Tier
  | .comparison op _ _ => op.tier
  | .connective op _ _ => op.tier
  | .literal _ | .path _ | .negation _ | .call _ _ => .unary

/-- The token of a literal. Arrays and objects have none. -/
def literalKinds : Json → List TokenKind
  | .number n => [.number n]
  | .string s => [.string s]
  | .boolean b => [.boolean b]
  | .null => [.null]
  | .array _ | .object _ => []

/-- Tokens of a tier, in parentheses where something tighter is needed. -/
def enclosed (least : Nat) (tier : Tier) (all : List TokenKind) : List TokenKind :=
  if tier.tightness < least then .opening :: (all ++ [.closing]) else all

mutual

/-- The tokens of a tree with as few parentheses as its operators allow. -/
def written : Expression → List TokenKind
  | .literal value => literalKinds value
  | .path text => [.name text]
  | .negation operand =>
    .negation :: enclosed Tier.unary.tightness operand.tier (written operand)
  | .comparison op left right =>
    enclosed op.tier.tightness left.tier (written left) ++
      .comparison op :: enclosed (op.tier.tightness + 1) right.tier (written right)
  | .connective op left right =>
    enclosed op.tier.tightness left.tier (written left) ++
      .connective op :: enclosed (op.tier.tightness + 1) right.tier (written right)
  | .call function arguments =>
    .name function :: .opening :: (separated (writtenAll arguments) ++ [.closing])

/-- The tokens of some trees, apart. -/
def writtenAll : List Expression → List (List TokenKind)
  | [] => []
  | tree :: trees => written tree :: writtenAll trees

end

/-! ## Trees that can be written -/

/-- Whether a node can be written: numbers must be values of number tokens, the text of
    a path and the name of a call must be single names, and there are no literals for
    arrays and objects. -/
def Label.IsLexable : Label → Prop
  | .literal (.number n) => ∃ text, IsNumber text ∧ numberValue text = some n
  | .literal (.array _) | .literal (.object _) => False
  | .literal .null | .literal (.boolean _) | .literal (.string _) => True
  | .path text => IsPath text
  | .call function _ => IsPath function
  | .negation | .comparison _ | .connective _ => True

/-- Whether all nodes of a tree can be written. -/
def IsLexable (tree : Expression) : Prop := ∀ label ∈ tree.labels, label.IsLexable

@[simp] theorem isLexable_literal {value : Json} :
    (Expression.literal value).IsLexable ↔ (Label.literal value).IsLexable := by
  simp [IsLexable, labels, nodes, label]

@[simp] theorem isLexable_path {text : String} :
    (Expression.path text).IsLexable ↔ IsPath text := by
  simp [IsLexable, labels, nodes, label, Label.IsLexable]

@[simp] theorem isLexable_negation {operand : Expression} :
    (Expression.negation operand).IsLexable ↔ operand.IsLexable := by
  simp [IsLexable, labels, nodes, label, Label.IsLexable]

@[simp] theorem isLexable_comparison {op : Comparison} {left right : Expression} :
    (Expression.comparison op left right).IsLexable ↔ left.IsLexable ∧ right.IsLexable := by
  simp [IsLexable, labels, nodes, label, Label.IsLexable, or_imp, forall_and]

@[simp] theorem isLexable_connective {op : Connective} {left right : Expression} :
    (Expression.connective op left right).IsLexable ↔ left.IsLexable ∧ right.IsLexable := by
  simp [IsLexable, labels, nodes, label, Label.IsLexable, or_imp, forall_and]

theorem mem_nodesAll {node : Expression} {trees : List Expression} :
    node ∈ nodesAll trees ↔ ∃ tree ∈ trees, node ∈ tree.nodes := by
  induction trees with
  | nil => simp [nodesAll]
  | cons tree trees ih => simp [nodesAll, ih]

@[simp] theorem isLexable_call {function : String} {arguments : List Expression} :
    (Expression.call function arguments).IsLexable ↔
      IsPath function ∧ ∀ tree ∈ arguments, tree.IsLexable := by
  simp only [IsLexable, labels, nodes, List.map_cons, List.forall_mem_cons, label, Label.IsLexable]
  simp only [List.mem_map, mem_nodesAll]
  grind

end Expression

/-! ## Operators -/

/-- A comparison joins operands of its tier. -/
theorem Comparison.joins (op : Comparison) :
    Joins op.tier (.comparison op) (.comparison op) := by
  cases op
  all_goals first | exact .equality (by decide) | exact .ordering (by decide)

/-- A connective joins operands of its tier. -/
theorem Connective.joins (op : Connective) :
    Joins op.tier (.connective op) (.connective op) := by
  cases op
  · exact .and
  · exact .or

section Joins

variable {tier : Tier} {operator : TokenKind} {node : Expression → Expression → Expression}

/-- A tier with operators has operands. -/
theorem Grammar.Joins.exists_operands (h : Joins tier operator node) :
    ∃ inner, tier.operands? = some inner := by
  cases h <;> exact ⟨_, rfl⟩

/-- A node belongs to the tier of its operator. -/
theorem Grammar.Joins.tier_eq (h : Joins tier operator node) (left right : Expression) :
    (node left right).tier = tier := by
  cases h with
  | or | and => rfl
  | @equality op h => exact (op.joins.unique (.equality h)).1
  | @ordering op h => exact (op.joins.unique (.ordering h)).1

/-- A node is written with its operator between the operands. -/
theorem Grammar.Joins.written_eq (h : Joins tier operator node) (left right : Expression) :
    (node left right).written =
      Expression.enclosed tier.tightness left.tier left.written ++
        operator :: Expression.enclosed (tier.tightness + 1) right.tier right.written := by
  have htier := h.tier_eq left right
  cases h with
  | or | and => rfl
  | equality | ordering => exact htier ▸ rfl

end Joins

namespace Expression

/-! ## What is written is derived -/

/-- Some tokens of a tree that are nested no deeper than the tree is high, and less deep
    than that where an operator is on top. -/
def Fits (tree : Expression) (all : List TokenKind) : Prop :=
  ∃ nesting, Derives tree.tier all tree nesting ∧ nesting ≤ tree.height ∧
    (tree.tier ≠ .unary → nesting < tree.height)

/-- Parentheses use up what an operator leaves. -/
theorem Fits.enclosed {tree : Expression} {all : List TokenKind} (h : Fits tree all)
    (tier : Tier) :
    ∃ nesting, Derives tier (enclosed tier.tightness tree.tier all) tree nesting ∧
      nesting ≤ tree.height := by
  obtain ⟨nesting, hderives, hheight, hoperator⟩ := h
  unfold Expression.enclosed
  split
  · -- parentheses are written around an operator only, which is higher than its nesting
    rename_i hlt
    have hunary : tree.tier ≠ .unary := by
      rintro heq
      rw [heq] at hlt
      cases tier <;> simp [Tier.tightness] at hlt
    have hgroup := Derives.group (hderives.loosen (Nat.zero_le _))
    exact ⟨nesting + 1, hgroup.loosen (by cases tier <;> decide), hoperator hunary⟩
  · rename_i hle
    exact ⟨nesting, hderives.loosen (Nat.not_lt.1 hle), hheight⟩

/-- An operator with its operands written on both sides. -/
theorem Fits.join {tier : Tier} {operator : TokenKind}
    {node : Expression → Expression → Expression} (hnode : Joins tier operator node)
    {left right : Expression} (hleft : Fits left left.written)
    (hright : Fits right right.written) :
    Fits (node left right) (node left right).written := by
  obtain ⟨inner, hinner⟩ := hnode.exists_operands
  obtain ⟨m, hm, hmheight⟩ := hleft.enclosed tier
  obtain ⟨n, hn, hnheight⟩ := hright.enclosed inner
  rw [Tier.tightness_operands hinner] at hn
  have hheight := hnode.height_eq left right
  -- neither operand is nested deeper than it is high, and the node is one higher
  refine ⟨max m n, ?_, by omega, fun _ => by omega⟩
  rw [hnode.tier_eq, hnode.written_eq]
  exact .join hinner hnode hm hn

/-- A single token is nested as deep as its leaf is high. -/
theorem fits_leaf {tree : Expression} {all : List TokenKind} (htier : tree.tier = .unary)
    (hheight : tree.height = 1) (h : Derives .unary all tree 1) : Fits tree all :=
  ⟨1, htier ▸ h, Nat.le_of_eq hheight.symm, fun hne => absurd htier hne⟩

theorem fits_literal {value : Json} (h : (Expression.literal value).IsLexable) :
    Fits (.literal value) (literalKinds value) := by
  rw [isLexable_literal] at h
  cases value with
  | null | boolean | number | string => exact fits_leaf rfl rfl (.literal rfl)
  | array | object => exact h.elim

mutual

/-- A tree that can be written is derived from what is written. -/
theorem fits_written : ∀ {tree : Expression}, tree.IsLexable → Fits tree (written tree)
  | .literal _, h => fits_literal h
  | .path _, _ => fits_leaf rfl rfl .path
  | .negation operand, h => by
    have hoperand := fits_written (isLexable_negation.1 h)
    obtain ⟨nesting, hderives, hheight⟩ := hoperand.enclosed .unary
    exact ⟨nesting + 1, hderives.negation, Nat.succ_le_succ hheight, fun hne => absurd rfl hne⟩
  | .comparison op _ _, h => by
    obtain ⟨hleft, hright⟩ := isLexable_comparison.1 h
    exact Fits.join op.joins (fits_written hleft) (fits_written hright)
  | .connective op _ _, h => by
    obtain ⟨hleft, hright⟩ := isLexable_connective.1 h
    exact Fits.join op.joins (fits_written hleft) (fits_written hright)
  | .call function trees, h => by
    obtain ⟨arguments, htrees, hkinds, hall, hdeepest⟩ :=
      derives_writtenAll (isLexable_call.1 h).2
    refine ⟨Argument.deepest arguments + 1, ?_, Nat.succ_le_succ hdeepest,
      fun hne => absurd rfl hne⟩
    rw [written, ← hkinds, ← htrees]
    exact .call hall

theorem derives_writtenAll : ∀ {trees : List Expression}, (∀ tree ∈ trees, tree.IsLexable) →
    ∃ arguments : List Argument, arguments.map Argument.tree = trees ∧
      arguments.map Argument.kinds = writtenAll trees ∧
      (∀ argument ∈ arguments,
        Derives .disjunction argument.kinds argument.tree argument.nesting) ∧
      Argument.deepest arguments ≤ heightAll trees
  | [], _ => ⟨[], rfl, rfl, nofun, Nat.le_refl 0⟩
  | tree :: _, h => by
    obtain ⟨htree, htrees⟩ := List.forall_mem_cons.1 h
    obtain ⟨nesting, hderives, hheight, -⟩ := fits_written htree
    obtain ⟨arguments, hmap, hkinds, hall, hdeepest⟩ := derives_writtenAll htrees
    refine ⟨⟨written tree, tree, nesting⟩ :: arguments, ?_, ?_, ?_, ?_⟩
    · rw [List.map_cons, hmap]
    · rw [List.map_cons, hkinds, writtenAll]
    · exact List.forall_mem_cons.2 ⟨hderives.loosen (Nat.zero_le _), hall⟩
    · exact Nat.max_le.2 ⟨Nat.le_trans hheight (Nat.le_max_left _ _),
        Nat.le_trans hdeepest (Nat.le_max_right _ _)⟩

end

/-! ## No derivation has fewer parentheses -/

theorem enclosed_of_le {least : Nat} {tier : Tier} (h : least ≤ tier.tightness)
    (all : List TokenKind) : enclosed least tier all = all :=
  if_neg (Nat.not_lt.2 h)

/-- Fewer places need parentheses where looser tiers may stand. -/
theorem count_enclosed_mono {least more : Nat} (h : least ≤ more) (tier : Tier)
    (all : List TokenKind) :
    (enclosed least tier all).count .opening ≤ (enclosed more tier all).count .opening := by
  by_cases hless : tier.tightness < least
  · have hmore : tier.tightness < more := by omega
    exact Nat.le_of_eq (by rw [enclosed, enclosed, if_pos hless, if_pos hmore])
  · rw [enclosed_of_le (Nat.not_lt.1 hless), enclosed]
    split
    · rw [List.count_cons_self, List.count_append]
      omega
    · exact Nat.le_refl _

/-- Parentheses around some tokens are one more pair. -/
theorem count_enclosed_le (least : Nat) (tier : Tier) (all : List TokenKind) :
    (enclosed least tier all).count .opening ≤ all.count .opening + 1 := by
  unfold enclosed
  split
  · simp
  · exact Nat.le_succ _

theorem count_separated_cons (all : List TokenKind) (others : List (List TokenKind)) :
    (separated (all :: others)).count .opening =
      all.count .opening + (separated others).count .opening := by
  cases others with
  | nil => simp [separated]
  | cons => simp [separated]

theorem count_separated_le {arguments : List Argument}
    (h : ∀ argument ∈ arguments,
      argument.tree.written.count .opening ≤ argument.kinds.count .opening) :
    (separated (writtenAll (arguments.map Argument.tree))).count .opening ≤
      (separated (arguments.map Argument.kinds)).count .opening := by
  induction arguments with
  | nil => exact Nat.le_refl _
  | cons argument arguments ih =>
    obtain ⟨hargument, harguments⟩ := List.forall_mem_cons.1 h
    rw [List.map_cons, List.map_cons, writtenAll, count_separated_cons, count_separated_cons]
    exact Nat.add_le_add hargument (ih harguments)

/-- Whatever a tree is derived from, it has at least the parentheses that are written. -/
theorem count_opening_le {place : Tier} {all : List TokenKind} {tree : Expression} {nesting : Nat}
    (h : Derives place all tree nesting) :
    (enclosed place.tightness tree.tier tree.written).count .opening ≤ all.count .opening := by
  -- one pair more is counted where the place needs parentheses and the tree has none
  induction h with
  | operand hinner _ ih =>
    have htight := Tier.tightness_operands hinner
    exact Nat.le_trans (count_enclosed_mono (by omega) _ _) ih
  | @join tier inner operator node front back left right m n hinner hnode _ _ ihleft ihright =>
    rw [Tier.tightness_operands hinner] at ihright
    rw [hnode.tier_eq, enclosed_of_le (Nat.le_refl _), hnode.written_eq]
    simp only [List.count_append, List.count_cons]
    omega
  | @negation all tree nesting _ ih =>
    rw [tier, enclosed_of_le (Nat.le_refl _), written]
    simpa using ih
  | @literal kind value h =>
    rw [tier, enclosed_of_le (Nat.le_refl _), written]
    cases kind <;> cases h <;> simp [literalKinds]
  | path => exact Nat.le_of_eq (by rw [tier, enclosed_of_le (Nat.le_refl _), written])
  | @group all tree nesting _ ih =>
    rw [@enclosed_of_le Tier.disjunction.tightness _ (Nat.zero_le _)] at ih
    have hone := count_enclosed_le Tier.unary.tightness tree.tier tree.written
    simp only [List.count_cons_self, List.count_append]
    omega
  | @call function arguments _ ih =>
    rw [tier, enclosed_of_le (Nat.le_refl _), written]
    have hall : ∀ argument ∈ arguments,
        argument.tree.written.count .opening ≤ argument.kinds.count .opening := by
      intro argument hmem
      have hargument := ih argument hmem
      rwa [@enclosed_of_le Tier.disjunction.tightness _ (Nat.zero_le _)] at hargument
    have hsum := count_separated_le hall
    simpa using hsum

end Expression

end FormRules
