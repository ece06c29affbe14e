/-
  FormRules.Proofs.Dependence

  What the value of an expression depends on.

    * `evaluate_congr`: contexts in which all paths of an expression lead to the same
      give it the same outcome, whatever else they hold.
    * `eq_root_or_isDependency`: a path that leads anywhere is one of the two bare roots
      or is listed as a dependency. Evaluation splits a path at its points, the list
      compares its beginning, and the two agree.

  Main statement: `evaluate_eq_of_dependencies`, contexts that agree on the dependencies,
  and on the bare roots where these occur, cannot be told apart.
-/

import FormRules.Rule.Evaluation
import FormRules.Rule.ReadPaths

namespace FormRules

/-! ## Roots of paths -/

namespace Path

/-- A path is its first segment, alone or with a point behind it. -/
theorem split_fst (text : List Char) :
    text = (split text).1 ∨ ∃ rest, text = (split text).1 ++ '.' :: rest := by
  induction text with
  | nil => exact Or.inl rfl
  | cons c rest ih =>
    by_cases hc : c = '.'
    · subst hc
      exact Or.inr ⟨rest, by simp [split]⟩
    · have hfirst : (split (c :: rest)).1 = c :: (split rest).1 := by simp [split, hc]
      rw [hfirst]
      rcases ih with h | ⟨behind, h⟩
      · exact Or.inl (congrArg _ h)
      · exact Or.inr ⟨behind, congrArg _ h⟩

/-- A path is its root, or begins with its root and a point. -/
theorem eq_root_or_isPrefixOf (path : String) :
    path = root path ∨ (root path ++ ".").toList.isPrefixOf path.toList := by
  rcases split_fst path.toList with h | ⟨rest, h⟩
  · refine Or.inl ?_
    rw [root, ← h, String.ofList_toList]
  · refine Or.inr (List.isPrefixOf_iff_prefix.2 ⟨rest, ?_⟩)
    rw [root, String.toList_append, String.toList_ofList, List.append_assoc]
    exact h.symm

end Path

namespace Expression

/-- A path under one of the two roots is this root, or is listed. -/
theorem eq_root_or_isDependency {path : String} (h : Path.root path ∈ ["ctx", "fields"]) :
    path ∈ ["ctx", "fields"] ∨ isDependency path := by
  rcases Path.eq_root_or_isPrefixOf path with hroot | hprefix
  · exact Or.inl (hroot ▸ h)
  · refine Or.inr (List.any_eq_true.2 ⟨_, ?_, hprefix⟩)
    simp only [List.mem_cons, List.not_mem_nil, or_false] at h
    rcases h with h | h <;> rw [h] <;> decide

/-! ## The list of dependencies -/

theorem mem_insertName {name other : String} {names : List String} :
    other ∈ insertName name names ↔ other = name ∨ other ∈ names := by
  fun_induction insertName name names with
  | case1 => simp
  | case2 => simp
  | case3 => simp
  | case4 first names _ _ ih =>
    rw [List.mem_cons, ih, List.mem_cons]
    exact or_left_comm

theorem mem_foldr_insertName {path : String} {names : List String} :
    path ∈ names.foldr insertName [] ↔ path ∈ names := by
  induction names with
  | nil => rfl
  | cons name names ih => rw [List.foldr_cons, mem_insertName, ih, List.mem_cons]

/-- The list holds the paths below the two roots among the nodes. -/
theorem mem_dependencies {tree : Expression} {path : String} :
    path ∈ tree.dependencies ↔ .path path ∈ tree.nodes ∧ isDependency path := by
  have hnode : ∀ node : Expression, path? node = some path ↔ node = .path path := by
    intro node
    cases node <;> simp [path?]
  rw [dependencies, mem_foldr_insertName, List.mem_filter, List.mem_filterMap]
  simp only [hnode, exists_eq_right]

/-! ## Evaluation -/

section Evaluate

variable {context other : Context}

mutual

/-- The outcome depends on the paths in the tree only. -/
theorem evaluate_congr : ∀ {tree : Expression},
    (∀ path, .path path ∈ tree.nodes → context.resolve path = other.resolve path) →
    evaluate context tree = evaluate other tree
  | .literal _, _ => rfl
  | .path text, h => congrArg Except.ok (h text (by simp [nodes]))
  | .negation operand, h => by
    have hoperand : evaluate context operand = evaluate other operand :=
      evaluate_congr fun path hpath => h path (by simp [nodes, hpath])
    rw [evaluate, evaluate, hoperand]
  | .comparison _ left right, h => by
    have hleft : evaluate context left = evaluate other left :=
      evaluate_congr fun path hpath => h path (by simp [nodes, hpath])
    have hright : evaluate context right = evaluate other right :=
      evaluate_congr fun path hpath => h path (by simp [nodes, hpath])
    rw [evaluate, evaluate, hleft, hright]
  | .connective _ left right, h => by
    have hleft : evaluate context left = evaluate other left :=
      evaluate_congr fun path hpath => h path (by simp [nodes, hpath])
    have hright : evaluate context right = evaluate other right :=
      evaluate_congr fun path hpath => h path (by simp [nodes, hpath])
    rw [evaluate, evaluate, hleft, hright]
  | .call _ arguments, h => by
    have harguments : evaluateAll context arguments = evaluateAll other arguments :=
      evaluateAll_congr fun path hpath => h path (by simp [nodes, hpath])
    rw [evaluate, evaluate, harguments]

theorem evaluateAll_congr : ∀ {trees : List Expression},
    (∀ path, .path path ∈ nodesAll trees → context.resolve path = other.resolve path) →
    evaluateAll context trees = evaluateAll other trees
  | [], _ => rfl
  | tree :: trees, h => by
    have htree : evaluate context tree = evaluate other tree :=
      evaluate_congr fun path hpath => h path (by simp [nodesAll, hpath])
    have htrees : evaluateAll context trees = evaluateAll other trees :=
      evaluateAll_congr fun path hpath => h path (by simp [nodesAll, hpath])
    rw [evaluateAll, evaluateAll, htree, htrees]

end

/-- A path with another root leads nowhere. -/
theorem resolve_of_root_not_mem {path : String} (h : Path.root path ∉ ["ctx", "fields"])
    (context : Context) : context.resolve path = none := by
  simp only [List.mem_cons, List.not_mem_nil, or_false, not_or] at h
  rw [Context.resolve, if_neg h.1, if_neg h.2]

/-- Two contexts in which all dependencies of an expression lead to the same, and the bare
    roots as well where they occur in it, give it the same value or the same fault. -/
theorem evaluate_eq_of_dependencies {tree : Expression}
    (hpaths : ∀ path ∈ tree.dependencies, context.resolve path = other.resolve path)
    (hroots : ∀ root ∈ ["ctx", "fields"], .path root ∈ tree.nodes →
      context.resolve root = other.resolve root) :
    evaluate context tree = evaluate other tree := by
  refine evaluate_congr fun path hpath => ?_
  by_cases hroot : Path.root path ∈ ["ctx", "fields"]
  · -- under one of the roots the path is bare or listed
    rcases eq_root_or_isDependency hroot with hbare | hlisted
    · exact hroots path hbare hpath
    · exact hpaths path (mem_dependencies.2 ⟨hpath, hlisted⟩)
  · rw [resolve_of_root_not_mem hroot, resolve_of_root_not_mem hroot]

end Evaluate

/-- A member that a rule does not read makes no difference to it. -/
theorem evaluate_beside_unread :
    dependencies (.connective .and (.path "ctx.a") (.path "fields")) = ["ctx.a"] ∧
      (Context.new (.object [("a", .null)])).resolve "ctx.b" ≠
        (Context.new (.object [("a", .null), ("b", .null)])).resolve "ctx.b" ∧
      evaluate (Context.new (.object [("a", .null)]))
          (.connective .and (.path "ctx.a") (.path "fields")) =
        evaluate (Context.new (.object [("a", .null), ("b", .null)]))
          (.connective .and (.path "ctx.a") (.path "fields")) := by
  have hlist : dependencies (.connective .and (.path "ctx.a") (.path "fields")) = ["ctx.a"] := by
    decide
  refine ⟨hlist, by decide, evaluate_eq_of_dependencies ?_ ?_⟩
  · rw [hlist]
    decide
  · intro root hroot hnode
    have hpath : root = "ctx.a" ∨ root = "fields" := by simpa [nodes] using hnode
    rcases hpath with rfl | rfl
    · exact absurd hroot (by decide)
    · decide

end Expression

end FormRules
