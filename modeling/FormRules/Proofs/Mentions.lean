/-
  FormRules.Proofs.Mentions

  The dependencies of an expression can be read off its tokens. A name is a path unless an
  opening parenthesis follows it, and then the walk through the tree meets this path: the
  paths among the tokens are those among the nodes, in the same order and as often.

  By induction on the derivation, with any tokens behind the phrase that do not begin with
  an opening parenthesis. These are needed for a name at the end of a phrase.

  Main statement: `dependencies_mentioned`.
-/

import FormRules.Proofs.ByteOrder
import FormRules.Proofs.Caching
import FormRules.Proofs.Dependence
import FormRules.Proofs.Rendering

namespace FormRules

namespace Expression

open Grammar

/-! ## Paths of a tree -/

/-- The paths that the walk through a tree meets. -/
def paths (tree : Expression) : List String := tree.nodes.filterMap path?

/-- The paths that the walk through several trees meets. -/
def pathsAll (trees : List Expression) : List String := (nodesAll trees).filterMap path?

theorem pathsAll_cons (tree : Expression) (trees : List Expression) :
    pathsAll (tree :: trees) = paths tree ++ pathsAll trees := by
  rw [pathsAll, nodesAll, List.filterMap_append]
  rfl

/-- The paths of the operands are met from left to right. -/
theorem paths_join {tier : Tier} {operator : TokenKind}
    {node : Expression → Expression → Expression} (h : Joins tier operator node)
    (left right : Expression) : paths (node left right) = paths left ++ paths right := by
  cases h <;> simp [paths, nodes, path?, List.filterMap_cons]

end Expression

namespace Grammar

open Expression

/-! ## Names that are not called -/

/-- The names among some tokens, but for the names of calls. -/
def mentions : List TokenKind → List String
  | [] => []
  | .name text :: rest =>
    if rest.head? = some .opening then mentions rest else text :: mentions rest
  | _ :: rest => mentions rest

theorem mentions_path {rest : List TokenKind} (h : rest.head? ≠ some .opening) (path : String) :
    mentions (.name path :: rest) = path :: mentions rest := by
  rw [mentions, if_neg h]

/-- Other tokens than names mention nothing. -/
theorem mentions_other (kind : TokenKind) (h : ∀ text, kind ≠ .name text)
    (rest : List TokenKind) : mentions (kind :: rest) = mentions rest := by
  cases kind with
  | name text => exact absurd rfl (h text)
  | _ => rfl

/-- The name of a call is not a path. -/
theorem mentions_call (function : String) (rest : List TokenKind) :
    mentions (.name function :: .opening :: rest) = mentions rest :=
  (if_pos rfl).trans (mentions_other .opening (by simp) rest)

/-- Where the names stand that are not called. -/
theorem mem_mentions {path : String} {all : List TokenKind} :
    path ∈ mentions all ↔
      ∃ front back, all = front ++ .name path :: back ∧ back.head? ≠ some .opening := by
  induction all with
  | nil => simp [mentions]
  | cons kind rest ih =>
    -- the name is the first token, or stands among the others
    have hsplit : (∃ front back, kind :: rest = front ++ .name path :: back ∧
        back.head? ≠ some .opening) ↔
        (kind = .name path ∧ rest.head? ≠ some .opening) ∨ path ∈ mentions rest := by
      rw [ih]
      constructor
      · rintro ⟨front, back, heq, hback⟩
        cases front with
        | nil =>
          obtain ⟨rfl, rfl⟩ := List.cons.inj heq
          exact Or.inl ⟨rfl, hback⟩
        | cons first front =>
          obtain ⟨rfl, rfl⟩ := List.cons.inj heq
          exact Or.inr ⟨front, back, rfl, hback⟩
      · rintro (⟨rfl, hrest⟩ | ⟨front, back, rfl, hback⟩)
        · exact ⟨[], rest, rfl, hrest⟩
        · exact ⟨kind :: front, back, rfl, hback⟩
    rw [hsplit]
    by_cases hname : ∃ text, kind = .name text
    · obtain ⟨text, rfl⟩ := hname
      by_cases hopening : rest.head? = some .opening
      · rw [mentions, if_pos hopening]
        simp [hopening]
      · rw [mentions_path hopening, List.mem_cons]
        simp [hopening, eq_comm]
    · rw [mentions_other kind fun text htext => hname ⟨text, htext⟩]
      simp [show kind ≠ .name path from fun heq => hname ⟨path, heq⟩]

/-- An operator is not a name. -/
theorem mentions_join {tier : Tier} {operator : TokenKind}
    {node : Expression → Expression → Expression} (h : Joins tier operator node)
    (rest : List TokenKind) :
    mentions (operator :: rest) = mentions rest ∧
      (operator :: rest).head? ≠ some .opening := by
  cases h <;> exact ⟨rfl, by simp⟩

/-- Where the tokens stand that are names and not called. -/
theorem mem_mentions_kinds {path : String} {tokens : List Token} :
    path ∈ mentions (kinds tokens) ↔
      ∃ front position back, tokens = front ++ ⟨.name path, position⟩ :: back ∧
        Precedence.nextKind back ≠ some .opening := by
  have hnext (back : List Token) : (kinds back).head? = Precedence.nextKind back :=
    List.head?_map
  rw [mem_mentions]
  constructor
  · rintro ⟨front, back, heq, hback⟩
    obtain ⟨before, position, after, rfl, -, rfl⟩ := exists_of_kinds_eq_append_cons heq
    exact ⟨before, position, after, rfl, hnext after ▸ hback⟩
  · rintro ⟨front, position, back, rfl, hback⟩
    exact ⟨kinds front, kinds back, by simp, (hnext back).symm ▸ hback⟩

/-! ## Phrases -/

/-- A phrase mentions the paths of its tree, whatever stands behind it. -/
def Mentions (all : List TokenKind) (tree : Expression) : Prop :=
  ∀ {rest : List TokenKind}, rest.head? ≠ some .opening →
    mentions (all ++ rest) = paths tree ++ mentions rest

theorem mentions_separated {arguments : List Argument}
    (h : ∀ argument ∈ arguments, Mentions argument.kinds argument.tree) {rest : List TokenKind}
    (hrest : rest.head? ≠ some .opening) :
    mentions (separated (arguments.map Argument.kinds) ++ rest) =
      pathsAll (arguments.map Argument.tree) ++ mentions rest := by
  induction arguments with
  | nil => rfl
  | cons argument arguments ih =>
    obtain ⟨hfirst, hothers⟩ := List.forall_mem_cons.1 h
    rw [List.map_cons, List.map_cons, pathsAll_cons, List.append_assoc]
    cases arguments with
    | nil => exact hfirst hrest
    | cons other arguments =>
      have hcomma : (TokenKind.comma ::
          (separated ((other :: arguments).map Argument.kinds) ++ rest)).head? ≠
          some .opening := by
        simp
      rw [separated_cons argument.kinds (by simp), List.append_assoc, List.cons_append,
        hfirst hcomma, mentions_other .comma (by simp),
        ih hothers]

/-- A phrase mentions the paths of its tree. -/
theorem Derives.mentions {tier : Tier} {all : List TokenKind} {tree : Expression} {nesting : Nat}
    (h : Derives tier all tree nesting) : Mentions all tree := by
  induction h with
  | operand _ _ ih => exact ih
  | @join tier inner operator node front back left right _ _ _ hnode _ _ ihleft ihright =>
    intro rest hrest
    obtain ⟨hoperator, hhead⟩ := mentions_join hnode (back ++ rest)
    rw [List.append_assoc, List.cons_append, ihleft hhead, hoperator, ihright hrest,
      paths_join hnode, List.append_assoc]
  | negation _ ih =>
    intro rest hrest
    rw [List.cons_append, mentions_other .negation (by simp), ih hrest]
    rfl
  | @literal kind value h =>
    intro rest _
    cases kind <;> cases h <;> rfl
  | @path text =>
    intro rest hrest
    exact mentions_path hrest text
  | group _ ih =>
    intro rest _
    have hclosing : (TokenKind.closing :: rest).head? ≠ some .opening := by simp
    rw [List.cons_append, mentions_other .opening (by simp), List.append_assoc,
      List.singleton_append, ih hclosing, mentions_other .closing (by simp)]
  | @call function arguments _ ih =>
    intro rest _
    have hclosing : (TokenKind.closing :: rest).head? ≠ some .opening := by simp
    rw [List.cons_append, List.cons_append, mentions_call, List.append_assoc,
      List.singleton_append, mentions_separated ih hclosing,
      mentions_other .closing (by simp)]
    rfl

end Grammar

namespace Expression

open Grammar

/-! ## The list of dependencies -/

/-- A name that is put into an ascending list leaves it ascending. -/
theorem pairwise_insertName {name : String} {names : List String}
    (h : names.Pairwise (· < ·)) : (insertName name names).Pairwise (· < ·) := by
  fun_induction insertName name names with
  | case1 => exact List.pairwise_singleton _ _
  | case2 other names hlt =>
    refine List.pairwise_cons.2 ⟨?_, h⟩
    intro later hlater
    rcases List.mem_cons.1 hlater with rfl | hlater
    · exact hlt
    · exact String.lt_trans hlt ((List.pairwise_cons.1 h).1 later hlater)
  | case3 => exact h
  | case4 other names hnlt hne ih =>
    obtain ⟨hfirst, hrest⟩ := List.pairwise_cons.1 h
    refine List.pairwise_cons.2 ⟨?_, ih hrest⟩
    intro later hlater
    rcases mem_insertName.1 hlater with rfl | hlater
    · -- neither below the first name nor equal to it
      by_contra hle
      exact hne (String.le_antisymm (String.not_lt.1 hle) (String.not_lt.1 hnlt))
    · exact hfirst later hlater

theorem pairwise_dependencies (tree : Expression) : tree.dependencies.Pairwise (· < ·) := by
  rw [dependencies]
  generalize (tree.nodes.filterMap path?).filter isDependency = names
  induction names with
  | nil => exact .nil
  | cons name names ih => exact pairwise_insertName ih

theorem isDependency_iff {path : String} :
    isDependency path ↔ "ctx.".toList <+: path.toList ∨ "fields.".toList <+: path.toList := by
  simp [isDependency, dependencyRoots]

theorem mem_dependencies_iff_mem_paths {tree : Expression} {path : String} :
    path ∈ tree.dependencies ↔ path ∈ tree.paths ∧ isDependency path := by
  rw [dependencies, mem_foldr_insertName, List.mem_filter, paths]

/-- A source that is read as a tree mentions the paths of the tree. -/
theorem mentions_of_parse {limit : Nat} {source : String} {tree : Expression}
    (h : parse limit source = .ok tree) :
    ∃ tokens, Tokens.scan source = .ok tokens ∧ mentions (kinds tokens.list) = tree.paths := by
  obtain ⟨tokens, hscan⟩ := exists_scan_of_parse h
  refine ⟨tokens, hscan, ?_⟩
  rw [parse_of_tokens hscan] at h
  split at h
  · rename_i hnil
    cases h
    rw [hnil]
    simp [mentions, paths, always, nodes, path?]
  · obtain ⟨nesting, hderives, -⟩ := ofTokens_eq_ok_iff.1 h
    have hmentions := @Derives.mentions _ _ _ _ hderives [] (by simp)
    rwa [List.append_nil, mentions, List.append_nil] at hmentions

end Expression

namespace Engine

open Expression Precedence

/-- If a source is read as a tree, its dependencies are the names among its tokens that
    begin with one of the two roots and a point and have no opening parenthesis behind
    them, each of them once and in the order of their bytes. A source that is blank or
    that is not read as a tree has none. -/
theorem dependencies_mentioned (settings : Settings) (operations : List Operation)
    (source : String) :
    let answer := (((new settings).after operations).dependencies source).answer
    (∀ tree, parse settings.maxDepth source = .ok tree →
      answer.Pairwise (fun a b => utf8Bytes a < utf8Bytes b) ∧
      ∃ tokens, Tokens.scan source = .ok tokens ∧
        ∀ path, path ∈ answer ↔
          ("ctx.".toList <+: path.toList ∨ "fields.".toList <+: path.toList) ∧
          ∃ front position back, tokens.list = front ++ ⟨.name path, position⟩ :: back ∧
            nextKind back ≠ some .opening) ∧
    (source.toList.all isBlank → answer = []) ∧
    ∀ fault, parse settings.maxDepth source = .error fault → answer = [] := by
  intro answer
  have hanswer : answer = dependenciesOf (parse settings.maxDepth source) :=
    dependencies_after settings operations source
  refine ⟨?_, ?_, ?_⟩
  · intro tree htree
    have hlist : answer = tree.dependencies := by rw [hanswer, htree, dependenciesOf]
    rw [hlist]
    refine ⟨(pairwise_dependencies tree).imp utf8Bytes_lt_iff.2, ?_⟩
    obtain ⟨tokens, hscan, hmentions⟩ := mentions_of_parse htree
    refine ⟨tokens, hscan, fun path => ?_⟩
    rw [mem_dependencies_iff_mem_paths, ← hmentions, Grammar.mem_mentions_kinds,
      isDependency_iff, and_comm]
  · intro hblank
    have halways : parse settings.maxDepth source = .ok always := if_pos hblank
    rw [hanswer, halways]
    decide
  · intro fault herror
    rw [hanswer, herror, dependenciesOf]

/-- The arguments of an unknown function are listed, the names of functions are not. -/
theorem dependencies_of_unknown_call :
    Tokens.scan "f(ctx.b,ctx.a(ctx.b))" = .ok ⟨[⟨.name "f", 0⟩, ⟨.opening, 1⟩, ⟨.name "ctx.b", 2⟩,
        ⟨.comma, 7⟩, ⟨.name "ctx.a", 8⟩, ⟨.opening, 13⟩, ⟨.name "ctx.b", 14⟩, ⟨.closing, 19⟩,
        ⟨.closing, 20⟩], 21⟩ ∧
      parse 64 "f(ctx.b,ctx.a(ctx.b))" =
        .ok (.call "f" [.path "ctx.b", .call "ctx.a" [.path "ctx.b"]]) ∧
      "ctx.b" ∈ (default.dependencies "f(ctx.b,ctx.a(ctx.b))").answer ∧
      (default.dependencies "f(ctx.b,ctx.a(ctx.b))").answer.Pairwise
        (fun a b => utf8Bytes a < utf8Bytes b) := by
  have hscan : Tokens.scan "f(ctx.b,ctx.a(ctx.b))" = .ok ⟨[⟨.name "f", 0⟩, ⟨.opening, 1⟩,
      ⟨.name "ctx.b", 2⟩, ⟨.comma, 7⟩, ⟨.name "ctx.a", 8⟩, ⟨.opening, 13⟩, ⟨.name "ctx.b", 14⟩,
      ⟨.closing, 19⟩, ⟨.closing, 20⟩], 21⟩ := by
    with_unfolding_all rfl
  have hparse : parse 64 "f(ctx.b,ctx.a(ctx.b))" =
      .ok (.call "f" [.path "ctx.b", .call "ctx.a" [.path "ctx.b"]]) := by
    rw [parse_of_tokens hscan, if_neg (by simp)]
    with_unfolding_all rfl
  obtain ⟨hascends, tokens, htokens, hmem⟩ :=
    (dependencies_mentioned {} [] "f(ctx.b,ctx.a(ctx.b))").1 _ hparse
  obtain rfl := Except.ok.inj (hscan.symm.trans htokens)
  have hlisted :=
    (hmem "ctx.b").2 ⟨by decide, [⟨.name "f", 0⟩, ⟨.opening, 1⟩], 2, _, rfl, by decide⟩
  exact ⟨hscan, hparse, hlisted, hascends⟩

end Engine

end FormRules
