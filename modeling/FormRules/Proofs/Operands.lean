/-
  FormRules.Proofs.Operands

  The reader of operands: literals, paths, calls, parentheses and negations. What stands
  inside is a whole expression with one level of nesting less, so that unary phrases are
  read exactly by induction on the levels that are left (`unary_reads`), and with them
  whole expressions.
-/

import FormRules.Proofs.Chains

namespace FormRules

namespace Precedence

open Grammar

/-! ## Arguments -/

section Operands

variable {limit levels stop : Nat} {expression : Level}

/-- The tokens in front of the rest are the arguments of a call, within both limits, and
    a closing parenthesis. -/
def AreArguments (limit levels : Nat) (input : List Token) (trees : List Expression)
    (rest : List Token) : Prop :=
  ∃ (arguments : List Argument) (front : List Token) (position : Nat),
    input = front ++ ⟨.closing, position⟩ :: rest ∧
    kinds front = separated (arguments.map Argument.kinds) ∧
    trees = arguments.map Argument.tree ∧
    (∀ argument ∈ arguments,
      Derives .disjunction argument.kinds argument.tree argument.nesting) ∧
    Argument.deepest arguments ≤ levels ∧ Expression.heightAll trees ≤ limit

/-- A closing parenthesis, or a comma, ends every phrase. -/
theorem ends_closing (tier : Tier) (front : List TokenKind) :
    Ends tier front (some .closing) :=
  ends_of_not_joins fun _ hkind => by
    cases hkind
    exact ⟨nofun, nofun⟩

theorem ends_comma (tier : Tier) (front : List TokenKind) : Ends tier front (some .comma) :=
  ends_of_not_joins fun _ hkind => by
    cases hkind
    exact ⟨nofun, nofun⟩

/-- A phrase in front of a closing parenthesis is a last argument. -/
theorem IsPhrase.lastArgument {input rest : List Token} {tree : Expression} {position : Nat}
    (h : IsPhrase limit levels .disjunction .disjunction input tree
      (⟨.closing, position⟩ :: rest)) :
    AreArguments limit levels input [tree] rest := by
  obtain ⟨front, nesting, hinput, hderives, hlevels, hlimit, -⟩ := h
  refine ⟨[⟨kinds front, tree, nesting⟩], front, position, hinput, rfl, rfl, ?_, ?_, ?_⟩
  · simpa using hderives
  · simpa [Argument.deepest] using hlevels
  · simpa [Expression.heightAll] using hlimit

/-- A phrase and a comma may stand in front of other arguments. -/
theorem IsPhrase.consArguments {input others rest : List Token} {tree : Expression}
    {trees : List Expression} {position : Nat}
    (h : IsPhrase limit levels .disjunction .disjunction input tree
      (⟨.comma, position⟩ :: others))
    (hothers : AreArguments limit levels others trees rest) (hne : trees ≠ []) :
    AreArguments limit levels input (tree :: trees) rest := by
  obtain ⟨front, nesting, rfl, hderives, hlevels, hlimit, -⟩ := h
  obtain ⟨arguments, back, position', rfl, hback, rfl, hall, hdeepest, hheight⟩ := hothers
  refine ⟨⟨kinds front, tree, nesting⟩ :: arguments, front ++ ⟨.comma, position⟩ :: back,
    position', by simp, ?_, rfl, ?_, Nat.max_le.2 ⟨hlevels, hdeepest⟩,
    Nat.max_le.2 ⟨hlimit, hheight⟩⟩
  · have hne' : arguments.map Argument.kinds ≠ [] := by simpa using hne
    rw [kinds_append, kinds_cons, hback, List.map_cons, separated_cons _ hne']
  · exact List.forall_mem_cons.2 ⟨hderives, hall⟩

theorem argumentsFrom_sound (hexpression : Reads limit levels .disjunction expression)
    {input : List Token} {parsed : ParsedArguments input}
    (h : argumentsFrom stop expression input = .ok parsed) :
    parsed.height = Expression.heightAll parsed.trees ∧ parsed.trees ≠ [] ∧
      AreArguments limit levels input parsed.trees parsed.rest := by
  fun_induction argumentsFrom stop expression input with
  | case1 => cases h
  | case2 => cases h
  | case3 input first hfirst position others hrest more hmore ih =>
    cases h
    obtain ⟨hheight, hphrase⟩ := hexpression.sound hfirst
    obtain ⟨hheight', hne, hothers⟩ := ih hmore
    rw [hrest] at hphrase
    refine ⟨?_, List.cons_ne_nil _ _, hphrase.consArguments hothers hne⟩
    rw [hheight, hheight', Expression.heightAll]
  | case4 input first hfirst position rest hrest =>
    cases h
    obtain ⟨hheight, hphrase⟩ := hexpression.sound hfirst
    rw [hrest] at hphrase
    exact ⟨by simp [hheight, Expression.heightAll], List.cons_ne_nil _ _, hphrase.lastArgument⟩
  | case5 => cases h

theorem arguments_sound (hexpression : Reads limit levels .disjunction expression)
    {input : List Token} {parsed : ParsedArguments input}
    (h : arguments stop expression input = .ok parsed) :
    parsed.height = Expression.heightAll parsed.trees ∧
      AreArguments limit levels input parsed.trees parsed.rest := by
  unfold arguments at h
  split at h
  · rename_i position rest
    cases h
    exact ⟨rfl, [], [], position, rfl, rfl, rfl, by simp, Nat.zero_le _, Nat.zero_le _⟩
  · obtain ⟨hheight, -, harguments⟩ := argumentsFrom_sound hexpression h
    exact ⟨hheight, harguments⟩

/-- A further argument in front of others. -/
def Parsed.cons {input others : List Token} (first : Parsed input) {token : Token}
    (hrest : first.rest = token :: others) (more : ParsedArguments others) :
    ParsedArguments input :=
  ⟨first.tree :: more.trees, max first.height more.height, more.rest,
    first.shorter_behind hrest (Nat.le_of_lt more.shorter)⟩

theorem argumentsFrom_comma {input others : List Token} {first : Parsed input} {position : Nat}
    (hfirst : expression input = .ok first) (hrest : first.rest = ⟨.comma, position⟩ :: others) :
    argumentsFrom stop expression input =
      match argumentsFrom stop expression others with
      | .error fault => .error fault
      | .ok more => .ok (first.cons hrest more) := by
  conv => lhs; unfold argumentsFrom
  rw [hfirst]
  dsimp only
  split
  · rename_i position' others' hrest'
    obtain ⟨rfl, rfl⟩ : position = position' ∧ others = others' := by simpa [hrest] using hrest'
    rfl
  · rename_i hrest'
    simp [hrest] at hrest'
  · rename_i hnot _
    exact absurd hrest (hnot _ _)

/-- The last argument. -/
def Parsed.last {input rest : List Token} (first : Parsed input) {token : Token}
    (hrest : first.rest = token :: rest) : ParsedArguments input :=
  ⟨[first.tree], first.height, rest, first.shorter_behind hrest (Nat.le_refl _)⟩

theorem argumentsFrom_closing {input rest : List Token} {first : Parsed input} {position : Nat}
    (hfirst : expression input = .ok first) (hrest : first.rest = ⟨.closing, position⟩ :: rest) :
    argumentsFrom stop expression input = .ok (first.last hrest) := by
  unfold argumentsFrom
  rw [hfirst]
  dsimp only
  split
  · rename_i hrest'
    simp [hrest] at hrest'
  · rename_i position' rest' hrest'
    obtain ⟨rfl, rfl⟩ : position = position' ∧ rest = rest' := by simpa [hrest] using hrest'
    rfl
  · rename_i _ hnot
    exact absurd hrest (hnot _ _)

theorem argumentsFrom_fault {input : List Token} {fault : Fault}
    (hfirst : expression input = .error fault) :
    argumentsFrom stop expression input = .error fault := by
  unfold argumentsFrom
  rw [hfirst]

/-- The arguments are returned if they keep both limits, and refused if not. -/
def DecidesArguments (limit levels : Nat) {input : List Token}
    (outcome : Except Fault (ParsedArguments input)) (arguments : List Argument)
    (rest : List Token) : Prop :=
  (Argument.deepest arguments ≤ levels →
    Expression.heightAll (arguments.map Argument.tree) ≤ limit →
    ∃ parsed, outcome = .ok parsed ∧ parsed.trees = arguments.map Argument.tree ∧
      parsed.height = Expression.heightAll parsed.trees ∧ parsed.rest = rest) ∧
  (levels < Argument.deepest arguments ∨
    limit < Expression.heightAll (arguments.map Argument.tree) → Refuses limit outcome)

/-- A phrase in front of the closing parenthesis is the last argument. -/
theorem argumentsFrom_last_decides {input rest : List Token} {argument : Argument}
    {position : Nat}
    (h : Decides limit levels expression input argument.tree argument.nesting
      (⟨.closing, position⟩ :: rest)) :
    DecidesArguments limit levels (argumentsFrom stop expression input) [argument] rest := by
  simp only [DecidesArguments, Argument.deepest, List.map_cons, List.map_nil,
    Expression.heightAll, Nat.max_zero]
  constructor
  · intro hlevels hlimit
    obtain ⟨first, hok, htree, hheight, hrest⟩ := h.1 hlevels hlimit
    refine ⟨first.last hrest, argumentsFrom_closing hok hrest, by rw [Parsed.last, htree], ?_, rfl⟩
    rw [Parsed.last, hheight, htree, Expression.heightAll, Expression.heightAll, Nat.max_zero]
  · intro hbeyond
    obtain ⟨position', herror⟩ := h.2 hbeyond
    exact ⟨position', argumentsFrom_fault herror⟩

/-- A phrase in front of a comma is read before the arguments behind the comma. -/
theorem argumentsFrom_cons_decides {input others rest : List Token} {argument : Argument}
    {arguments : List Argument} {position : Nat}
    (h : Decides limit levels expression input argument.tree argument.nesting
      (⟨.comma, position⟩ :: others))
    (hothers : DecidesArguments limit levels (argumentsFrom stop expression others) arguments
      rest) :
    DecidesArguments limit levels (argumentsFrom stop expression input) (argument :: arguments)
      rest := by
  simp only [DecidesArguments, Argument.deepest, List.map_cons, Expression.heightAll]
  by_cases hwithin : argument.nesting ≤ levels ∧ argument.tree.height ≤ limit
  · obtain ⟨first, hok, htree, hheight, hrest⟩ := h.1 hwithin.1 hwithin.2
    rw [argumentsFrom_comma hok hrest]
    constructor
    · intro hlevels hlimit
      obtain ⟨more, hmore, htrees, hheight', hrest'⟩ := hothers.1 (by omega) (by omega)
      rw [hmore]
      refine ⟨first.cons hrest more, rfl, ?_, ?_, hrest'⟩
      · rw [Parsed.cons, htree, htrees]
      · rw [Parsed.cons, hheight, hheight', htree, Expression.heightAll]
    · -- the first argument keeps the limits, so that a later one does not
      intro hbeyond
      obtain ⟨position', herror⟩ := hothers.2 (by omega)
      rw [herror]
      exact ⟨position', rfl⟩
  · obtain ⟨position', herror⟩ := h.2 (by omega)
    exact ⟨fun hlevels hlimit => by omega, fun _ => ⟨position', argumentsFrom_fault herror⟩⟩

/-- Derived arguments are read up to their closing parenthesis. -/
theorem argumentsFrom_decides (hexpression : Reads limit levels .disjunction expression)
    {arguments : List Argument} (hne : arguments ≠ [])
    (hall : ∀ argument ∈ arguments,
      Derives .disjunction argument.kinds argument.tree argument.nesting)
    {front : List Token} (hfront : kinds front = separated (arguments.map Argument.kinds))
    (position : Nat) (rest : List Token) :
    DecidesArguments limit levels
      (argumentsFrom stop expression (front ++ ⟨.closing, position⟩ :: rest)) arguments rest := by
  induction arguments generalizing front with
  | nil => exact absurd rfl hne
  | cons argument others ih =>
    obtain ⟨hargument, hothers⟩ := List.forall_mem_cons.1 hall
    by_cases hlast : others = []
    · subst hlast
      have hkinds : kinds front = argument.kinds := hfront
      rw [← hkinds] at hargument
      exact argumentsFrom_last_decides (hexpression.decides hargument (ends_closing _ _))
    · have hne' : others.map Argument.kinds ≠ [] := by simpa using hlast
      rw [List.map_cons, separated_cons _ hne'] at hfront
      obtain ⟨before, comma, behind, rfl, hbefore, hbehind⟩ :=
        exists_of_kinds_eq_append_cons hfront
      rw [← hbefore] at hargument
      rw [List.append_assoc, List.cons_append]
      exact argumentsFrom_cons_decides (hexpression.decides hargument (ends_comma _ _))
        (ih hlast hothers hbehind)

theorem arguments_eq {input : List Token} (h : nextKind input ≠ some .closing) :
    arguments stop expression input = argumentsFrom stop expression input := by
  unfold arguments
  split
  · exact absurd rfl h
  · rfl

/-- Derived arguments do not begin with a closing parenthesis. -/
theorem nextKind_arguments {arguments : List Argument} (hne : arguments ≠ [])
    (hall : ∀ argument ∈ arguments,
      Derives .disjunction argument.kinds argument.tree argument.nesting)
    {front : List Token} (hfront : kinds front = separated (arguments.map Argument.kinds))
    (rest : List Token) : nextKind (front ++ rest) ≠ some .closing := by
  obtain ⟨argument, others, rfl⟩ := List.exists_cons_of_ne_nil hne
  obtain ⟨first, back, hkinds, hfirst⟩ := (List.forall_mem_cons.1 hall).1.exists_eq_cons
  obtain ⟨tail, htail⟩ := exists_separated_eq_append argument.kinds (others.map Argument.kinds)
  rw [List.map_cons, htail, hkinds] at hfront
  obtain ⟨token, behind, rfl, rfl, -⟩ := List.map_eq_cons_iff.1 hfront
  intro hclosing
  obtain hkind : token.kind = .closing := by simpa [nextKind] using hclosing
  simp [hkind, startsOperand] at hfirst

/-- Derived arguments are read up to their closing parenthesis, also if there are none. -/
theorem arguments_decides (hexpression : Reads limit levels .disjunction expression)
    {arguments : List Argument}
    (hall : ∀ argument ∈ arguments,
      Derives .disjunction argument.kinds argument.tree argument.nesting)
    {front : List Token} (hfront : kinds front = separated (arguments.map Argument.kinds))
    (position : Nat) (rest : List Token) :
    DecidesArguments limit levels
      (Precedence.arguments stop expression (front ++ ⟨.closing, position⟩ :: rest)) arguments
      rest := by
  by_cases hne : arguments = []
  · subst hne
    obtain rfl : front = [] := List.map_eq_nil_iff.1 hfront
    refine ⟨fun _ _ => ⟨_, rfl, rfl, rfl, rfl⟩, ?_⟩
    simp [Argument.deepest, Expression.heightAll]
  · rw [arguments_eq (nextKind_arguments hne hall hfront _)]
    exact argumentsFrom_decides hexpression hne hall hfront position rest

/-! ## Primary phrases -/

theorem primary_literal {kind : TokenKind} {value : Json} (h : literal? kind = some value)
    (position : Nat) (rest : List Token) :
    primary limit stop expression (⟨kind, position⟩ :: rest) =
      .ok (leaf (.literal value) ⟨kind, position⟩ rest) := by
  cases kind <;> cases h <;> rfl

theorem primary_path (text : String) (position : Nat) {rest : List Token}
    (h : nextKind rest ≠ some .opening) :
    primary limit stop expression (⟨.name text, position⟩ :: rest) =
      .ok (leaf (.path text) ⟨.name text, position⟩ rest) := by
  cases rest with
  | nil => rfl
  | cons next others =>
    obtain ⟨kind, position'⟩ := next
    cases kind with
    | opening => exact absurd rfl h
    | _ => rfl

/-- What has been read inside parentheses. -/
def Parsed.group {inside rest : List Token} (parsed : Parsed inside) {token : Token}
    (hrest : parsed.rest = token :: rest) (opening : Token) : Parsed (opening :: inside) :=
  ⟨parsed.tree, parsed.height, rest,
    Nat.lt_succ_of_lt (parsed.shorter_behind hrest (Nat.le_refl _))⟩

theorem primary_group {inside rest : List Token} {parsed : Parsed inside} {position : Nat}
    (hinside : expression inside = .ok parsed) (hrest : parsed.rest = ⟨.closing, position⟩ :: rest)
    (opening : Nat) :
    primary limit stop expression (⟨.opening, opening⟩ :: inside) =
      .ok (parsed.group hrest ⟨.opening, opening⟩) := by
  simp only [primary, hinside]
  split
  · rename_i position' rest' hrest'
    obtain ⟨rfl, rfl⟩ : position = position' ∧ rest = rest' := by simpa [hrest] using hrest'
    rfl
  · rename_i hnot
    exact absurd hrest (hnot _ _)

/-- A token that is a phrase by itself is one in front of any tokens, but a path in front
    of a parenthesis. -/
theorem isPhrase_token {token : Token} {rest : List Token} {tree : Expression}
    (h : Derives .unary [token.kind] tree 1) (hlevels : 0 < levels)
    (hlimit : tree.height ≤ limit)
    (hnext : nextKind rest = some .opening → ∀ name, token.kind ≠ .name name) :
    IsPhrase limit levels .unary .unary (token :: rest) tree rest := by
  refine ⟨[token], 1, rfl, h, hlevels, hlimit, ends_unary fun hopening name hlast => ?_⟩
  exact hnext hopening name (by simpa using hlast)

/-- A closing parenthesis ends a unary phrase. -/
theorem ends_unary_closing (front : List TokenKind) (next : Option TokenKind) :
    Ends .unary (front ++ [.closing]) next :=
  ends_unary fun _ name hlast => by simp at hlast

/-- A phrase in parentheses is nested one level deeper. -/
theorem IsPhrase.group {inside rest : List Token} {tree : Expression} {opening closing : Nat}
    (h : IsPhrase limit levels .disjunction .disjunction inside tree
      (⟨.closing, closing⟩ :: rest)) :
    IsPhrase limit (levels + 1) .unary .unary (⟨.opening, opening⟩ :: inside) tree rest := by
  obtain ⟨front, nesting, rfl, hderives, hlevels, hlimit, -⟩ := h
  refine ⟨⟨.opening, opening⟩ :: (front ++ [⟨.closing, closing⟩]), nesting + 1, by simp, ?_,
    by omega, hlimit, ?_⟩
  · simpa using Derives.group hderives
  · simpa using ends_unary_closing (.opening :: kinds front) _

/-- A name and arguments in parentheses are a call, one level deeper and one higher. -/
theorem AreArguments.call {inside rest : List Token} {trees : List Expression}
    (h : AreArguments limit levels inside trees rest)
    (hlimit : Expression.heightAll trees + 1 ≤ limit) (name : String) (position opening : Nat) :
    IsPhrase limit (levels + 1) .unary .unary
      (⟨.name name, position⟩ :: ⟨.opening, opening⟩ :: inside) (.call name trees) rest := by
  obtain ⟨arguments, front, closing, rfl, hfront, rfl, hall, hdeepest, -⟩ := h
  refine ⟨⟨.name name, position⟩ :: ⟨.opening, opening⟩ :: (front ++ [⟨.closing, closing⟩]),
    Argument.deepest arguments + 1, by simp, ?_, by omega, hlimit, ?_⟩
  · simpa [hfront] using Derives.call hall
  · simpa using ends_unary_closing (.name name :: .opening :: kinds front) _

/-- A negated phrase is nested one level deeper and one higher. -/
theorem IsPhrase.negation {inside rest : List Token} {tree : Expression}
    (h : IsPhrase limit levels .unary .unary inside tree rest) (hlimit : tree.height + 1 ≤ limit)
    (position : Nat) :
    IsPhrase limit (levels + 1) .unary .unary (⟨.negation, position⟩ :: inside)
      (.negation tree) rest := by
  obtain ⟨front, nesting, rfl, hderives, hlevels, -, hends⟩ := h
  exact ⟨⟨.negation, position⟩ :: front, nesting + 1, rfl, hderives.negation, by omega, hlimit,
    (@ends_append_iff _ [.negation] _ _ hderives.kinds_ne_nil).2 hends⟩

/-- Primary phrases are derived, with one level of nesting more than what is inside. -/
theorem primary_sound (hexpression : Reads limit levels .disjunction expression)
    (hlimit : 0 < limit) {input : List Token} {parsed : Parsed input}
    (h : primary limit stop expression input = .ok parsed) :
    parsed.height = parsed.tree.height ∧
      IsPhrase limit (levels + 1) .unary .unary input parsed.tree parsed.rest := by
  unfold primary at h
  split at h
  · cases h
  · cases h
    exact ⟨rfl, isPhrase_token (.literal rfl) (by omega) hlimit (by simp)⟩
  · cases h
    exact ⟨rfl, isPhrase_token (.literal rfl) (by omega) hlimit (by simp)⟩
  · cases h
    exact ⟨rfl, isPhrase_token (.literal rfl) (by omega) hlimit (by simp)⟩
  · cases h
    exact ⟨rfl, isPhrase_token (.literal rfl) (by omega) hlimit (by simp)⟩
  · rename_i name position opening inside
    split at h
    · cases h
    · rename_i found hfound
      obtain ⟨hheight, harguments⟩ := arguments_sound hexpression hfound
      split at h
      · cases h
      · cases h
        refine ⟨by rw [Expression.height, hheight], harguments.call ?_ name position opening⟩
        omega
  · -- a name is a path only if no parenthesis follows
    rename_i text position rest hnot
    cases h
    refine ⟨rfl, isPhrase_token .path (by omega) hlimit fun hopening => ?_⟩
    obtain ⟨⟨_, opening⟩, inside, rfl, rfl⟩ : ∃ token inside, rest = token :: inside ∧
        token.kind = .opening := by
      cases rest with
      | nil => cases hopening
      | cons token inside => exact ⟨token, inside, rfl, by simpa [nextKind] using hopening⟩
    exact absurd rfl (hnot opening inside)
  · rename_i opening inside
    split at h
    · cases h
    · rename_i found hfound
      obtain ⟨hheight, hphrase⟩ := hexpression.sound hfound
      split at h
      · rename_i closing rest hrest
        cases h
        rw [hrest] at hphrase
        exact ⟨hheight, hphrase.group⟩
      · cases h
  · cases h

/-! ## Unary phrases -/

theorem unary_eq_primary {input : List Token} (h : nextKind input ≠ some .negation) :
    unary limit stop (levels + 1) input =
      primary limit stop (Precedence.expression limit (unary limit stop levels)) input := by
  conv => lhs; unfold unary
  split
  · exact absurd rfl h
  · rfl

/-- Without any level left every phrase is refused. -/
theorem unary_zero_reads (limit stop : Nat) : Reads limit 0 .unary (unary limit stop 0) where
  sound h := by cases h
  decides hderives _ :=
    ⟨fun hlevels _ => absurd hderives.nesting_pos (Nat.not_lt.2 hlevels), fun _ => ⟨_, rfl⟩⟩

theorem unary_negation_decides (h : Reads limit levels .unary (unary limit stop levels))
    {front rest : List Token} {tree : Expression} {nesting : Nat}
    (hderives : Derives .unary (kinds front) tree nesting)
    (hends : Ends .unary (kinds front) (nextKind rest)) (position : Nat) :
    Decides limit (levels + 1) (unary limit stop (levels + 1))
      (⟨.negation, position⟩ :: (front ++ rest)) (.negation tree) (nesting + 1) rest := by
  simp only [Decides, Gives, Expression.height, unary]
  by_cases hwithin : nesting ≤ levels ∧ tree.height ≤ limit
  · obtain ⟨operand, hok, htree, hheight, hrest⟩ :=
      (h.decides hderives hends).1 hwithin.1 hwithin.2
    rw [hok]
    constructor
    · intro _ hlimit
      refine ⟨_, if_neg (by omega), ?_, ?_, hrest⟩
      · rw [htree]
      · rw [hheight]
    · intro hbeyond
      exact ⟨position, if_pos (by omega)⟩
  · obtain ⟨position', herror⟩ := (h.decides hderives hends).2 (by omega)
    rw [herror]
    exact ⟨fun hlevels hlimit => by omega, fun _ => ⟨position', rfl⟩⟩

theorem leaf_decides {level : Level} {token : Token} {rest : List Token} {tree : Expression}
    (hok : level (token :: rest) = .ok (leaf tree token rest)) (hheight : tree.height = 1)
    (hlevels : 0 < levels) (hlimit : 0 < limit) :
    Decides limit levels level (token :: rest) tree 1 rest := by
  refine ⟨fun _ _ => ⟨_, hok, rfl, hheight.symm, rfl⟩, fun hbeyond => ?_⟩
  omega

theorem primary_group_decides (hexpression : Reads limit levels .disjunction expression)
    {front : List Token} {tree : Expression} {nesting : Nat}
    (hderives : Derives .disjunction (kinds front) tree nesting) (opening closing : Nat)
    (rest : List Token) :
    Decides limit (levels + 1) (primary limit stop expression)
      (⟨.opening, opening⟩ :: (front ++ ⟨.closing, closing⟩ :: rest)) tree (nesting + 1) rest := by
  obtain ⟨hgives, hrefuses⟩ := hexpression.decides hderives
    (show Ends .disjunction _ (nextKind (⟨.closing, closing⟩ :: rest)) from ends_closing _ _)
  constructor
  · intro hlevels hlimit
    obtain ⟨parsed, hok, htree, hheight, hrest⟩ := hgives (by omega) hlimit
    exact ⟨_, primary_group hok hrest opening, htree, hheight, rfl⟩
  · intro hbeyond
    obtain ⟨position, herror⟩ := hrefuses (by omega)
    exact ⟨position, by simp only [primary, herror]⟩

theorem primary_call_decides (hexpression : Reads limit levels .disjunction expression)
    {arguments : List Argument}
    (hall : ∀ argument ∈ arguments,
      Derives .disjunction argument.kinds argument.tree argument.nesting)
    {front : List Token} (hfront : kinds front = separated (arguments.map Argument.kinds))
    (name : String) (position opening closing : Nat) (rest : List Token) :
    Decides limit (levels + 1) (primary limit stop expression)
      (⟨.name name, position⟩ :: ⟨.opening, opening⟩ :: (front ++ ⟨.closing, closing⟩ :: rest))
      (.call name (arguments.map Argument.tree)) (Argument.deepest arguments + 1) rest := by
  have harguments := @arguments_decides _ _ stop _ hexpression _ hall _ hfront closing rest
  simp only [Decides, Gives, Expression.height, primary]
  by_cases hwithin : Argument.deepest arguments ≤ levels ∧
      Expression.heightAll (arguments.map Argument.tree) ≤ limit
  · obtain ⟨parsed, hok, htrees, hheight, hrest⟩ := harguments.1 hwithin.1 hwithin.2
    rw [hok]
    rw [htrees] at hheight
    constructor
    · intro _ hlimit
      refine ⟨_, if_neg (by omega), ?_, ?_, hrest⟩
      · rw [htrees]
      · rw [hheight]
    · intro hbeyond
      exact ⟨position, if_pos (by omega)⟩
  · obtain ⟨position', herror⟩ := harguments.2 (by omega)
    rw [herror]
    exact ⟨fun hlevels hlimit => by omega, fun _ => ⟨position', rfl⟩⟩

/-- One more level of nesting is counted off by `!`, `(` and calls. -/
theorem unary_succ_reads (hlimit : 0 < limit)
    (h : Reads limit levels .unary (unary limit stop levels)) :
    Reads limit (levels + 1) .unary (unary limit stop (levels + 1)) where
  sound := by
    intro input parsed hok
    unfold unary at hok
    split at hok
    · rename_i position rest
      split at hok
      · cases hok
      · rename_i operand hoperand
        obtain ⟨hheight, hphrase⟩ := h.sound hoperand
        split at hok
        · cases hok
        · cases hok
          refine ⟨by rw [Expression.height, hheight], hphrase.negation ?_ position⟩
          omega
    · exact primary_sound (expression_reads h) hlimit hok
  decides := by
    intro front rest tree nesting hderives hends
    generalize hfront : kinds front = all at hderives hends
    -- every unary phrase but a single token takes one level for what is inside
    cases hderives with
    | operand hinner | join hinner => cases hinner
    | negation hinside =>
      obtain ⟨⟨_, position⟩, inside, rfl, rfl, rfl⟩ := List.map_eq_cons_iff.1 hfront
      exact unary_negation_decides h hinside
        ((@ends_append_iff _ [.negation] _ _ hinside.kinds_ne_nil).1 hends) position
    | @literal kind value hvalue =>
      obtain ⟨position, rfl⟩ := exists_of_kinds_eq_singleton hfront
      rw [List.singleton_append]
      refine leaf_decides ?_ rfl (Nat.succ_pos _) hlimit
      rw [unary_eq_primary, primary_literal hvalue]
      intro hnext
      obtain rfl : kind = .negation := by simpa [nextKind] using hnext
      cases hvalue
    | path =>
      obtain ⟨position, rfl⟩ := exists_of_kinds_eq_singleton hfront
      rw [List.singleton_append]
      refine leaf_decides ?_ rfl (Nat.succ_pos _) hlimit
      rw [unary_eq_primary (by simp [nextKind]), primary_path]
      -- a parenthesis behind the name would go on with the phrase
      intro hopening
      exact (hends _ hopening).2 rfl _ rfl
    | group hinside =>
      obtain ⟨opening, between, closing, rfl, rfl⟩ := exists_of_kinds_eq_enclosed hfront
      rw [List.cons_append, List.append_assoc, List.singleton_append]
      exact (primary_group_decides (expression_reads h) hinside opening closing rest).congr
        (unary_eq_primary (by simp [nextKind]))
    | call harguments =>
      obtain ⟨⟨_, position⟩, others, rfl, rfl, hothers⟩ := List.map_eq_cons_iff.1 hfront
      obtain ⟨opening, between, closing, rfl, hbetween⟩ := exists_of_kinds_eq_enclosed hothers
      rw [List.cons_append, List.cons_append, List.append_assoc, List.singleton_append]
      exact (primary_call_decides (expression_reads h) harguments hbetween _ position opening
        closing rest).congr (unary_eq_primary (by simp [nextKind]))

/-- Unary phrases are read exactly within every limit. -/
theorem unary_reads {levels limit : Nat} (h : levels ≤ limit) (stop : Nat) :
    Reads limit levels .unary (unary limit stop levels) := by
  induction levels with
  | zero => exact unary_zero_reads limit stop
  | succ levels ih => exact unary_succ_reads (by omega) (ih (by omega))

end Operands

/-- Whole expressions are read exactly within every limit. -/
theorem expression_unary_reads {levels limit : Nat} (h : levels ≤ limit) (stop : Nat) :
    Reads limit levels .disjunction (expression limit (unary limit stop levels)) :=
  expression_reads (unary_reads h stop)

/-- Where nothing follows, every phrase ends. -/
theorem Reads.decides_all {limit levels : Nat} {tier : Tier} {level : Level}
    (h : Reads limit levels tier level) {input : List Token} {tree : Expression} {nesting : Nat}
    (hderives : Derives tier (kinds input) tree nesting) :
    Decides limit levels level input tree nesting [] := by
  have hends : Ends tier (kinds input) (nextKind []) := fun _ hkind => by cases hkind
  simpa using h.decides hderives hends

end Precedence

end FormRules
