/-
  FormRules.Proofs.Tracing

  A descent does what the levels of `Precedence` do.

  `Comes` states of a moment that the calls in progress are left as they are with what a
  level returns, the cursor where the level's tokens end and the counter as it was, or
  with the level's fault. `Traces` states this of all moments at which a routine is
  called. Chains, arguments and primary phrases carry it from what they call to
  themselves. For unary phrases it is proved by induction on the levels of nesting that
  are left: together with the counter they make up the limit.

  So whatever the moment, a routine that is called comes back, since every level gives an
  outcome.
-/

import FormRules.Proofs.Descent

namespace FormRules

namespace Descent

open Grammar Precedence

/-! ## The cursor -/

section Cursor

variable {tokens : Tokens} {input rest : List Token} {token : Token}

/-- Where the cursor stands when these are the tokens that are left. -/
def place (tokens : Tokens) (input : List Token) : Nat := tokens.list.length - input.length

/-- The cursor is at the first token that is left, or at the end. -/
theorem terminals_place (h : input <:+ tokens.list) :
    tokens.terminals[place tokens input]? =
      some ⟨nextKind input, nextPosition tokens.stop input⟩ := by
  obtain ⟨front, hfront⟩ := h
  have hplace : place tokens input = front.length := by
    rw [place, ← hfront, List.length_append]
    omega
  rw [hplace, Tokens.terminals, ← hfront, List.map_append, List.append_assoc,
    List.getElem?_append_right (by simp), List.length_map, Nat.sub_self]
  cases input <;> rfl

theorem looking_place (h : input <:+ tokens.list) (depth : Nat) (calls : List Frame)
    (next : Terminal → State) :
    looking tokens.terminals (place tokens input) depth calls next =
      next ⟨nextKind input, nextPosition tokens.stop input⟩ := by
  rw [looking, terminals_place h]

/-- Behind the first token that is left, the cursor stands at the next place. -/
theorem place_cons (h : token :: rest <:+ tokens.list) :
    place tokens (token :: rest) + 1 = place tokens rest := by
  have hlength := h.length_le
  simp only [place, List.length_cons] at hlength ⊢
  omega

theorem suffix_of_cons (h : token :: rest <:+ tokens.list) : rest <:+ tokens.list :=
  (List.suffix_cons token rest).trans h

end Cursor

/-! ## What a routine does for a level -/

section Levels

variable {tokens : Tokens} {limit depth : Nat}

/-- From this moment on the calls in progress are left as they are, with what has been
    read, or with a fault and without anything counted off that was counted before. -/
def Comes (tokens : Tokens) (limit depth : Nat) (calls : List Frame) (state : State)
    {α : Type} (control : α → Control) (rest : α → List Token) : Except Fault α → Prop
  | .ok parsed => rest parsed <:+ tokens.list ∧ Runs tokens.terminals limit calls state
      ⟨place tokens (rest parsed), depth, control parsed, calls⟩
  | .error fault => ∃ index depth', depth ≤ depth' ∧ Runs tokens.terminals limit calls state
      ⟨index, depth', .fault fault, calls⟩

/-- How a call comes back with a tree. -/
def answer {input : List Token} (parsed : Parsed input) : Control :=
  .result parsed.tree parsed.height

/-- How a call comes back with arguments. -/
def answerAll {input : List Token} (parsed : ParsedArguments input) : Control :=
  .results parsed.trees parsed.height

/-- Wherever a routine is called at this depth, it does what the level does. -/
def Traces (tokens : Tokens) (limit depth : Nat) (routine : Routine) (level : Level) : Prop :=
  ∀ ⦃input : List Token⦄, input <:+ tokens.list → ∀ calls : List Frame,
    Comes tokens limit depth calls ⟨place tokens input, depth, .enter routine, calls⟩ answer
      Parsed.rest (level input)

variable {calls : List Frame} {state next back : State} {frame : Frame}

section Comes

variable {α : Type} {control : α → Control} {rest : α → List Token} {outcome : Except Fault α}

/-- One step ahead of a moment, inside of the same calls. -/
theorem Comes.step (hstep : step tokens.terminals limit state = some next)
    (hinside : Inside calls next) (h : Comes tokens limit depth calls next control rest outcome) :
    Comes tokens limit depth calls state control rest outcome := by
  cases outcome with
  | ok parsed => exact ⟨h.1, .step hstep hinside h.2⟩
  | error fault =>
    obtain ⟨index, depth', hdepth, hruns⟩ := h
    exact ⟨index, depth', hdepth, .step hstep hinside hruns⟩

/-- A whole call ahead of a moment, inside of the same calls. -/
theorem Comes.append (hruns : Runs tokens.terminals limit (frame :: calls) state back)
    (hback : back.calls = frame :: calls)
    (h : Comes tokens limit depth calls back control rest outcome) :
    Comes tokens limit depth calls state control rest outcome := by
  cases outcome with
  | ok parsed => exact ⟨h.1, hruns.append hback h.2⟩
  | error fault =>
    obtain ⟨index, depth', hdepth, hrest⟩ := h
    exact ⟨index, depth', hdepth, hruns.append hback hrest⟩

/-- A call in progress that is not a unary phrase fails with what it waits for. -/
theorem Comes.passOn {β : Type} {control' : β → Control} {rest' : β → List Token} {fault : Fault}
    (hframe : frame.isUnary = false)
    (h : Comes tokens limit depth (frame :: calls) state control' rest' (.error fault)) :
    Comes tokens limit depth calls state control rest (.error fault) := by
  obtain ⟨index, depth', hdepth, hruns⟩ := h
  refine ⟨index, depth', hdepth, hruns.append rfl (.last ?_)⟩
  cases frame <;> first | rfl | cases hframe

/-- A unary phrase fails with what it waits for, and counts itself off. -/
theorem Comes.passOn_unary {β : Type} {control' : β → Control} {rest' : β → List Token}
    {fault : Fault} (hframe : frame = .operand ∨ ∃ position, frame = .negation position)
    (h : Comes tokens limit (depth + 1) (frame :: calls) state control' rest' (.error fault)) :
    Comes tokens limit depth calls state control rest (.error fault) := by
  obtain ⟨index, depth', hdepth, hruns⟩ := h
  obtain ⟨more, rfl⟩ : ∃ more, depth' = more + 1 := ⟨depth' - 1, by omega⟩
  refine ⟨index, more, by omega, hruns.append rfl (.last ?_)⟩
  rcases hframe with rfl | ⟨position, rfl⟩ <;> rfl

end Comes

/-! ## Chains -/

section Chain

variable {tier inner : Tier} {operand : Level} {input : List Token}

theorem node?_eq_some_iff {kind : TokenKind} {node : Expression → Expression → Expression} :
    node? tier kind = some node ↔ Joins tier kind node := by
  cases tier with
  | disjunction => exact disjunctionNode?_eq_some_iff kind node
  | conjunction => exact conjunctionNode?_eq_some_iff kind node
  | equality => exact equalityNode?_eq_some_iff kind node
  | ordering => exact orderingNode?_eq_some_iff kind node
  | unary => exact ⟨nofun, nofun⟩

/-- A chain comes back where no operator of its tier follows. -/
theorem goOn_stop (h : input <:+ tokens.list)
    (hstop : ∀ kind ∈ nextKind input, node? tier kind = none) (tree : Expression) (height : Nat) :
    goOn tokens.terminals tier tree height (place tokens input) depth calls =
      ⟨place tokens input, depth, .result tree height, calls⟩ := by
  have hnone : (nextKind input).bind (node? tier) = none := by
    rw [Option.bind_eq_none_iff]
    exact hstop
  rw [goOn, looking_place h]
  simp only [hnone]
  cases tier.operands? <;> rfl

/-- Behind an operator of its tier a chain calls for an operand. -/
theorem goOn_cons {token : Token} {rest : List Token} (h : token :: rest <:+ tokens.list)
    (hinner : tier.operands? = some inner) {node : Expression → Expression → Expression}
    (hnode : node? tier token.kind = some node) (tree : Expression) (height : Nat) :
    goOn tokens.terminals tier tree height (place tokens (token :: rest)) depth calls =
      ⟨place tokens rest, depth, .enter (.tier inner),
        .later tier tree height node token.position :: calls⟩ := by
  have hsome : (nextKind (token :: rest)).bind (node? tier) = some node := hnode
  rw [goOn, looking_place h]
  simp only [hinner, hsome, place_cons h]
  rfl

theorem chainFrom_comes (hinner : tier.operands? = some inner)
    (hoperand : Traces tokens limit depth (.tier inner) operand) {left : Parsed input}
    (hleft : left.rest <:+ tokens.list)
    (hstep : step tokens.terminals limit state = some
      (goOn tokens.terminals tier left.tree left.height (place tokens left.rest) depth calls)) :
    Comes tokens limit depth calls state answer Parsed.rest
      (chainFrom limit (node? tier) operand left) := by
  -- each turn of the loop begins with what has been read so far
  fun_induction chainFrom limit (node? tier) operand left generalizing state with
  | case1 left hrest =>
    rw [goOn_stop hleft (by simp [hrest, nextKind])] at hstep
    exact ⟨hleft, .last hstep⟩
  | case2 left token rest hrest hnone =>
    rw [goOn_stop hleft (by simp [hrest, nextKind, hnone])] at hstep
    exact ⟨hleft, .last hstep⟩
  | case3 left token rest hrest node hsome fault herror =>
    rw [hrest] at hleft hstep
    rw [goOn_cons hleft hinner hsome] at hstep
    have hcomes := hoperand (suffix_of_cons hleft)
      (.later tier left.tree left.height node token.position :: calls)
    rw [herror] at hcomes
    exact (hcomes.passOn rfl).step hstep (.of_calls rfl)
  | case4 left token rest hrest node hsome right hright height =>
    rename_i hlt
    rw [hrest] at hleft hstep
    rw [goOn_cons hleft hinner hsome] at hstep
    have hcomes := hoperand (suffix_of_cons hleft)
      (.later tier left.tree left.height node token.position :: calls)
    rw [hright] at hcomes
    have hback : step tokens.terminals limit ⟨place tokens right.rest, depth, answer right,
        .later tier left.tree left.height node token.position :: calls⟩ =
          some ⟨place tokens right.rest, depth, .fault (.tooDeep limit token.position), calls⟩ :=
      congrArg some (if_pos hlt)
    exact ⟨_, depth, Nat.le_refl _, .step hstep (.of_calls rfl) (hcomes.2.append rfl (.last hback))⟩
  | case5 left token rest hrest node hsome right hright height hle =>
    rename_i ih
    rw [hrest] at hleft hstep
    rw [goOn_cons hleft hinner hsome] at hstep
    have hcomes := hoperand (suffix_of_cons hleft)
      (.later tier left.tree left.height node token.position :: calls)
    rw [hright] at hcomes
    have hback : step tokens.terminals limit ⟨place tokens right.rest, depth, answer right,
        .later tier left.tree left.height node token.position :: calls⟩ =
          some (goOn tokens.terminals tier (node left.tree right.tree)
            (max left.height right.height + 1) (place tokens right.rest) depth calls) :=
      congrArg some (if_neg hle)
    exact ((ih hcomes.1 hback).append hcomes.2 rfl).step hstep (.of_calls rfl)

/-- A chain does what its level does, if its operands do. -/
theorem chain_traces (hinner : tier.operands? = some inner)
    (hoperand : Traces tokens limit depth (.tier inner) operand) :
    Traces tokens limit depth (.tier tier) (chain limit (node? tier) operand) := by
  intro input hinput calls
  have hbegin : step tokens.terminals limit
      ⟨place tokens input, depth, .enter (.tier tier), calls⟩ =
        some ⟨place tokens input, depth, .enter (.tier inner), .first tier :: calls⟩ := by
    rw [step, begin, hinner]
  have hcomes := hoperand hinput (.first tier :: calls)
  unfold chain
  cases hleft : operand input with
  | error fault =>
    rw [hleft] at hcomes
    exact (hcomes.passOn rfl).step hbegin (.of_calls rfl)
  | ok left =>
    rw [hleft] at hcomes
    exact ((chainFrom_comes hinner hoperand hcomes.1 rfl).append hcomes.2 rfl).step hbegin
      (.of_calls rfl)

/-- An expression does what a disjunction does. -/
theorem expression_traces {level : Level}
    (h : Traces tokens limit depth (.tier .disjunction) level) :
    Traces tokens limit depth .expression level := by
  intro input hinput calls
  have hcomes := h hinput (.expression :: calls)
  cases hlevel : level input with
  | error fault =>
    rw [hlevel] at hcomes
    exact (hcomes.passOn rfl).step rfl (.of_calls rfl)
  | ok parsed =>
    rw [hlevel] at hcomes
    exact ⟨hcomes.1, .step rfl (.of_calls rfl) (hcomes.2.append rfl (.last rfl))⟩

end Chain

/-! ## Operands -/

section Operands

variable {expression : Level}

/-! ### Arguments -/

section Arguments

variable {input rest : List Token} {position : Nat} {trees : List Expression} {tallest : Nat}

/-- Arguments go on behind a comma. -/
theorem step_comma (h : ⟨.comma, position⟩ :: rest <:+ tokens.list) (tree : Expression)
    (height : Nat) :
    step tokens.terminals limit ⟨place tokens (⟨.comma, position⟩ :: rest), depth,
        .result tree height, .arguments trees tallest :: calls⟩ =
      some ⟨place tokens rest, depth, .enter .expression,
        .arguments (trees ++ [tree]) (max tallest height) :: calls⟩ := by
  rw [step, take, looking_place h, ← place_cons h]
  rfl

/-- Arguments come back behind a closing parenthesis. -/
theorem step_closing (h : ⟨.closing, position⟩ :: rest <:+ tokens.list) (tree : Expression)
    (height : Nat) :
    step tokens.terminals limit ⟨place tokens (⟨.closing, position⟩ :: rest), depth,
        .result tree height, .arguments trees tallest :: calls⟩ =
      some ⟨place tokens rest, depth, .results (trees ++ [tree]) (max tallest height), calls⟩ := by
  rw [step, take, looking_place h, ← place_cons h]
  rfl

/-- Arguments fail in front of anything else. -/
theorem step_separator (h : input <:+ tokens.list) (hcomma : nextKind input ≠ some .comma)
    (hclosing : nextKind input ≠ some .closing) (tree : Expression) (height : Nat) :
    step tokens.terminals limit ⟨place tokens input, depth, .result tree height,
        .arguments trees tallest :: calls⟩ =
      some ⟨place tokens input, depth, .fault (.misplaced (.separator (nextKind input))
        (nextPosition tokens.stop input)), calls⟩ := by
  rw [step, take, looking_place h, if_neg hcomma, if_neg hclosing]

/-- From each argument on, the arguments read so far come in front of the others. -/
theorem argumentsFrom_comes (h : Traces tokens limit depth .expression expression)
    (hinput : input <:+ tokens.list) (trees : List Expression) (tallest : Nat) :
    Comes tokens limit depth calls
      ⟨place tokens input, depth, .enter .expression, .arguments trees tallest :: calls⟩
      (fun parsed => .results (trees ++ parsed.trees) (max tallest parsed.height))
      ParsedArguments.rest (argumentsFrom tokens.stop expression input) := by
  fun_induction argumentsFrom tokens.stop expression input generalizing trees tallest with
  | case1 input fault herror =>
    have hcomes := h hinput (.arguments trees tallest :: calls)
    rw [herror] at hcomes
    exact hcomes.passOn rfl
  | case2 input first hfirst position others hrest fault herror ih =>
    have hcomes := h hinput (.arguments trees tallest :: calls)
    rw [hfirst] at hcomes
    obtain ⟨hsuffix, hruns⟩ := hcomes
    rw [hrest] at hsuffix hruns
    have hothers := ih (suffix_of_cons hsuffix) (trees ++ [first.tree]) (max tallest first.height)
    rw [herror] at hothers
    exact (hothers.step (step_comma hsuffix _ _) (.of_calls rfl)).append hruns rfl
  | case3 input first hfirst position others hrest more hmore ih =>
    have hcomes := h hinput (.arguments trees tallest :: calls)
    rw [hfirst] at hcomes
    obtain ⟨hsuffix, hruns⟩ := hcomes
    rw [hrest] at hsuffix hruns
    have hothers := ih (suffix_of_cons hsuffix) (trees ++ [first.tree]) (max tallest first.height)
    rw [hmore] at hothers
    obtain ⟨hrest', hruns'⟩ :=
      (hothers.step (step_comma hsuffix _ _) (.of_calls rfl)).append hruns rfl
    simp only [List.append_assoc, Nat.max_assoc] at hruns'
    exact ⟨hrest', hruns'⟩
  | case4 input first hfirst position rest hrest =>
    have hcomes := h hinput (.arguments trees tallest :: calls)
    rw [hfirst] at hcomes
    obtain ⟨hsuffix, hruns⟩ := hcomes
    rw [hrest] at hsuffix hruns
    exact ⟨suffix_of_cons hsuffix, hruns.append rfl (.last (step_closing hsuffix _ _))⟩
  | case5 input first hfirst hcomma hclosing =>
    have hcomes := h hinput (.arguments trees tallest :: calls)
    rw [hfirst] at hcomes
    have hcomma' : nextKind first.rest ≠ some .comma := by
      intro hkind
      obtain ⟨position, others, hrest⟩ := nextKind_eq_some_iff.1 hkind
      exact hcomma position others hrest
    have hclosing' : nextKind first.rest ≠ some .closing := by
      intro hkind
      obtain ⟨position, others, hrest⟩ := nextKind_eq_some_iff.1 hkind
      exact hclosing position others hrest
    exact ⟨_, depth, Nat.le_refl _,
      hcomes.2.append rfl (.last (step_separator hcomes.1 hcomma' hclosing' _ _))⟩

/-- Wherever arguments are called for, they are read as a level reads them. -/
theorem arguments_comes (h : Traces tokens limit depth .expression expression)
    (hinput : input <:+ tokens.list) (calls : List Frame) :
    Comes tokens limit depth calls ⟨place tokens input, depth, .enter .arguments, calls⟩
      answerAll ParsedArguments.rest (arguments tokens.stop expression input) := by
  by_cases hclosing : nextKind input = some .closing
  · obtain ⟨position, rest, rfl⟩ := nextKind_eq_some_iff.1 hclosing
    refine ⟨suffix_of_cons hinput, .last ?_⟩
    rw [step, begin, looking_place hinput, ← place_cons hinput]
    rfl
  · have hbegin : step tokens.terminals limit
        ⟨place tokens input, depth, .enter .arguments, calls⟩ =
          some ⟨place tokens input, depth, .enter .expression, .arguments [] 0 :: calls⟩ := by
      rw [step, begin, looking_place hinput, if_neg hclosing]
    have hcomes := (argumentsFrom_comes h hinput [] 0).step hbegin (.of_calls rfl)
    simp only [List.nil_append, Nat.zero_max] at hcomes
    rw [arguments_eq hclosing]
    exact hcomes

end Arguments

/-- A node put on top is too high, or the level returns it. -/
theorem comes_grown {input rest : List Token} (hshorter : rest.length < input.length)
    (hrest : rest <:+ tokens.list) {tree : Expression} {height position : Nat}
    (hruns : Runs tokens.terminals limit calls state
      ⟨place tokens rest, depth, grown limit tree height position, calls⟩) :
    Comes tokens limit depth calls state answer Parsed.rest
      (if limit < height + 1 then .error (.tooDeep limit position)
        else .ok (⟨tree, height + 1, rest, hshorter⟩ : Parsed input)) := by
  rw [grown] at hruns
  by_cases hheight : limit < height + 1
  · rw [if_pos hheight] at hruns ⊢
    exact ⟨_, depth, Nat.le_refl _, hruns⟩
  · rw [if_neg hheight] at hruns ⊢
    exact ⟨hrest, hruns⟩

/-! ### Primary phrases -/

/-- The beginning of a primary phrase, by the first terminal. -/
theorem step_primary {input : List Token} (h : input <:+ tokens.list) :
    step tokens.terminals limit ⟨place tokens input, depth, .enter .primary, calls⟩ =
      some (startPrimary tokens.terminals ⟨nextKind input, nextPosition tokens.stop input⟩
        (place tokens input) depth calls) := by
  rw [step, begin, looking_place h]

/-- Behind a name the next terminal tells a call from a path. -/
theorem step_name {name : String} {position : Nat} {rest : List Token}
    (h : ⟨.name name, position⟩ :: rest <:+ tokens.list) :
    step tokens.terminals limit
        ⟨place tokens (⟨.name name, position⟩ :: rest), depth, .enter .primary, calls⟩ =
      some (if nextKind rest = some .opening then
          ⟨place tokens rest + 1, depth, .enter .arguments, .call name position :: calls⟩
        else ⟨place tokens rest, depth, .result (.path name) 1, calls⟩) := by
  have hkind : nextKind (⟨.name name, position⟩ :: rest) = some (.name name) := rfl
  rw [step_primary h, hkind]
  simp only [startPrimary, place_cons h, looking_place (suffix_of_cons h)]
  rw [← place_cons h]
  rfl

theorem primary_call_comes (h : Traces tokens limit depth .expression expression)
    {name : String} {position opening : Nat} {inside : List Token}
    (hinput : ⟨.name name, position⟩ :: ⟨.opening, opening⟩ :: inside <:+ tokens.list) :
    Comes tokens limit depth calls
      ⟨place tokens (⟨.name name, position⟩ :: ⟨.opening, opening⟩ :: inside), depth,
        .enter .primary, calls⟩
      answer Parsed.rest (primary limit tokens.stop expression
        (⟨.name name, position⟩ :: ⟨.opening, opening⟩ :: inside)) := by
  have hopening := suffix_of_cons hinput
  have hbegin : step tokens.terminals limit
      ⟨place tokens (⟨.name name, position⟩ :: ⟨.opening, opening⟩ :: inside), depth,
        .enter .primary, calls⟩ =
      some ⟨place tokens inside, depth, .enter .arguments, .call name position :: calls⟩ := by
    rw [step_name hinput, ← place_cons hopening]
    rfl
  have hcomes := arguments_comes h (suffix_of_cons hopening) (.call name position :: calls)
  simp only [primary]
  cases harguments : arguments tokens.stop expression inside with
  | error fault =>
    rw [harguments] at hcomes
    exact (hcomes.passOn rfl).step hbegin (.of_calls rfl)
  | ok parsed =>
    rw [harguments] at hcomes
    have hback : step tokens.terminals limit ⟨place tokens parsed.rest, depth, answerAll parsed,
        .call name position :: calls⟩ = some ⟨place tokens parsed.rest, depth,
          grown limit (.call name parsed.trees) parsed.height position, calls⟩ := rfl
    exact (comes_grown _ hcomes.1 (hcomes.2.append rfl (.last hback))).step hbegin (.of_calls rfl)

theorem primary_group_comes (h : Traces tokens limit depth .expression expression)
    {opening : Nat} {inside : List Token}
    (hinput : ⟨.opening, opening⟩ :: inside <:+ tokens.list) :
    Comes tokens limit depth calls
      ⟨place tokens (⟨.opening, opening⟩ :: inside), depth, .enter .primary, calls⟩
      answer Parsed.rest
      (primary limit tokens.stop expression (⟨.opening, opening⟩ :: inside)) := by
  have hbegin : step tokens.terminals limit
      ⟨place tokens (⟨.opening, opening⟩ :: inside), depth, .enter .primary, calls⟩ =
      some ⟨place tokens inside, depth, .enter .expression, .group :: calls⟩ := by
    rw [step_primary hinput, ← place_cons hinput]
    rfl
  have hcomes := h (suffix_of_cons hinput) (.group :: calls)
  cases hinside : expression inside with
  | error fault =>
    rw [hinside] at hcomes
    simp only [primary, hinside]
    exact (hcomes.passOn rfl).step hbegin (.of_calls rfl)
  | ok parsed =>
    rw [hinside] at hcomes
    obtain ⟨hsuffix, hruns⟩ := hcomes
    have hback : step tokens.terminals limit ⟨place tokens parsed.rest, depth, answer parsed,
        .group :: calls⟩ = some (if nextKind parsed.rest = some .closing then
          ⟨place tokens parsed.rest + 1, depth, answer parsed, calls⟩
        else ⟨place tokens parsed.rest, depth, .fault (.misplaced (.closing (nextKind parsed.rest))
          (nextPosition tokens.stop parsed.rest)), calls⟩) := by
      rw [answer, step, take, looking_place hsuffix]
    by_cases hclosing : nextKind parsed.rest = some .closing
    · rw [if_pos hclosing] at hback
      obtain ⟨position, rest, hrest⟩ := nextKind_eq_some_iff.1 hclosing
      rw [primary_group hinside hrest]
      rw [hrest] at hsuffix hruns hback
      rw [place_cons hsuffix] at hback
      exact ⟨suffix_of_cons hsuffix, .step hbegin (.of_calls rfl) (hruns.append rfl (.last hback))⟩
    · rw [if_neg hclosing] at hback
      rw [primary_unclosed hinside hclosing]
      exact ⟨_, depth, Nat.le_refl _, .step hbegin (.of_calls rfl) (hruns.append rfl (.last hback))⟩

/-- A primary phrase does what its level does, if the expressions inside do. -/
theorem primary_traces (h : Traces tokens limit depth .expression expression) :
    Traces tokens limit depth .primary (primary limit tokens.stop expression) := by
  intro input hinput calls
  have hbegin := @step_primary _ limit depth calls _ hinput
  match input with
  | [] => exact ⟨_, depth, Nat.le_refl _, .last hbegin⟩
  | ⟨.name name, position⟩ :: rest =>
    by_cases hopening : nextKind rest = some .opening
    · obtain ⟨opening, inside, rfl⟩ := nextKind_eq_some_iff.1 hopening
      exact primary_call_comes h hinput
    · rw [primary_path name position hopening]
      refine ⟨suffix_of_cons hinput, .last ?_⟩
      rw [step_name hinput, if_neg hopening]
      rfl
  | ⟨.opening, _⟩ :: _ => exact primary_group_comes h hinput
  | ⟨.number _, _⟩ :: _ | ⟨.string _, _⟩ :: _ | ⟨.boolean _, _⟩ :: _ | ⟨.null, _⟩ :: _ =>
    refine ⟨suffix_of_cons hinput, .last ?_⟩
    rw [hbegin, leaf, ← place_cons hinput]
    rfl
  | ⟨.comparison _, _⟩ :: _ | ⟨.connective _, _⟩ :: _ | ⟨.negation, _⟩ :: _ | ⟨.dot, _⟩ :: _
  | ⟨.comma, _⟩ :: _ | ⟨.closing, _⟩ :: _ => exact ⟨_, depth, Nat.le_refl _, .last hbegin⟩

/-! ### Unary phrases -/

/-- A unary phrase counts itself before it checks the limit. -/
theorem step_unary {input : List Token} (h : input <:+ tokens.list) :
    step tokens.terminals limit ⟨place tokens input, depth, .enter (.tier .unary), calls⟩ =
      some ⟨place tokens input, depth + 1, .check,
        .unary ⟨nextKind input, nextPosition tokens.stop input⟩ :: calls⟩ :=
  congrArg some (looking_place h depth calls _)

/-- Within the limit a `!` calls for one more unary phrase. -/
theorem step_negation {position : Nat} {rest : List Token}
    (h : ⟨.negation, position⟩ :: rest <:+ tokens.list) (hdepth : depth ≤ limit) :
    step tokens.terminals limit ⟨place tokens (⟨.negation, position⟩ :: rest), depth, .check,
        .unary ⟨some .negation, position⟩ :: calls⟩ =
      some ⟨place tokens rest, depth, .enter (.tier .unary), .negation position :: calls⟩ := by
  rw [step, checkLimit, if_neg (Nat.not_lt.2 hdepth), if_pos rfl, place_cons h]

/-- Within the limit anything else calls for a primary phrase. -/
theorem step_operand {first : Terminal} (hfirst : first.kind ≠ some .negation)
    (hdepth : depth ≤ limit) (index : Nat) :
    step tokens.terminals limit ⟨index, depth, .check, .unary first :: calls⟩ =
      some ⟨index, depth, .enter .primary, .operand :: calls⟩ := by
  rw [step, checkLimit, if_neg (Nat.not_lt.2 hdepth), if_neg hfirst]

theorem unary_negation_comes {levels position : Nat} {rest : List Token}
    (h : Traces tokens limit (depth + 1) (.tier .unary) (unary limit tokens.stop levels))
    (hdepth : depth + 1 ≤ limit) (hinput : ⟨.negation, position⟩ :: rest <:+ tokens.list) :
    Comes tokens limit depth calls
      ⟨place tokens (⟨.negation, position⟩ :: rest), depth, .enter (.tier .unary), calls⟩
      answer Parsed.rest
      (unary limit tokens.stop (levels + 1) (⟨.negation, position⟩ :: rest)) := by
  have hcomes := h (suffix_of_cons hinput) (.negation position :: calls)
  -- the call counts itself and goes on to the phrase behind `!`
  suffices hnext : Comes tokens limit depth calls
      ⟨place tokens rest, depth + 1, .enter (.tier .unary), .negation position :: calls⟩
      answer Parsed.rest
      (unary limit tokens.stop (levels + 1) (⟨.negation, position⟩ :: rest)) from
    (hnext.step (step_negation hinput hdepth) (.of_calls rfl)).step (step_unary hinput)
      (.of_calls rfl)
  simp only [unary]
  cases hoperand : unary limit tokens.stop levels rest with
  | error fault =>
    rw [hoperand] at hcomes
    exact hcomes.passOn_unary (Or.inr ⟨position, rfl⟩)
  | ok operand =>
    rw [hoperand] at hcomes
    have hback : step tokens.terminals limit ⟨place tokens operand.rest, depth + 1,
        answer operand, .negation position :: calls⟩ = some ⟨place tokens operand.rest, depth,
          grown limit (.negation operand.tree) operand.height position, calls⟩ := rfl
    exact comes_grown _ hcomes.1 (hcomes.2.append rfl (.last hback))

theorem unary_primary_comes {level : Level} (h : Traces tokens limit (depth + 1) .primary level)
    (hdepth : depth + 1 ≤ limit) {input : List Token} (hinput : input <:+ tokens.list)
    (hnegation : nextKind input ≠ some .negation) :
    Comes tokens limit depth calls ⟨place tokens input, depth, .enter (.tier .unary), calls⟩
      answer Parsed.rest (level input) := by
  have hcomes := h hinput (.operand :: calls)
  suffices hnext : Comes tokens limit depth calls
      ⟨place tokens input, depth + 1, .enter .primary, .operand :: calls⟩ answer Parsed.rest
      (level input) from
    (hnext.step (step_operand hnegation hdepth _) (.of_calls rfl)).step (step_unary hinput)
      (.of_calls rfl)
  cases hlevel : level input with
  | error fault =>
    rw [hlevel] at hcomes
    exact hcomes.passOn_unary (Or.inl rfl)
  | ok parsed =>
    rw [hlevel] at hcomes
    exact ⟨hcomes.1, hcomes.2.append rfl (.last rfl)⟩

/-- What the tiers do once unary phrases do what their level does. -/
theorem expression_unary_traces {level : Level}
    (h : Traces tokens limit depth (.tier .unary) level) :
    Traces tokens limit depth .expression (Precedence.expression limit level) := by
  refine expression_traces (expression_of_chain
    (P := fun tier level => Traces tokens limit depth (.tier tier) level) ?_ h)
  intro tier inner nodeOf? operand hoperand hinner hnode
  -- the operators of a tier and their nodes are the same on both sides
  obtain rfl : node? tier = nodeOf? := by
    funext kind
    ext node
    rw [node?_eq_some_iff, hnode]
  exact chain_traces hinner hoperand

/-- Unary phrases do what their level does, where the counter and the levels of nesting
    that are left make up the limit. -/
theorem unary_traces {levels : Nat} (h : levels + depth = limit) :
    Traces tokens limit depth (.tier .unary) (unary limit tokens.stop levels) := by
  induction levels generalizing depth with
  | zero =>
    intro input hinput calls
    have hcheck : step tokens.terminals limit ⟨place tokens input, depth + 1, .check,
        .unary ⟨nextKind input, nextPosition tokens.stop input⟩ :: calls⟩ =
          some ⟨place tokens input, depth + 1,
            .fault (.tooDeep limit (nextPosition tokens.stop input)), calls⟩ :=
      congrArg some (if_pos (by omega))
    -- the call fails without counting itself off
    exact ⟨_, depth + 1, Nat.le_succ _, .step (step_unary hinput) (.of_calls rfl) (.last hcheck)⟩
  | succ levels ih =>
    have hunary : Traces tokens limit (depth + 1) (.tier .unary)
        (unary limit tokens.stop levels) := ih (by omega)
    intro input hinput calls
    by_cases hnegation : nextKind input = some .negation
    · obtain ⟨position, rest, rfl⟩ := nextKind_eq_some_iff.1 hnegation
      exact unary_negation_comes hunary (by omega) hinput
    · rw [unary_eq_primary hnegation]
      exact unary_primary_comes (primary_traces (expression_unary_traces hunary)) (by omega)
        hinput hnegation

end Operands

end Levels

end Descent

end FormRules
