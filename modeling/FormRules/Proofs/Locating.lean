/-
  FormRules.Proofs.Locating

  Where the faults of the reader point.

  `Stuck` states of one function of the reader that the tokens before a place are viable,
  some tokens behind them make a phrase, and that with the token at the place the function
  fails whatever else comes later. `Locates` states that every fault of the function
  points at such a place, or names the limit. A fault inside a phrase is passed on by the
  phrase around it (`Stuck.behind`, `Points.shift`), so that only the places that find
  fault are looked at on their own: an operand, a closing parenthesis and a separator.
-/

import FormRules.Proofs.Operands

namespace FormRules

namespace Precedence

open Grammar

/-! ## Places of faults -/

/-- The outcome is a misplaced token. -/
def Misplaces {α : Type} (outcome : Except Fault α) : Prop :=
  ∃ what position, outcome = .error (.misplaced what position)

/-- Some tokens behind these make a phrase. -/
def Viable (tier : Tier) (all : List TokenKind) : Prop :=
  ∃ more tree nesting, Derives tier (all ++ more) tree nesting

/-- Some tokens behind these make the arguments of a call, of which there is one at
    least, and their closing parenthesis. -/
def ViableArguments (all : List TokenKind) : Prop :=
  ∃ (more : List TokenKind) (arguments : List Argument), arguments ≠ [] ∧
    all ++ more = separated (arguments.map Argument.kinds) ++ [.closing] ∧
    ∀ argument ∈ arguments, Derives .disjunction argument.kinds argument.tree argument.nesting

/-- The tokens before a place are viable. With them and the token at the place, the
    reader reports a misplaced token whatever follows. -/
structure Stuck (viable : List TokenKind → Prop) {α : List Token → Type}
    (reader : (input : List Token) → Except Fault (α input)) (before rest : List Token) : Prop where
  viable : viable (kinds before)
  always : ∀ {before' rest' : List Token}, kinds before' = kinds before →
    nextKind rest' = nextKind rest → Misplaces (reader (before' ++ rest'))

/-- What a fault says about the tokens: a misplaced token is at a place where the reader
    is stuck, and the limit is exceeded at some token. There are no other faults. -/
def Points (limit stop : Nat) (input : List Token) (stuck : List Token → List Token → Prop) :
    Fault → Prop
  | .misplaced _ position => ∃ before rest, input = before ++ rest ∧
    position = nextPosition stop rest ∧ stuck before rest
  | .tooDeep bound position => bound = limit ∧ ∃ before rest, input = before ++ rest ∧
    position = nextPosition stop rest
  | _ => False

/-- Every fault of a reader points at its place. -/
def Locates (limit stop : Nat) (viable : List TokenKind → Prop) {α : List Token → Type}
    (reader : (input : List Token) → Except Fault (α input)) : Prop :=
  ∀ ⦃input : List Token⦄ ⦃fault : Fault⦄, reader input = .error fault →
    Points limit stop input (Stuck viable reader) fault

section Places

variable {limit stop : Nat} {input : List Token} {stuck stuck' : List Token → List Token → Prop}

/-- What is said about some tokens holds with others in front of them. -/
theorem Points.shift {fault : Fault} (h : Points limit stop input stuck fault)
    (front : List Token)
    (hstuck : ∀ before rest, input = before ++ rest → stuck before rest →
      stuck' (front ++ before) rest) :
    Points limit stop (front ++ input) stuck' fault := by
  cases fault with
  | misplaced what position =>
    obtain ⟨before, rest, hinput, hposition, h⟩ := h
    refine ⟨front ++ before, rest, ?_, hposition, hstuck before rest hinput h⟩
    rw [hinput, List.append_assoc]
  | tooDeep bound position =>
    obtain ⟨hbound, before, rest, rfl, hposition⟩ := h
    exact ⟨hbound, front ++ before, rest, by rw [List.append_assoc], hposition⟩
  | _ => exact h.elim

theorem Points.mono {fault : Fault} (h : Points limit stop input stuck fault)
    (hstuck : ∀ before rest, input = before ++ rest → stuck before rest → stuck' before rest) :
    Points limit stop input stuck' fault :=
  h.shift [] hstuck

/-- The limit is exceeded at the first of some tokens. -/
theorem points_tooDeep (front rest : List Token) :
    Points limit stop (front ++ rest) stuck (.tooDeep limit (nextPosition stop rest)) :=
  ⟨rfl, front, rest, rfl, rfl⟩

end Places

theorem nextKind_eq_some_iff {tokens : List Token} {kind : TokenKind} :
    nextKind tokens = some kind ↔ ∃ position others, tokens = ⟨kind, position⟩ :: others := by
  cases tokens with
  | nil => simp [nextKind]
  | cons token others =>
    obtain ⟨kind', position⟩ := token
    simp [nextKind]

/-- The first token of some tokens is that of others of the same kinds. -/
theorem nextKind_append {before before' rest rest' : List Token}
    (hbefore : kinds before' = kinds before) (hrest : nextKind rest' = nextKind rest) :
    nextKind (before' ++ rest') = nextKind (before ++ rest) := by
  cases before with
  | nil =>
    obtain rfl : before' = [] := List.map_eq_nil_iff.1 hbefore
    exact hrest
  | cons token tokens =>
    obtain ⟨token', tokens', rfl, hkind, -⟩ := List.map_eq_cons_iff.1 hbefore
    exact congrArg some hkind

/-- A phrase that has been read is read again in front of the same token. -/
theorem Reads.gives {limit levels : Nat} {tier : Tier} {level : Level}
    (h : Reads limit levels tier level) {front front' rest rest' : List Token} {tree : Expression}
    {nesting : Nat} (hderives : Derives tier (kinds front) tree nesting)
    (hlevels : nesting ≤ levels) (hlimit : tree.height ≤ limit)
    (hends : Ends tier (kinds front) (nextKind rest)) (hfront : kinds front' = kinds front)
    (hrest : nextKind rest' = nextKind rest) : Gives level (front' ++ rest') tree rest' := by
  rw [← hfront] at hderives hends
  rw [← hrest] at hends
  exact (h.decides hderives hends).1 hlevels hlimit

/-- A reader that passes on the faults of another one, behind some tokens, is stuck there
    where the other one is. -/
theorem Stuck.behind {viable viable' : List TokenKind → Prop} {α β : List Token → Type}
    {inner : (input : List Token) → Except Fault (α input)}
    {outer : (input : List Token) → Except Fault (β input)} {front before rest : List Token}
    (h : Stuck viable inner before rest) (hviable : viable' (kinds front ++ kinds before))
    (hpass : ∀ {front' : List Token}, kinds front' = kinds front →
      ∀ {input : List Token} {fault : Fault}, inner input = .error fault →
        outer (front' ++ input) = .error fault) :
    Stuck viable' outer (front ++ before) rest where
  viable := by rwa [kinds_append]
  always := by
    intro before' rest' hbefore hrest
    rw [kinds_append] at hbefore
    obtain ⟨front', behind, rfl, hfront, hbehind⟩ := List.map_eq_append_iff.1 hbefore
    obtain ⟨what, position, herror⟩ := h.always hbehind hrest
    exact ⟨what, position, by rw [List.append_assoc, hpass hfront herror]⟩

/-! ## Chains -/

section Chain

variable {limit levels stop : Nat} {tier inner : Tier} {operand : Level}
  {node? : TokenKind → Option (Expression → Expression → Expression)}
  {node : Expression → Expression → Expression}

/-- A chain is stuck where its first operand is. -/
theorem Stuck.ofOperand (hinner : tier.operands? = some inner) {before rest : List Token}
    (h : Stuck (Viable inner) operand before rest) :
    Stuck (Viable tier) (chain limit node? operand) before rest where
  viable := by
    obtain ⟨more, tree, nesting, hderives⟩ := h.viable
    exact ⟨more, tree, nesting, .operand hinner hderives⟩
  always := by
    intro before' rest' hbefore hrest
    obtain ⟨what, position, herror⟩ := h.always hbefore hrest
    exact ⟨what, position, by rw [chain, herror]⟩

/-- A chain is stuck where a later operand is, behind the phrase read so far and its
    operator. -/
theorem Stuck.join (hoperand : Reads limit levels inner operand)
    (hinner : tier.operands? = some inner)
    (hnode : ∀ kind node, node? kind = some node ↔ Joins tier kind node) {token : Token}
    (hjoins : Joins tier token.kind node) {front : List Token} {tree : Expression} {nesting : Nat}
    (hderives : Derives tier (kinds front) tree nesting) (hlevels : nesting ≤ levels)
    (hlimit : tree.height ≤ limit) {before rest : List Token}
    (h : Stuck (Viable inner) operand before rest) :
    Stuck (Viable tier) (chain limit node? operand) (front ++ [token] ++ before) rest := by
  refine h.behind ?_ fun {front'} hfront' {input fault} herror => ?_
  · obtain ⟨more, right, n, hright⟩ := h.viable
    refine ⟨more, node tree right, max nesting n, ?_⟩
    simpa using Derives.join hinner hjoins hderives hright
  · rw [kinds_append] at hfront'
    obtain ⟨start, last, rfl, hstart, hlast⟩ := List.map_eq_append_iff.1 hfront'
    obtain ⟨position, rfl⟩ := exists_of_kinds_eq_singleton hlast
    have hends : Ends inner (kinds front) (nextKind (⟨token.kind, position⟩ :: input)) :=
      hjoins.ends hinner _
    -- the phrase is read again, and the operand behind its operator fails again
    obtain ⟨left, -, -, hleft, hchain⟩ :=
      (chain_reaches hoperand hinner hnode hderives hstart hends).1 hlevels hlimit
    rw [List.append_assoc, List.singleton_append, hchain,
      chainFrom_cons hleft ((hnode _ _).2 hjoins), herror]

theorem chainFrom_locates (hoperand : Reads limit levels inner operand)
    (hlocates : Locates limit stop (Viable inner) operand) (hinner : tier.operands? = some inner)
    (hnode : ∀ kind node, node? kind = some node ↔ Joins tier kind node) {input : List Token}
    {left : Parsed input} (hheight : left.height = left.tree.height)
    (hleft : IsPhrase limit levels tier inner input left.tree left.rest) {fault : Fault}
    (h : chainFrom limit node? operand left = .error fault) :
    Points limit stop input (Stuck (Viable tier) (chain limit node? operand)) fault := by
  fun_induction chainFrom limit node? operand left with
  | case1 => cases h
  | case2 => cases h
  | case3 left token rest hrest node hsome fault' herror =>
    -- the operand behind an operator fails
    cases h
    rw [hrest] at hleft
    obtain ⟨front, nesting, rfl, hderives, hlevels, hlimit, -⟩ := hleft
    rw [List.append_cons]
    exact (hlocates herror).shift _ fun before rest' _ hstuck =>
      hstuck.join hoperand hinner hnode ((hnode _ _).1 hsome) hderives hlevels hlimit
  | case4 left token rest hrest =>
    -- the new node is too high
    cases h
    rw [hrest] at hleft
    obtain ⟨front, nesting, rfl, -⟩ := hleft
    exact points_tooDeep front (token :: rest)
  | case5 left token rest hrest node hsome right hright height hle ih =>
    have hjoins := (hnode _ _).1 hsome
    obtain ⟨hheight', hphrase⟩ := hoperand.sound hright
    have hnext : height = (node left.tree right.tree).height := by
      rw [hjoins.height_eq, ← hheight, ← hheight']
    rw [hrest] at hleft
    exact ih hnext (hleft.join hinner hjoins hphrase (hnext ▸ Nat.not_lt.1 hle)) h

/-- A chain locates its faults, if its level of operands does. -/
theorem chain_locates (hoperand : Reads limit levels inner operand)
    (hlocates : Locates limit stop (Viable inner) operand) (hinner : tier.operands? = some inner)
    (hnode : ∀ kind node, node? kind = some node ↔ Joins tier kind node) :
    Locates limit stop (Viable tier) (chain limit node? operand) := by
  intro input fault h
  unfold chain at h
  split at h
  · rename_i fault' herror
    cases h
    exact (hlocates herror).mono fun before rest _ hstuck => hstuck.ofOperand hinner
  · rename_i left hleft
    obtain ⟨hheight, hphrase⟩ := hoperand.sound hleft
    exact chainFrom_locates hoperand hlocates hinner hnode hheight (hphrase.ofOperand hinner) h

end Chain

/-- Whole expressions locate their faults, if unary phrases do. -/
theorem expression_locates {limit levels stop : Nat} {unary : Level}
    (hreads : Reads limit levels .unary unary)
    (h : Locates limit stop (Viable .unary) unary) :
    Locates limit stop (Viable .disjunction) (expression limit unary) :=
  (expression_of_chain (P := fun tier level =>
      Reads limit levels tier level ∧ Locates limit stop (Viable tier) level)
    (fun hoperand hinner hnode => ⟨chain_reads hoperand.1 hinner hnode,
      chain_locates hoperand.1 hoperand.2 hinner hnode⟩) ⟨hreads, h⟩).2

/-! ## Arguments -/

section Operands

variable {limit levels stop : Nat} {expression : Level}

/-- Arguments are stuck where their first phrase is. -/
theorem Stuck.firstArgument {before rest : List Token}
    (h : Stuck (Viable .disjunction) expression before rest) :
    Stuck ViableArguments (argumentsFrom stop expression) before rest where
  viable := by
    obtain ⟨more, tree, nesting, hderives⟩ := h.viable
    refine ⟨more ++ [.closing], [⟨kinds before ++ more, tree, nesting⟩], List.cons_ne_nil _ _,
      ?_, ?_⟩
    · exact (List.append_assoc _ _ _).symm
    · simpa using hderives
  always := by
    intro before' rest' hbefore hrest
    obtain ⟨what, position, herror⟩ := h.always hbefore hrest
    exact ⟨what, position, argumentsFrom_fault herror⟩

/-- Arguments are stuck where the ones behind a comma are. -/
theorem Stuck.laterArguments (hexpression : Reads limit levels .disjunction expression)
    {front : List Token} {tree : Expression} {nesting : Nat}
    (hderives : Derives .disjunction (kinds front) tree nesting) (hlevels : nesting ≤ levels)
    (hlimit : tree.height ≤ limit) {before rest : List Token}
    (h : Stuck ViableArguments (argumentsFrom stop expression) before rest) (position : Nat) :
    Stuck ViableArguments (argumentsFrom stop expression)
      (front ++ [⟨.comma, position⟩] ++ before) rest := by
  refine h.behind ?_ fun {front'} hfront' {input fault} herror => ?_
  · obtain ⟨more, arguments, hne, hkinds, hall⟩ := h.viable
    have hne' : arguments.map Argument.kinds ≠ [] := by simpa using hne
    refine ⟨more, ⟨kinds front, tree, nesting⟩ :: arguments, List.cons_ne_nil _ _, ?_, ?_⟩
    · simp [separated_cons _ hne', ← hkinds]
    · exact List.forall_mem_cons.2 ⟨hderives, hall⟩
  · rw [kinds_append] at hfront'
    obtain ⟨start, last, rfl, hstart, hlast⟩ := List.map_eq_append_iff.1 hfront'
    obtain ⟨comma, rfl⟩ := exists_of_kinds_eq_singleton hlast
    have hends : Ends .disjunction (kinds front) (nextKind (⟨.comma, comma⟩ :: input)) :=
      ends_comma _ _
    obtain ⟨first, hok, -, -, hfirst⟩ :=
      hexpression.gives hderives hlevels hlimit hends hstart rfl
    rw [List.append_assoc, List.singleton_append, argumentsFrom_comma hok hfirst, herror]

theorem argumentsFrom_separator {input : List Token} {first : Parsed input}
    (hfirst : expression input = .ok first) (hcomma : nextKind first.rest ≠ some .comma)
    (hclosing : nextKind first.rest ≠ some .closing) :
    argumentsFrom stop expression input =
      .error (.misplaced (.separator (nextKind first.rest)) (nextPosition stop first.rest)) := by
  unfold argumentsFrom
  rw [hfirst]
  dsimp only
  split
  · rename_i hrest
    exact absurd (nextKind_eq_some_iff.2 ⟨_, _, hrest⟩) hcomma
  · rename_i hrest
    exact absurd (nextKind_eq_some_iff.2 ⟨_, _, hrest⟩) hclosing
  · rfl

/-- Arguments are stuck behind a phrase that is followed neither by a comma nor by a
    closing parenthesis. -/
theorem stuck_separator (hexpression : Reads limit levels .disjunction expression)
    {front rest : List Token} {tree : Expression} {nesting : Nat}
    (hderives : Derives .disjunction (kinds front) tree nesting) (hlevels : nesting ≤ levels)
    (hlimit : tree.height ≤ limit) (hends : Ends .disjunction (kinds front) (nextKind rest))
    (hcomma : nextKind rest ≠ some .comma) (hclosing : nextKind rest ≠ some .closing) :
    Stuck ViableArguments (argumentsFrom stop expression) front rest where
  viable := by
    refine ⟨[.closing], [⟨kinds front, tree, nesting⟩], List.cons_ne_nil _ _, rfl, ?_⟩
    simpa using hderives
  always := by
    intro before' rest' hbefore hrest
    obtain ⟨first, hok, -, -, hfirst⟩ :=
      hexpression.gives hderives hlevels hlimit hends hbefore hrest
    exact ⟨_, _, argumentsFrom_separator hok (by rwa [hfirst, hrest]) (by rwa [hfirst, hrest])⟩

theorem argumentsFrom_locates (hexpression : Reads limit levels .disjunction expression)
    (hlocates : Locates limit stop (Viable .disjunction) expression) :
    Locates limit stop ViableArguments (argumentsFrom stop expression) := by
  intro input fault h
  fun_induction argumentsFrom stop expression input with
  | case1 input fault' herror =>
    cases h
    exact (hlocates herror).mono fun before rest _ hstuck => hstuck.firstArgument
  | case2 input first hfirst position others hrest fault' herror ih =>
    cases h
    obtain ⟨-, front, nesting, hinput, hderives, hlevels, hlimit, -⟩ := hexpression.sound hfirst
    rw [hrest, List.append_cons] at hinput
    rw [hinput]
    exact (ih herror).shift _ fun before rest' _ hstuck =>
      hstuck.laterArguments hexpression hderives hlevels hlimit position
  | case3 => cases h
  | case4 => cases h
  | case5 input first hfirst hcomma hclosing =>
    -- neither another argument nor the end of the call follows
    cases h
    obtain ⟨-, front, nesting, hinput, hderives, hlevels, hlimit, hends⟩ :=
      hexpression.sound hfirst
    refine ⟨front, first.rest, hinput, rfl, stuck_separator hexpression hderives hlevels hlimit
      hends ?_ ?_⟩
    · intro hnext
      obtain ⟨position, others, hrest⟩ := nextKind_eq_some_iff.1 hnext
      exact hcomma position others hrest
    · intro hnext
      obtain ⟨position, others, hrest⟩ := nextKind_eq_some_iff.1 hnext
      exact hclosing position others hrest

/-- Arguments locate their faults, also where there may be none. -/
theorem arguments_locates (hexpression : Reads limit levels .disjunction expression)
    (hlocates : Locates limit stop (Viable .disjunction) expression) :
    Locates limit stop ViableArguments (arguments stop expression) := by
  intro input fault h
  by_cases hclosing : nextKind input = some .closing
  · obtain ⟨position, others, rfl⟩ := nextKind_eq_some_iff.1 hclosing
    cases h
  · rw [arguments_eq hclosing] at h
    refine (argumentsFrom_locates hexpression hlocates h).mono fun before rest hinput hstuck => ?_
    refine ⟨hstuck.viable, fun hbefore hrest => ?_⟩
    rw [arguments_eq]
    · exact hstuck.always hbefore hrest
    · rwa [nextKind_append hbefore hrest, ← hinput]

/-! ## Primary phrases -/

/-- A token with which a primary phrase begins. -/
def startsPrimary : TokenKind → Bool
  | .number _ | .string _ | .boolean _ | .null | .name _ | .opening => true
  | .comparison _ | .connective _ | .negation | .dot | .comma | .closing => false

theorem primary_misplaced {input : List Token}
    (h : ∀ kind ∈ nextKind input, startsPrimary kind = false) :
    ∃ what, primary limit stop expression input =
      .error (.misplaced what (nextPosition stop input)) := by
  cases input with
  | nil => exact ⟨_, rfl⟩
  | cons token rest =>
    obtain ⟨kind, position⟩ := token
    have hkind := h kind rfl
    cases kind <;> first | exact ⟨_, rfl⟩ | cases hkind

/-- An operand may stand wherever a unary phrase is due. -/
theorem viable_nil : Viable .unary [] := ⟨[.null], _, _, .literal rfl⟩

/-- Nothing can be read from a token that begins no primary phrase. -/
theorem stuck_primary {input : List Token}
    (h : ∀ kind ∈ nextKind input, startsPrimary kind = false) :
    Stuck (Viable .unary) (primary limit stop expression) [] input where
  viable := viable_nil
  always := by
    intro before' rest' hbefore hrest
    obtain rfl : before' = [] := List.map_eq_nil_iff.1 hbefore
    rw [← hrest] at h
    obtain ⟨what, herror⟩ := @primary_misplaced limit stop expression rest' h
    exact ⟨what, _, herror⟩

/-- A call is stuck where its arguments are. -/
theorem Stuck.call {before rest : List Token}
    (h : Stuck ViableArguments (arguments stop expression) before rest) (name : String)
    (position opening : Nat) :
    Stuck (Viable .unary) (primary limit stop expression)
      ([⟨.name name, position⟩, ⟨.opening, opening⟩] ++ before) rest := by
  refine h.behind ?_ fun {front'} hfront' {input fault} herror => ?_
  · obtain ⟨more, arguments, -, hkinds, hall⟩ := h.viable
    refine ⟨more, .call name (arguments.map Argument.tree), Argument.deepest arguments + 1, ?_⟩
    rw [List.append_assoc, hkinds]
    exact .call hall
  · obtain ⟨⟨_, position'⟩, others, rfl, rfl, hothers⟩ := List.map_eq_cons_iff.1 hfront'
    obtain ⟨opening', rfl⟩ := exists_of_kinds_eq_singleton hothers
    simp only [List.cons_append, List.nil_append, primary, herror]

/-- Parentheses are stuck where the phrase inside is. -/
theorem Stuck.group {before rest : List Token}
    (h : Stuck (Viable .disjunction) expression before rest) (opening : Nat) :
    Stuck (Viable .unary) (primary limit stop expression) ([⟨.opening, opening⟩] ++ before)
      rest := by
  refine h.behind ?_ fun {front'} hfront' {input fault} herror => ?_
  · obtain ⟨more, tree, nesting, hderives⟩ := h.viable
    exact ⟨more ++ [.closing], tree, nesting + 1, by simpa using hderives.group⟩
  · obtain ⟨opening', rfl⟩ := exists_of_kinds_eq_singleton hfront'
    simp only [List.singleton_append, primary, herror]

theorem primary_unclosed {inside : List Token} {parsed : Parsed inside}
    (hinside : expression inside = .ok parsed) (hclosing : nextKind parsed.rest ≠ some .closing)
    (opening : Nat) :
    primary limit stop expression (⟨.opening, opening⟩ :: inside) =
      .error (.misplaced (.closing (nextKind parsed.rest)) (nextPosition stop parsed.rest)) := by
  simp only [primary, hinside]
  split
  · rename_i hrest
    exact absurd (nextKind_eq_some_iff.2 ⟨_, _, hrest⟩) hclosing
  · rfl

/-- Parentheses are stuck behind a phrase that no closing parenthesis follows. -/
theorem stuck_closing (hexpression : Reads limit levels .disjunction expression)
    {front rest : List Token} {tree : Expression} {nesting : Nat}
    (hderives : Derives .disjunction (kinds front) tree nesting) (hlevels : nesting ≤ levels)
    (hlimit : tree.height ≤ limit) (hends : Ends .disjunction (kinds front) (nextKind rest))
    (hclosing : nextKind rest ≠ some .closing) (opening : Nat) :
    Stuck (Viable .unary) (primary limit stop expression) (⟨.opening, opening⟩ :: front)
      rest where
  viable := ⟨[.closing], tree, nesting + 1, hderives.group⟩
  always := by
    intro before' rest' hbefore hrest
    obtain ⟨⟨_, opening'⟩, behind, rfl, rfl, hbehind⟩ := List.map_eq_cons_iff.1 hbefore
    obtain ⟨parsed, hok, -, -, hparsed⟩ :=
      hexpression.gives hderives hlevels hlimit hends hbehind hrest
    exact ⟨_, _, primary_unclosed hok (by rwa [hparsed, hrest]) opening'⟩

theorem primary_call_points (hexpression : Reads limit levels .disjunction expression)
    (hlocates : Locates limit stop (Viable .disjunction) expression) {name : String}
    {position opening : Nat} {inside : List Token} {fault : Fault}
    (h : primary limit stop expression
      (⟨.name name, position⟩ :: ⟨.opening, opening⟩ :: inside) = .error fault) :
    Points limit stop (⟨.name name, position⟩ :: ⟨.opening, opening⟩ :: inside)
      (Stuck (Viable .unary) (primary limit stop expression)) fault := by
  simp only [primary] at h
  split at h
  · rename_i fault' herror
    cases h
    exact (arguments_locates hexpression hlocates herror).shift
      [⟨.name name, position⟩, ⟨.opening, opening⟩]
      fun before rest _ hstuck => hstuck.call name position opening
  · split at h
    · cases h
      exact points_tooDeep [] (⟨.name name, position⟩ :: ⟨.opening, opening⟩ :: inside)
    · cases h

theorem primary_group_points (hexpression : Reads limit levels .disjunction expression)
    (hlocates : Locates limit stop (Viable .disjunction) expression) {opening : Nat}
    {inside : List Token} {fault : Fault}
    (h : primary limit stop expression (⟨.opening, opening⟩ :: inside) = .error fault) :
    Points limit stop (⟨.opening, opening⟩ :: inside)
      (Stuck (Viable .unary) (primary limit stop expression)) fault := by
  simp only [primary] at h
  split at h
  · rename_i fault' herror
    cases h
    exact (hlocates herror).shift [⟨.opening, opening⟩]
      fun before rest _ hstuck => hstuck.group opening
  · rename_i parsed hparsed
    split at h
    · cases h
    · rename_i hclosing
      cases h
      obtain ⟨-, front, nesting, hinput, hderives, hlevels, hlimit, hends⟩ :=
        hexpression.sound hparsed
      refine ⟨⟨.opening, opening⟩ :: front, parsed.rest, congrArg _ hinput, rfl,
        stuck_closing hexpression hderives hlevels hlimit hends ?_ opening⟩
      intro hnext
      obtain ⟨position, others, hrest⟩ := nextKind_eq_some_iff.1 hnext
      exact hclosing position others hrest

theorem primary_locates (hexpression : Reads limit levels .disjunction expression)
    (hlocates : Locates limit stop (Viable .disjunction) expression) :
    Locates limit stop (Viable .unary) (primary limit stop expression) := by
  intro input fault h
  by_cases hstart : ∀ kind ∈ nextKind input, startsPrimary kind = false
  · obtain ⟨what, herror⟩ := @primary_misplaced limit stop expression input hstart
    obtain rfl := Except.error.inj (herror.symm.trans h)
    exact ⟨[], input, rfl, rfl, stuck_primary hstart⟩
  · match input with
    | [] => exact absurd (by simp [nextKind]) hstart
    -- a literal is always read
    | ⟨.number _, _⟩ :: _ | ⟨.string _, _⟩ :: _ | ⟨.boolean _, _⟩ :: _ | ⟨.null, _⟩ :: _ => cases h
    | ⟨.name name, position⟩ :: rest =>
      by_cases hopening : nextKind rest = some .opening
      · obtain ⟨opening, inside, rfl⟩ := nextKind_eq_some_iff.1 hopening
        exact primary_call_points hexpression hlocates h
      · rw [primary_path name position hopening] at h
        cases h
    | ⟨.opening, _⟩ :: _ => exact primary_group_points hexpression hlocates h
    | ⟨.comparison _, _⟩ :: _ | ⟨.connective _, _⟩ :: _ | ⟨.negation, _⟩ :: _ | ⟨.dot, _⟩ :: _
    | ⟨.comma, _⟩ :: _ | ⟨.closing, _⟩ :: _ =>
      exact absurd (by simp [nextKind, startsPrimary]) hstart

/-! ## Unary phrases -/

/-- A negation is stuck where its operand is. -/
theorem Stuck.negation {before rest : List Token}
    (h : Stuck (Viable .unary) (unary limit stop levels) before rest) (position : Nat) :
    Stuck (Viable .unary) (unary limit stop (levels + 1)) ([⟨.negation, position⟩] ++ before)
      rest := by
  refine h.behind ?_ fun {front'} hfront' {input fault} herror => ?_
  · obtain ⟨more, tree, nesting, hderives⟩ := h.viable
    exact ⟨more, .negation tree, nesting + 1, hderives.negation⟩
  · obtain ⟨position', rfl⟩ := exists_of_kinds_eq_singleton hfront'
    simp only [List.singleton_append, unary, herror]

theorem unary_locates (hlevels : levels ≤ limit) :
    Locates limit stop (Viable .unary) (unary limit stop levels) := by
  induction levels with
  | zero =>
    intro input fault h
    cases h
    exact points_tooDeep [] input
  | succ levels ih =>
    have hreads := unary_reads (Nat.le_of_succ_le hlevels) stop
    have hlocates : Locates limit stop (Viable .unary) (unary limit stop levels) :=
      ih (Nat.le_of_succ_le hlevels)
    intro input fault h
    by_cases hnegation : nextKind input = some .negation
    · obtain ⟨position, rest, rfl⟩ := nextKind_eq_some_iff.1 hnegation
      simp only [unary] at h
      split at h
      · rename_i fault' herror
        cases h
        exact (hlocates herror).shift [⟨.negation, position⟩]
          fun before rest' _ hstuck => hstuck.negation position
      · split at h
        · cases h
          exact points_tooDeep [] (⟨.negation, position⟩ :: rest)
        · cases h
    · -- without a `!` nothing is read in front of the primary phrase
      rw [unary_eq_primary hnegation] at h
      have hexpression := expression_locates hreads hlocates
      refine (primary_locates (expression_reads hreads) hexpression h).mono
        fun before rest hinput hstuck => ⟨hstuck.viable, fun hbefore hrest => ?_⟩
      rw [unary_eq_primary]
      · exact hstuck.always hbefore hrest
      · rwa [nextKind_append hbefore hrest, ← hinput]

end Operands

end Precedence

end FormRules
