/-
  FormRules.Proofs.Relocation

  Positions are carried along and never looked at.

  Tokens whose positions have been moved, in whatever way, are read as the same tree, or
  with the same fault at its moved position. `Follows` states this of two levels of the
  reader, of which one is given the end of a source and the other the moved end. Chains,
  arguments and operands pass it on, so that it holds of whole sources by induction on the
  levels of nesting.

  Main statement: `ofTokens_moved`.
-/

import FormRules.Proofs.Locating

namespace FormRules

variable {move : Nat → Nat}

/-- A token at a moved position. -/
def Token.moved (move : Nat → Nat) (token : Token) : Token := ⟨token.kind, move token.position⟩

/-- A fault at a moved position, if it has one. -/
def Fault.moved (move : Nat → Nat) : Fault → Fault
  | .unterminatedString position => .unterminatedString (move position)
  | .unexpectedCharacter character position => .unexpectedCharacter character (move position)
  | .invalidNumber literal position => .invalidNumber literal (move position)
  | .misplaced what position => .misplaced what (move position)
  | .tooDeep limit position => .tooDeep limit (move position)
  | .unknownFunction name => .unknownFunction name

/-- The tokens of a source at moved positions. -/
def Tokens.moved (move : Nat → Nat) (tokens : Tokens) : Tokens :=
  ⟨tokens.list.map (Token.moved move), move tokens.stop⟩

namespace Precedence

open Grammar

/-! ## Results at moved positions -/

/-- What has been read from tokens, as it is read from the moved ones. -/
def Parsed.moved (move : Nat → Nat) {input : List Token} (parsed : Parsed input) :
    Parsed (input.map (Token.moved move)) :=
  ⟨parsed.tree, parsed.height, parsed.rest.map (Token.moved move), by
    simpa only [List.length_map] using parsed.shorter⟩

/-- Arguments that have been read from tokens, as they are read from the moved ones. -/
def ParsedArguments.moved (move : Nat → Nat) {input : List Token}
    (parsed : ParsedArguments input) : ParsedArguments (input.map (Token.moved move)) :=
  ⟨parsed.trees, parsed.height, parsed.rest.map (Token.moved move), by
    simpa only [List.length_map] using parsed.shorter⟩

/-- The outcome at moved positions: the same result, as it is read there, or the same
    fault. -/
def relocated {α β : Type} (move : Nat → Nat) (result : α → β) (outcome : Except Fault α) :
    Except Fault β :=
  (outcome.mapError (Fault.moved move)).map result

@[simp] theorem relocated_ok {α β : Type} (result : α → β) (a : α) :
    relocated move result (.ok a) = .ok (result a) := rfl

@[simp] theorem relocated_error {α β : Type} (result : α → β) (fault : Fault) :
    relocated move result (.error fault) = .error (fault.moved move) := rfl

/-- A level does at moved positions what another one does at the positions themselves. -/
def Follows (move : Nat → Nat) (level other : Level) : Prop :=
  ∀ input, other (input.map (Token.moved move)) = relocated move (Parsed.moved move) (level input)

section Levels

variable {level other : Level}

theorem Follows.ok (h : Follows move level other) {input : List Token} {parsed : Parsed input}
    (hok : level input = .ok parsed) :
    other (input.map (Token.moved move)) = .ok (parsed.moved move) := by
  rw [h, hok, relocated_ok]

theorem Follows.error (h : Follows move level other) {input : List Token} {fault : Fault}
    (herror : level input = .error fault) :
    other (input.map (Token.moved move)) = .error (fault.moved move) := by
  rw [h, herror, relocated_error]

/-- The next token is of the same kind. -/
theorem nextKind_moved (tokens : List Token) :
    nextKind (tokens.map (Token.moved move)) = nextKind tokens := by
  cases tokens <;> rfl

/-- The next token, or the end, is at the moved position. -/
theorem nextPosition_moved (stop : Nat) (tokens : List Token) :
    nextPosition (move stop) (tokens.map (Token.moved move)) = move (nextPosition stop tokens) := by
  cases tokens <;> rfl

/-! ## Chains -/

theorem Parsed.rest_moved {input rest : List Token} {left : Parsed input} {token : Token}
    (hrest : left.rest = token :: rest) :
    (left.moved move).rest = token.moved move :: rest.map (Token.moved move) :=
  congrArg (List.map (Token.moved move)) hrest

theorem chainFrom_moved {limit : Nat}
    {node? : TokenKind → Option (Expression → Expression → Expression)}
    (h : Follows move level other) {input : List Token} (left : Parsed input) :
    chainFrom limit node? other (left.moved move) =
      relocated move (Parsed.moved move) (chainFrom limit node? level left) := by
  -- both chains see the same operators, and stop and go on together
  fun_induction chainFrom limit node? level left with
  | case1 left hrest =>
    have hstop : ∀ kind ∈ nextKind (left.moved move).rest, node? kind = none := by
      simp [Parsed.moved, hrest, nextKind]
    rw [chainFrom_stop hstop]
    rfl
  | case2 left token rest hrest hnone =>
    have hstop : ∀ kind ∈ nextKind (left.moved move).rest, node? kind = none := by
      rw [Parsed.rest_moved hrest]
      simpa [nextKind, Token.moved] using hnone
    rw [chainFrom_stop hstop]
    rfl
  | case3 left token rest hrest node hsome fault herror =>
    rw [chainFrom_cons (Parsed.rest_moved hrest) hsome, h.error herror]
    rfl
  | case4 left token rest hrest node hsome right hright height hlt =>
    rw [chainFrom_cons (Parsed.rest_moved hrest) hsome, h.ok hright]
    exact if_pos hlt
  | case5 left token rest hrest node hsome right hright height hle ih =>
    rw [chainFrom_cons (Parsed.rest_moved hrest) hsome, h.ok hright, ← ih]
    exact if_neg hle

theorem chain_follows {limit : Nat}
    {node? : TokenKind → Option (Expression → Expression → Expression)}
    (h : Follows move level other) :
    Follows move (chain limit node? level) (chain limit node? other) := by
  intro input
  unfold chain
  cases hleft : level input with
  | error fault => rw [h.error hleft]; rfl
  | ok left =>
    rw [h.ok hleft]
    exact chainFrom_moved h left

theorem expression_follows {limit : Nat} (h : Follows move level other) :
    Follows move (expression limit level) (expression limit other) := by
  have hordering := @chain_follows move level other limit orderingNode? h
  have hequality := @chain_follows move _ _ limit equalityNode? hordering
  have hconjunction := @chain_follows move _ _ limit conjunctionNode? hequality
  exact chain_follows hconjunction

/-! ## Operands -/

theorem argumentsFrom_moved {stop : Nat} (h : Follows move level other) (input : List Token) :
    argumentsFrom (move stop) other (input.map (Token.moved move)) =
      relocated move (ParsedArguments.moved move) (argumentsFrom stop level input) := by
  fun_induction argumentsFrom stop level input with
  | case1 input fault herror =>
    rw [argumentsFrom_fault (h.error herror)]
    rfl
  | case2 input first hfirst position others hrest fault herror ih =>
    have hothers : argumentsFrom (move stop) other (others.map (Token.moved move)) =
        .error (fault.moved move) := by
      rw [ih, herror, relocated_error]
    rw [argumentsFrom_comma (h.ok hfirst) (Parsed.rest_moved hrest), hothers]
    rfl
  | case3 input first hfirst position others hrest more hmore ih =>
    have hothers : argumentsFrom (move stop) other (others.map (Token.moved move)) =
        .ok (more.moved move) := by
      rw [ih, hmore, relocated_ok]
    rw [argumentsFrom_comma (h.ok hfirst) (Parsed.rest_moved hrest), hothers]
    rfl
  | case4 input first hfirst position rest hrest =>
    rw [argumentsFrom_closing (h.ok hfirst) (Parsed.rest_moved hrest)]
    rfl
  | case5 input first hfirst hcomma hclosing =>
    have hnext : nextKind (first.moved move).rest = nextKind first.rest :=
      nextKind_moved first.rest
    have hcomma' : nextKind (first.moved move).rest ≠ some .comma := by
      intro hkind
      rw [hnext] at hkind
      obtain ⟨position, others, hrest⟩ := nextKind_eq_some_iff.1 hkind
      exact hcomma position others hrest
    have hclosing' : nextKind (first.moved move).rest ≠ some .closing := by
      intro hkind
      rw [hnext] at hkind
      obtain ⟨position, others, hrest⟩ := nextKind_eq_some_iff.1 hkind
      exact hclosing position others hrest
    rw [argumentsFrom_separator (h.ok hfirst) hcomma' hclosing']
    simp only [Parsed.moved, nextKind_moved, nextPosition_moved]
    rfl

theorem arguments_moved {stop : Nat} (h : Follows move level other) (input : List Token) :
    arguments (move stop) other (input.map (Token.moved move)) =
      relocated move (ParsedArguments.moved move) (arguments stop level input) := by
  by_cases hclosing : nextKind input = some .closing
  · obtain ⟨position, rest, rfl⟩ := nextKind_eq_some_iff.1 hclosing
    rfl
  · have hclosing' : nextKind (input.map (Token.moved move)) ≠ some .closing := by
      rwa [nextKind_moved]
    rw [arguments_eq hclosing, arguments_eq hclosing']
    exact argumentsFrom_moved h input

theorem primary_call_moved {limit stop : Nat} (h : Follows move level other) (name : String)
    (position opening : Nat) (inside : List Token) :
    primary limit (move stop) other
        (⟨.name name, move position⟩ :: ⟨.opening, move opening⟩ ::
          inside.map (Token.moved move)) =
      relocated move (Parsed.moved move)
        (primary limit stop level (⟨.name name, position⟩ :: ⟨.opening, opening⟩ :: inside)) := by
  have harguments := @arguments_moved move level other stop h inside
  cases hinside : arguments stop level inside with
  | error fault =>
    rw [hinside, relocated_error] at harguments
    simp only [primary, hinside, harguments]
    rfl
  | ok parsed =>
    rw [hinside, relocated_ok] at harguments
    simp only [primary, hinside, harguments]
    -- the height does not depend on positions
    by_cases hheight : limit < parsed.height + 1
    · rw [if_pos hheight]
      exact if_pos hheight
    · rw [if_neg hheight]
      exact if_neg hheight

theorem primary_group_moved {limit stop : Nat} (h : Follows move level other) (opening : Nat)
    (inside : List Token) :
    primary limit (move stop) other (⟨.opening, move opening⟩ :: inside.map (Token.moved move)) =
      relocated move (Parsed.moved move)
        (primary limit stop level (⟨.opening, opening⟩ :: inside)) := by
  cases hinside : level inside with
  | error fault =>
    simp only [primary, hinside, h.error hinside]
    rfl
  | ok parsed =>
    by_cases hclosing : nextKind parsed.rest = some .closing
    · obtain ⟨position, rest, hrest⟩ := nextKind_eq_some_iff.1 hclosing
      rw [primary_group hinside hrest, primary_group (h.ok hinside) (Parsed.rest_moved hrest)]
      rfl
    · have hclosing' : nextKind (parsed.moved move).rest ≠ some .closing := by
        rwa [Parsed.moved, nextKind_moved]
      rw [primary_unclosed hinside hclosing, primary_unclosed (h.ok hinside) hclosing']
      simp only [Parsed.moved, nextKind_moved, nextPosition_moved]
      rfl

theorem primary_follows {limit stop : Nat} (h : Follows move level other) :
    Follows move (primary limit stop level) (primary limit (move stop) other) := by
  intro input
  match input with
  | [] => rfl
  | ⟨.name name, position⟩ :: rest =>
    by_cases hopening : nextKind rest = some .opening
    · obtain ⟨opening, inside, rfl⟩ := nextKind_eq_some_iff.1 hopening
      exact primary_call_moved h name position opening inside
    · have hopening' : nextKind (rest.map (Token.moved move)) ≠ some .opening := by
        rwa [nextKind_moved]
      rw [primary_path name position hopening]
      exact primary_path name (move position) hopening'
  | ⟨.opening, opening⟩ :: inside => exact primary_group_moved h opening inside
  | ⟨.number _, _⟩ :: _ | ⟨.string _, _⟩ :: _ | ⟨.boolean _, _⟩ :: _ | ⟨.null, _⟩ :: _
  | ⟨.comparison _, _⟩ :: _ | ⟨.connective _, _⟩ :: _ | ⟨.negation, _⟩ :: _ | ⟨.dot, _⟩ :: _
  | ⟨.comma, _⟩ :: _ | ⟨.closing, _⟩ :: _ => rfl

end Levels

/-! ## Unary phrases -/

theorem unary_negation_moved {limit stop levels : Nat}
    (h : Follows move (unary limit stop levels) (unary limit (move stop) levels))
    (position : Nat) (rest : List Token) :
    unary limit (move stop) (levels + 1)
        (⟨.negation, move position⟩ :: rest.map (Token.moved move)) =
      relocated move (Parsed.moved move)
        (unary limit stop (levels + 1) (⟨.negation, position⟩ :: rest)) := by
  cases hrest : unary limit stop levels rest with
  | error fault =>
    simp only [unary, hrest, h.error hrest]
    rfl
  | ok operand =>
    simp only [unary, hrest, h.ok hrest]
    by_cases hheight : limit < operand.height + 1
    · rw [if_pos hheight]
      exact if_pos hheight
    · rw [if_neg hheight]
      exact if_neg hheight

theorem unary_follows (move : Nat → Nat) (limit stop levels : Nat) :
    Follows move (unary limit stop levels) (unary limit (move stop) levels) := by
  induction levels with
  | zero =>
    intro input
    simp only [unary, nextPosition_moved]
    rfl
  | succ levels ih =>
    intro input
    by_cases hnegation : nextKind input = some .negation
    · obtain ⟨position, rest, rfl⟩ := nextKind_eq_some_iff.1 hnegation
      exact unary_negation_moved ih position rest
    · have hnegation' : nextKind (input.map (Token.moved move)) ≠ some .negation := by
        rwa [nextKind_moved]
      rw [unary_eq_primary hnegation, unary_eq_primary hnegation']
      exact primary_follows (expression_follows ih) input

end Precedence

namespace Expression

open Precedence

/-- Tokens at moved positions are read as the same tree, or with the same fault at its
    moved position. -/
theorem ofTokens_moved (move : Nat → Nat) (limit : Nat) (tokens : Tokens) :
    ofTokens limit (tokens.moved move) = (ofTokens limit tokens).mapError (Fault.moved move) := by
  have hfollows : Follows move (expression limit (unary limit tokens.stop limit))
      (expression limit (unary limit (move tokens.stop) limit)) :=
    expression_follows (unary_follows move limit tokens.stop limit)
  unfold ofTokens
  cases hparsed : expression limit (unary limit tokens.stop limit) tokens.list with
  | error fault =>
    have hmoved := hfollows.error hparsed
    simp only [Tokens.moved, hmoved]
    rfl
  | ok parsed =>
    have hmoved := hfollows.ok hparsed
    simp only [Tokens.moved, hmoved, Parsed.moved]
    cases parsed.rest <;> rfl

end Expression

end FormRules
