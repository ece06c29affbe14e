/-
  FormRules.Proofs.Descent

  Reading tokens as a machine, with one cursor into a list that is never shortened, one
  counter of nesting, and the calls in progress.

  The levels of `Precedence` hand on the tokens and the levels of nesting that are left. A
  descent shares both among all its calls: it goes through the list by an index, in which
  a terminal stands for the end of the source, and counts the nesting up and off again.
  Each call in progress is a frame that says what it waits for, so that every moment of a
  descent is a state, and a call that comes back does so in a state with the frames that
  it found.

  The cursor may come to stand where the list has nothing, and there may be nothing to
  count off. Such a descent is `lost`. That this does not happen is not built in.
-/

import FormRules.Proofs.Locating
import Mathlib.Logic.Relation

namespace FormRules

/-! ## Terminals -/

/-- A token, or the end of a source, which has no kind. -/
structure Terminal where
  kind : Option TokenKind
  position : Nat
deriving DecidableEq

/-- All tokens of a source and its end. -/
def Tokens.terminals (tokens : Tokens) : List Terminal :=
  tokens.list.map (fun token => ⟨some token.kind, token.position⟩) ++ [⟨none, tokens.stop⟩]

namespace Descent

open Grammar Precedence

/-- The last terminal is an end, and no other one is. -/
def IsEnded (terminals : List Terminal) : Prop :=
  ∃ front stop, terminals = front ++ [⟨none, stop⟩] ∧ ∀ terminal ∈ front, terminal.kind ≠ none

/-! ## States -/

/-- What can be called. The tiers are routines of their own. -/
inductive Routine where
  | expression
  | tier (tier : Tier)
  | primary
  | arguments
deriving DecidableEq

/-- A call in progress, by what it waits for. -/
inductive Frame where
  /-- An expression waits for a disjunction. -/
  | expression
  /-- A chain waits for its first operand. -/
  | first (tier : Tier)
  /-- A chain waits for the operand behind an operator. It has the tree and the height of
      what comes before, and the node and the position of the operator. -/
  | later (tier : Tier) (left : Expression) (height : Nat)
      (node : Expression → Expression → Expression) (position : Nat)
  /-- A unary phrase has counted itself, and has seen its first terminal. -/
  | unary (terminal : Terminal)
  /-- A unary phrase waits for what its `!` negates. -/
  | negation (position : Nat)
  /-- A unary phrase waits for its operand. -/
  | operand
  /-- A call of a function waits for its arguments. -/
  | call (name : String) (position : Nat)
  /-- An opening parenthesis waits for what is inside. -/
  | group
  /-- Arguments wait for one more. -/
  | arguments (trees : List Expression) (height : Nat)

/-- A call in progress of the unary tier. -/
def Frame.isUnary : Frame → Bool
  | .unary _ | .negation _ | .operand => true
  | _ => false

/-- What is about to happen. -/
inductive Control where
  /-- A routine is called. -/
  | enter (routine : Routine)
  /-- A unary phrase that has counted itself checks the limit. -/
  | check
  /-- A call has come back with a tree and its height. -/
  | result (tree : Expression) (height : Nat)
  /-- A call has come back with arguments and the height of the tallest one. -/
  | results (trees : List Expression) (height : Nat)
  /-- A call has failed. -/
  | fault (fault : Fault)
  /-- There is nothing to go on with. -/
  | lost

/-- A moment of a descent: the cursor, the counter, what is about to happen and the calls
    in progress, the innermost one first. -/
structure State where
  index : Nat
  depth : Nat
  control : Control
  calls : List Frame

/-- How many of these calls are of the unary tier. -/
def unaryCalls (calls : List Frame) : Nat := calls.countP Frame.isUnary

/-- Before anything is read. -/
def start : State := ⟨0, 0, .enter .expression, []⟩

/-! ## Steps -/

/-- The node that an operator makes in a chain of a tier. -/
def node? : Tier → TokenKind → Option (Expression → Expression → Expression)
  | .disjunction => disjunctionNode?
  | .conjunction => conjunctionNode?
  | .equality => equalityNode?
  | .ordering => orderingNode?
  | .unary => fun _ => none

section Steps

variable (terminals : List Terminal) (limit : Nat)

/-- Looks at the terminal under the cursor, if there is one. -/
def looking (index depth : Nat) (calls : List Frame) (next : Terminal → State) : State :=
  match terminals[index]? with
  | none => ⟨index, depth, .lost, calls⟩
  | some terminal => next terminal

/-- A primary phrase from its first terminal. The cursor moves past it, also if no phrase
    begins with it, but not past the end. -/
def startPrimary (first : Terminal) (index depth : Nat) (calls : List Frame) : State :=
  match first.kind with
  | none => ⟨index, depth, .fault (.misplaced (.operand none) first.position), calls⟩
  | some (.name name) =>
    looking terminals (index + 1) depth calls fun next =>
      if next.kind = some .opening then
        ⟨index + 2, depth, .enter .arguments, .call name first.position :: calls⟩
      else ⟨index + 1, depth, .result (.path name) 1, calls⟩
  | some .opening => ⟨index + 1, depth, .enter .expression, .group :: calls⟩
  | some kind =>
    match literal? kind with
    | some value => ⟨index + 1, depth, .result (.literal value) 1, calls⟩
    | none => ⟨index + 1, depth, .fault (.misplaced (.operand (some kind)) first.position), calls⟩

/-- The beginning of a call. -/
def begin (index depth : Nat) (calls : List Frame) : Routine → State
  | .expression => ⟨index, depth, .enter (.tier .disjunction), .expression :: calls⟩
  | .tier tier =>
    match tier.operands? with
    | some inner => ⟨index, depth, .enter (.tier inner), .first tier :: calls⟩
    | none =>
      looking terminals index depth calls fun next =>
        ⟨index, depth + 1, .check, .unary next :: calls⟩
  | .primary =>
    looking terminals index depth calls fun next => startPrimary terminals next index depth calls
  | .arguments =>
    looking terminals index depth calls fun next =>
      if next.kind = some .closing then ⟨index + 1, depth, .results [] 0, calls⟩
      else ⟨index, depth, .enter .expression, .arguments [] 0 :: calls⟩

/-- A unary phrase checks the limit before it goes on. If it fails it does not count
    itself off. -/
def checkLimit (first : Terminal) (index depth : Nat) (calls : List Frame) : State :=
  if limit < depth then ⟨index, depth, .fault (.tooDeep limit first.position), calls⟩
  else if first.kind = some .negation then
    ⟨index + 1, depth, .enter (.tier .unary), .negation first.position :: calls⟩
  else ⟨index, depth, .enter .primary, .operand :: calls⟩

/-- A tree with one node more on top, unless it is too high. -/
def grown (tree : Expression) (height position : Nat) : Control :=
  if limit < height + 1 then .fault (.tooDeep limit position) else .result tree (height + 1)

/-- The end of a unary phrase, which counts itself off. -/
def countOff (index depth : Nat) (control : Control) (calls : List Frame) : State :=
  match depth with
  | 0 => ⟨index, 0, .lost, calls⟩
  | depth + 1 => ⟨index, depth, control, calls⟩

/-- A chain goes on behind an operand, or comes back. -/
def goOn (tier : Tier) (tree : Expression) (height index depth : Nat) (calls : List Frame) :
    State :=
  looking terminals index depth calls fun next =>
    match tier.operands?, next.kind.bind (node? tier) with
    | some inner, some node =>
      ⟨index + 1, depth, .enter (.tier inner), .later tier tree height node next.position :: calls⟩
    | _, _ => ⟨index, depth, .result tree height, calls⟩

/-- A call in progress takes the tree that it waits for. -/
def take (tree : Expression) (height index depth : Nat) (calls : List Frame) : Frame → State
  | .expression => ⟨index, depth, .result tree height, calls⟩
  | .first tier => goOn terminals tier tree height index depth calls
  | .later tier left leftHeight node position =>
    if limit < max leftHeight height + 1 then
      ⟨index, depth, .fault (.tooDeep limit position), calls⟩
    else goOn terminals tier (node left tree) (max leftHeight height + 1) index depth calls
  | .negation position => countOff index depth (grown limit (.negation tree) height position) calls
  | .operand => countOff index depth (.result tree height) calls
  | .group =>
    looking terminals index depth calls fun next =>
      if next.kind = some .closing then ⟨index + 1, depth, .result tree height, calls⟩
      else ⟨index, depth, .fault (.misplaced (.closing next.kind) next.position), calls⟩
  | .arguments trees tallest =>
    looking terminals index depth calls fun next =>
      if next.kind = some .comma then
        ⟨index + 1, depth, .enter .expression,
          .arguments (trees ++ [tree]) (max tallest height) :: calls⟩
      else if next.kind = some .closing then
        ⟨index + 1, depth, .results (trees ++ [tree]) (max tallest height), calls⟩
      else ⟨index, depth, .fault (.misplaced (.separator next.kind) next.position), calls⟩
  | .unary _ | .call _ _ => ⟨index, depth, .lost, calls⟩

/-- A call in progress takes the arguments that it waits for. -/
def takeAll (trees : List Expression) (height index depth : Nat) (calls : List Frame) :
    Frame → State
  | .call name position => ⟨index, depth, grown limit (.call name trees) height position, calls⟩
  | _ => ⟨index, depth, .lost, calls⟩

/-- A call in progress passes on the fault of the call that it waits for. A unary phrase
    counts itself off. -/
def passOn (fault : Fault) (index depth : Nat) (calls : List Frame) : Frame → State
  | .negation _ | .operand => countOff index depth (.fault fault) calls
  | .unary _ => ⟨index, depth, .lost, calls⟩
  | _ => ⟨index, depth, .fault fault, calls⟩

/-- The next moment. There is none if all calls have come back, or if the descent is
    lost. -/
def step : State → Option State
  | ⟨index, depth, .enter routine, calls⟩ => some (begin terminals index depth calls routine)
  | ⟨index, depth, .check, .unary first :: calls⟩ => some (checkLimit limit first index depth calls)
  | ⟨index, depth, .check, calls⟩ => some ⟨index, depth, .lost, calls⟩
  | ⟨index, depth, .result tree height, frame :: calls⟩ =>
    some (take terminals limit tree height index depth calls frame)
  | ⟨index, depth, .results trees height, frame :: calls⟩ =>
    some (takeAll limit trees height index depth calls frame)
  | ⟨index, depth, .fault fault, frame :: calls⟩ => some (passOn fault index depth calls frame)
  | ⟨_, _, .result _ _, []⟩ | ⟨_, _, .results _ _, []⟩ | ⟨_, _, .fault _, []⟩
  | ⟨_, _, .lost, _⟩ => none

/-- The second state is a later moment of a descent than the first one, or the same. -/
def Reaches : State → State → Prop :=
  Relation.ReflTransGen fun state next => step terminals limit state = some next

/-- What has been read when all calls have come back: nothing but the end may be left. -/
def State.outcome (state : State) : Option (Except Fault Expression) :=
  match state.control, state.calls with
  | .result tree _, [] =>
    terminals[state.index]?.map fun next =>
      match next.kind with
      | none => .ok tree
      | some kind => .error (.misplaced (.trailing kind) next.position)
  | .fault fault, [] => some (.error fault)
  | _, _ => none

/-! ## Calls that come back -/

/-- More calls are in progress than these ones, which are the outermost of them. -/
def Inside (outer : List Frame) (state : State) : Prop :=
  ∃ frame frames, state.calls = frame :: frames ++ outer

/-- Steps from a state to another one, between which there are always more calls in
    progress than the given ones. -/
inductive Runs (outer : List Frame) : State → State → Prop
  | last {state next : State} (h : step terminals limit state = some next) : Runs outer state next
  | step {state next after : State} (h : step terminals limit state = some next)
      (hinside : Inside outer next) (hrest : Runs outer next after) : Runs outer state after

/-- The call that is about to begin in the first state comes back in the second one. -/
def Returns (state after : State) : Prop :=
  Runs terminals limit state.calls state after ∧ after.calls = state.calls

end Steps

section Runs

variable {terminals : List Terminal} {limit : Nat} {outer : List Frame}
  {state next back after : State}

theorem Inside.of_calls {frame : Frame} (h : state.calls = frame :: outer) :
    Inside outer state := ⟨frame, [], h⟩

/-- Inside of a call, one is inside of the calls around it. -/
theorem Inside.around {frame : Frame} (h : Inside (frame :: outer) state) :
    Inside outer state := by
  obtain ⟨inner, frames, hcalls⟩ := h
  exact ⟨inner, frames ++ [frame], by simp [hcalls]⟩

/-- A call that comes back is a part of the call that has made it. -/
theorem Runs.append {frame : Frame} (h : Runs terminals limit (frame :: outer) state back)
    (hback : back.calls = frame :: outer) (hrest : Runs terminals limit outer back after) :
    Runs terminals limit outer state after := by
  induction h with
  | last h => exact .step h (.of_calls hback) hrest
  | step h hinside _ ih => exact .step h hinside.around (ih hback hrest)

/-- A call that comes back is a part of the descent. -/
theorem Runs.reaches (h : Runs terminals limit outer state after) :
    Reaches terminals limit state after := by
  induction h with
  | last h => exact .single h
  | step h _ _ ih => exact .head h ih

/-- With as many calls in progress as before, one is not inside of them. -/
theorem not_inside_of_calls (h : state.calls = outer) : ¬Inside outer state := by
  rintro ⟨frame, frames, hcalls⟩
  have hlength := congrArg List.length (h.symm.trans hcalls)
  rw [List.length_append, List.length_cons] at hlength
  omega

/-- A call comes back in one state at most. -/
theorem Runs.unique {after' : State} (h : Runs terminals limit outer state after)
    (hcalls : after.calls = outer) (h' : Runs terminals limit outer state after')
    (hcalls' : after'.calls = outer) : after = after' := by
  induction h with
  | last h =>
    cases h' with
    | last h' => exact Option.some.inj (h.symm.trans h')
    | step h' hinside _ =>
      obtain rfl := Option.some.inj (h.symm.trans h')
      exact absurd hinside (not_inside_of_calls hcalls)
  | step h hinside _ ih =>
    cases h' with
    | last h' =>
      obtain rfl := Option.some.inj (h.symm.trans h')
      exact absurd hinside (not_inside_of_calls hcalls')
    | step h' _ hrest' =>
      obtain rfl := Option.some.inj (h.symm.trans h')
      exact ih hcalls hrest'

/-- Every moment of a descent that comes to an end is followed by this end. -/
theorem Reaches.final (h : Reaches terminals limit state next)
    (h' : Reaches terminals limit state after) (hfinal : step terminals limit after = none) :
    Reaches terminals limit next after := by
  have hunique : Relator.RightUnique fun state next => step terminals limit state = some next :=
    fun _ _ _ h h' => Option.some.inj (h.symm.trans h')
  rcases Relation.ReflTransGen.total_of_right_unique hunique h h' with hnext | hback
  · exact hnext
  · rcases Relation.ReflTransGen.cases_head hback with rfl | ⟨_, hstep, -⟩
    · exact .refl
    · rw [hfinal] at hstep
      cases hstep

end Runs

end Descent

end FormRules
