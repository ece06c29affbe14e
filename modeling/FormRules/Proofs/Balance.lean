/-
  FormRules.Proofs.Balance

  The cursor and the counter of a descent.

  `Sound` says at each moment where the cursor and the counter stand. One step keeps it
  (`sound_step`), and with it a whole descent does. The cursor never leaves the list,
  since the only terminal that it stays at is the last one. The counter is the number of
  unary calls in progress and goes one beyond the limit only in a call that fails for
  this. Such a call does not count itself off, and so the counter stays one ahead while
  its fault is passed on.

  Each call that a descent makes comes back, as it traces a level. What the levels are
  known to return is what calls come back with (`exists_returns`).

  Main statement: `descent_balanced`.
-/

import FormRules.Proofs.Tracing
import Mathlib.Data.Set.List

namespace FormRules

namespace Descent

open Grammar Precedence

/-! ## What holds at every moment -/

section Moments

variable {terminals : List Terminal} {limit index depth : Nat} {calls : List Frame}
  {frame : Frame} {state next : State}

/-- The cursor is in the list, and the counter is the number of unary calls in progress,
    within the limit. -/
structure Steady (terminals : List Terminal) (limit index depth : Nat) (calls : List Frame) :
    Prop where
  index_lt : index < terminals.length
  depth_eq : depth = unaryCalls calls
  depth_le : depth ≤ limit

/-- What holds of a moment, by what is about to happen. -/
inductive Sound (terminals : List Terminal) (limit : Nat) : State → Prop
  | enter {index depth : Nat} {routine : Routine} {calls : List Frame}
      (h : Steady terminals limit index depth calls)
      (hprimary : routine = .primary → 0 < depth) :
      Sound terminals limit ⟨index, depth, .enter routine, calls⟩
  | result {index depth : Nat} {tree : Expression} {height : Nat} {calls : List Frame}
      (h : Steady terminals limit index depth calls) :
      Sound terminals limit ⟨index, depth, .result tree height, calls⟩
  | results {index depth : Nat} {trees : List Expression} {height : Nat} {calls : List Frame}
      (h : Steady terminals limit index depth calls) :
      Sound terminals limit ⟨index, depth, .results trees height, calls⟩
  /-- A call of the unary tier has counted itself and not checked the limit. -/
  | check {index depth : Nat} {first : Terminal} {calls : List Frame}
      (h : Steady terminals limit index depth calls) (hfirst : terminals[index]? = some first) :
      Sound terminals limit ⟨index, depth + 1, .check, .unary first :: calls⟩
  | fault {index depth : Nat} {fault : Fault} {calls : List Frame}
      (h : Steady terminals limit index depth calls) :
      Sound terminals limit ⟨index, depth, .fault fault, calls⟩
  /-- A call of the unary tier has failed at the limit. -/
  | ahead {index depth position : Nat} {calls : List Frame}
      (h : Steady terminals limit index depth calls) :
      Sound terminals limit ⟨index, depth + 1, .fault (.tooDeep limit position), calls⟩
  | lost {index depth : Nat} {calls : List Frame} (hindex : index < terminals.length) :
      Sound terminals limit ⟨index, depth, .lost, calls⟩

theorem Sound.index_lt (h : Sound terminals limit state) : state.index < terminals.length := by
  cases h with
  | enter h | result h | results h | check h | fault h | ahead h => exact h.index_lt
  | lost hindex => exact hindex

theorem sound_start (h : IsEnded terminals) : Sound terminals limit start := by
  obtain ⟨front, stop, rfl, -⟩ := h
  exact .enter ⟨by simp, rfl, Nat.zero_le _⟩ nofun

/-! ### The cursor -/

/-- Behind a terminal that is not the end there is another one. -/
theorem IsEnded.succ_lt (hends : IsEnded terminals) {first : Terminal}
    (h : terminals[index]? = some first) (hkind : first.kind ≠ none) :
    index + 1 < terminals.length := by
  obtain ⟨front, stop, rfl, -⟩ := hends
  obtain ⟨hindex, hfirst⟩ := List.getElem?_eq_some_iff.1 h
  rw [List.length_append, List.length_singleton] at hindex ⊢
  refine Nat.lt_of_le_of_ne hindex fun heq => hkind ?_
  obtain rfl : index = front.length := by omega
  rw [List.getElem_concat_length rfl] at hfirst
  rw [← hfirst]

/-- The cursor moves on from every terminal but the end. -/
theorem Steady.advance (h : Steady terminals limit index depth calls) (hends : IsEnded terminals)
    {first : Terminal} (hfirst : terminals[index]? = some first) (hkind : first.kind ≠ none) :
    Steady terminals limit (index + 1) depth calls :=
  ⟨hends.succ_lt hfirst hkind, h.depth_eq, h.depth_le⟩

/-- Looking at the cursor, there is something to go on with. -/
theorem sound_looking {follow : Terminal → State} (hindex : index < terminals.length)
    (h : ∀ first, terminals[index]? = some first → Sound terminals limit (follow first)) :
    Sound terminals limit (looking terminals index depth calls follow) := by
  rw [looking]
  split
  · exact .lost hindex
  · rename_i first hfirst
    exact h first hfirst

/-! ### The counter -/

theorem unaryCalls_cons_of_not_isUnary (hframe : frame.isUnary = false) :
    unaryCalls (frame :: calls) = unaryCalls calls :=
  List.countP_cons_of_neg (by simp [hframe])

theorem unaryCalls_cons_of_isUnary (hframe : frame.isUnary = true) :
    unaryCalls (frame :: calls) = unaryCalls calls + 1 :=
  List.countP_cons_of_pos hframe

/-- Calls of other tiers than the unary one do not count. -/
theorem steady_cons_iff (hframe : frame.isUnary = false) :
    Steady terminals limit index depth (frame :: calls) ↔
      Steady terminals limit index depth calls := by
  have hcount : unaryCalls (frame :: calls) = unaryCalls calls :=
    unaryCalls_cons_of_not_isUnary hframe
  constructor
  · intro h
    exact ⟨h.index_lt, hcount ▸ h.depth_eq, h.depth_le⟩
  · intro h
    exact ⟨h.index_lt, hcount ▸ h.depth_eq, h.depth_le⟩

/-- A unary call counts, within the limit. -/
theorem steady_unary_iff (hframe : frame.isUnary = true) :
    Steady terminals limit index (depth + 1) (frame :: calls) ↔
      Steady terminals limit index depth calls ∧ depth < limit := by
  have hcount : unaryCalls (frame :: calls) = unaryCalls calls + 1 :=
    unaryCalls_cons_of_isUnary hframe
  constructor
  · rintro ⟨hindex, hdepth, hlimit⟩
    exact ⟨⟨hindex, by omega, by omega⟩, hlimit⟩
  · rintro ⟨⟨hindex, hdepth, -⟩, hlimit⟩
    exact ⟨hindex, by omega, hlimit⟩

/-! ### Single steps -/

theorem sound_startPrimary (hends : IsEnded terminals)
    (h : Steady terminals limit index depth calls) {first : Terminal}
    (hfirst : terminals[index]? = some first) :
    Sound terminals limit (startPrimary terminals first index depth calls) := by
  unfold startPrimary
  split
  · exact .fault h
  · rename_i name hkind
    have hnext := h.advance hends hfirst (by simp [hkind])
    refine sound_looking hnext.index_lt fun next hnextFirst => ?_
    split
    · rename_i hopening
      have hinside := hnext.advance hends hnextFirst (by simp [hopening])
      exact .enter ((steady_cons_iff rfl).2 hinside) nofun
    · exact .result hnext
  · rename_i hkind
    exact .enter ((steady_cons_iff rfl).2 (h.advance hends hfirst (by simp [hkind]))) nofun
  · rename_i kind _ _ hkind
    have hnext := h.advance hends hfirst (by simp [hkind])
    split
    · exact .result hnext
    · exact .fault hnext

theorem sound_begin (hends : IsEnded terminals) (h : Steady terminals limit index depth calls)
    (routine : Routine) : Sound terminals limit (begin terminals index depth calls routine) := by
  cases routine with
  | expression => exact .enter ((steady_cons_iff rfl).2 h) nofun
  | tier tier =>
    cases tier with
    | unary => exact sound_looking h.index_lt fun first hfirst => .check h hfirst
    | disjunction | conjunction | equality | ordering =>
      exact .enter ((steady_cons_iff rfl).2 h) nofun
  | primary => exact sound_looking h.index_lt fun first => sound_startPrimary hends h
  | arguments =>
    refine sound_looking h.index_lt fun first hfirst => ?_
    split
    · rename_i hclosing
      exact .results (h.advance hends hfirst (by simp [hclosing]))
    · exact .enter ((steady_cons_iff rfl).2 h) nofun

theorem sound_checkLimit (hends : IsEnded terminals)
    (h : Steady terminals limit index depth calls) {first : Terminal}
    (hfirst : terminals[index]? = some first) :
    Sound terminals limit (checkLimit limit first index (depth + 1) calls) := by
  unfold checkLimit
  split
  · exact .ahead h
  · rename_i hlimit
    split
    · rename_i hnegation
      have hnext := h.advance hends hfirst (by simp [hnegation])
      exact .enter ((steady_unary_iff rfl).2 ⟨hnext, by omega⟩) nofun
    · exact .enter ((steady_unary_iff rfl).2 ⟨h, by omega⟩) fun _ => Nat.succ_pos depth

theorem sound_grown (h : Steady terminals limit index depth calls) (tree : Expression)
    (height position : Nat) :
    Sound terminals limit ⟨index, depth, grown limit tree height position, calls⟩ := by
  unfold grown
  split
  · exact .fault h
  · exact .result h

/-- A unary call in progress has counted itself, so that it can count itself off. -/
theorem sound_countOff (hframe : frame.isUnary = true)
    (h : Steady terminals limit index depth (frame :: calls)) {control : Control}
    (hcontrol : ∀ {before : Nat}, Steady terminals limit index before calls →
      Sound terminals limit ⟨index, before, control, calls⟩) :
    Sound terminals limit (countOff index depth control calls) := by
  cases depth with
  | zero => exact .lost h.index_lt
  | succ before => exact hcontrol ((steady_unary_iff hframe).1 h).1

theorem sound_goOn (hends : IsEnded terminals) (h : Steady terminals limit index depth calls)
    (tier : Tier) (tree : Expression) (height : Nat) :
    Sound terminals limit (goOn terminals tier tree height index depth calls) := by
  refine sound_looking h.index_lt fun first hfirst => ?_
  split
  · rename_i inner node _ hnode
    have hkind : first.kind ≠ none := by
      intro hnone
      rw [hnone] at hnode
      cases hnode
    exact .enter ((steady_cons_iff rfl).2 (h.advance hends hfirst hkind)) nofun
  · exact .result h

theorem sound_take (hends : IsEnded terminals)
    (h : Steady terminals limit index depth (frame :: calls)) (tree : Expression) (height : Nat) :
    Sound terminals limit (take terminals limit tree height index depth calls frame) := by
  cases frame with
  | expression => exact .result ((steady_cons_iff rfl).1 h)
  | first tier => exact sound_goOn hends ((steady_cons_iff rfl).1 h) tier tree height
  | later tier left leftHeight node position =>
    have hcalls := (steady_cons_iff rfl).1 h
    by_cases hheight : limit < max leftHeight height + 1
    · have hfault : take terminals limit tree height index depth calls
          (.later tier left leftHeight node position) =
            ⟨index, depth, .fault (.tooDeep limit position), calls⟩ := if_pos hheight
      rw [hfault]
      exact .fault hcalls
    · have hgoOn : take terminals limit tree height index depth calls
          (.later tier left leftHeight node position) =
            goOn terminals tier (node left tree) (max leftHeight height + 1) index depth calls :=
        if_neg hheight
      rw [hgoOn]
      exact sound_goOn hends hcalls tier _ _
  | negation position => exact sound_countOff rfl h fun hcalls => sound_grown hcalls _ _ _
  | operand => exact sound_countOff rfl h .result
  | group =>
    have hcalls := (steady_cons_iff rfl).1 h
    refine sound_looking h.index_lt fun first hfirst => ?_
    split
    · rename_i hclosing
      exact .result (hcalls.advance hends hfirst (by simp [hclosing]))
    · exact .fault hcalls
  | arguments trees tallest =>
    have hcalls := (steady_cons_iff rfl).1 h
    refine sound_looking h.index_lt fun first hfirst => ?_
    split
    · rename_i hcomma
      have hnext := hcalls.advance hends hfirst (by simp [hcomma])
      exact .enter ((steady_cons_iff rfl).2 hnext) nofun
    · split
      · rename_i hclosing
        exact .results (hcalls.advance hends hfirst (by simp [hclosing]))
      · exact .fault hcalls
  | unary first => exact .lost h.index_lt
  | call name position => exact .lost h.index_lt

theorem sound_takeAll (h : Steady terminals limit index depth (frame :: calls))
    (trees : List Expression) (height : Nat) :
    Sound terminals limit (takeAll limit trees height index depth calls frame) := by
  unfold takeAll
  split
  · exact sound_grown ((steady_cons_iff rfl).1 h) _ _ _
  · exact .lost h.index_lt

theorem sound_passOn (h : Steady terminals limit index depth (frame :: calls)) (fault : Fault) :
    Sound terminals limit (passOn fault index depth calls frame) := by
  cases frame with
  | negation position => exact sound_countOff rfl h .fault
  | operand => exact sound_countOff rfl h .fault
  | unary first => exact .lost h.index_lt
  | expression | first _ | later _ _ _ _ _ | call _ _ | group | arguments _ _ =>
    exact .fault ((steady_cons_iff rfl).1 h)

/-- The counter stays one ahead while the fault of the call that has not counted itself
    off is passed on. -/
theorem sound_passOn_ahead (h : Steady terminals limit index depth (frame :: calls))
    (position : Nat) :
    Sound terminals limit (passOn (.tooDeep limit position) index (depth + 1) calls frame) := by
  cases hframe : frame.isUnary with
  | false =>
    have hcalls := (steady_cons_iff hframe).1 h
    cases frame with
    | negation _ | operand | unary _ => cases hframe
    | expression | first _ | later _ _ _ _ _ | call _ _ | group | arguments _ _ =>
      exact .ahead hcalls
  | true =>
    obtain ⟨before, rfl⟩ : ∃ before, depth = before + 1 :=
      ⟨_, h.depth_eq.trans (unaryCalls_cons_of_isUnary hframe)⟩
    have hcalls := ((steady_unary_iff hframe).1 h).1
    -- the phrase counts itself off, which leaves the one that has not done so
    cases frame with
    | negation _ | operand => exact .ahead hcalls
    | unary _ => exact .lost h.index_lt
    | expression | first _ | later _ _ _ _ _ | call _ _ | group | arguments _ _ => cases hframe

/-- One step keeps what holds of a moment. -/
theorem sound_step (hends : IsEnded terminals) (h : Sound terminals limit state)
    (hstep : step terminals limit state = some next) : Sound terminals limit next := by
  cases h with
  | enter h =>
    cases hstep
    exact sound_begin hends h _
  | check h hfirst =>
    cases hstep
    exact sound_checkLimit hends h hfirst
  | @result index depth tree height calls h =>
    cases calls with
    | nil => cases hstep
    | cons frame calls =>
      cases hstep
      exact sound_take hends h tree height
  | @results index depth trees height calls h =>
    cases calls with
    | nil => cases hstep
    | cons frame calls =>
      cases hstep
      exact sound_takeAll h trees height
  | @fault index depth fault calls h =>
    cases calls with
    | nil => cases hstep
    | cons frame calls =>
      cases hstep
      exact sound_passOn h fault
  | @ahead index depth position calls h =>
    cases calls with
    | nil => cases hstep
    | cons frame calls =>
      cases hstep
      exact sound_passOn_ahead h position
  | lost => cases hstep

/-- So it holds at every moment of a descent. -/
theorem Reaches.sound (hends : IsEnded terminals) (h : Reaches terminals limit state next)
    (hstate : Sound terminals limit state) : Sound terminals limit next := by
  induction h with
  | refl => exact hstate
  | tail _ hstep ih => exact sound_step hends ih hstep

/-! ### What is beyond the limit -/

/-- The innermost call in progress fails next, with this fault. With no call in progress
    the whole descent has failed. -/
def Fails (terminals : List Terminal) (limit : Nat) (fault : Fault) (state : State) : Prop :=
  match state.calls with
  | [] => state.control = .fault fault
  | _ :: calls => ∃ next, step terminals limit state = some next ∧
      next.control = .fault fault ∧ next.calls = calls

theorem passOn_eq_fault {fault : Fault}
    (h : (passOn fault index (depth + 1) calls frame).control ≠ .lost) :
    (passOn fault index (depth + 1) calls frame).control = .fault fault ∧
      (passOn fault index (depth + 1) calls frame).calls = calls := by
  cases frame with
  | unary first => exact absurd rfl h
  | negation _ | operand | expression | first _ | later _ _ _ _ _ | call _ _ | group
  | arguments _ _ => exact ⟨rfl, rfl⟩

/-- With the counter beyond the limit, a call fails for this, or has failed. -/
theorem Sound.fails (h : Sound terminals limit state) (hbeyond : limit < state.depth)
    (hnext : ∀ next, step terminals limit state = some next → next.control ≠ .lost)
    (hcontrol : state.control ≠ .lost) :
    ∃ position, Fails terminals limit (.tooDeep limit position) state := by
  cases h with
  | enter h | result h | results h | fault h => exact absurd h.depth_le (Nat.not_le.2 hbeyond)
  | @check index depth first calls h =>
    have hfault : checkLimit limit first index (depth + 1) calls =
        ⟨index, depth + 1, .fault (.tooDeep limit first.position), calls⟩ := if_pos hbeyond
    exact ⟨first.position, _, congrArg some hfault, rfl, rfl⟩
  | @ahead index depth position calls h =>
    refine ⟨position, ?_⟩
    cases calls with
    | nil => rfl
    | cons frame calls => exact ⟨_, rfl, passOn_eq_fault (hnext _ rfl)⟩
  | lost => exact absurd rfl hcontrol

/-- Where the cursor and the counter of a descent stand. -/
structure InBounds (terminals : List Terminal) (limit : Nat) (state : State) : Prop where
  /-- The cursor is in the list. -/
  index_lt : state.index < terminals.length
  /-- There is something to go on with. -/
  not_lost : state.control ≠ .lost
  /-- The counter goes beyond the limit by one at most. -/
  depth_le : state.depth ≤ limit + 1
  /-- It goes beyond the limit only in a call that fails for this. -/
  fails_of_lt : limit < state.depth →
    ∃ position, Fails terminals limit (.tooDeep limit position) state
  /-- The counter is the number of unary calls in progress. -/
  depth_eq : (∀ fault, state.control ≠ .fault fault) → state.depth = unaryCalls state.calls
  /-- This is so for faults, too, unless the call that has failed was not counted off. -/
  depth_eq_of_fault : ∀ fault, state.control = .fault fault →
    state.depth = unaryCalls state.calls ∨
      state.depth = unaryCalls state.calls + 1 ∧ ∃ position, fault = .tooDeep limit position

theorem Sound.inBounds (h : Sound terminals limit state)
    (hnext : ∀ next, step terminals limit state = some next → next.control ≠ .lost)
    (hcontrol : state.control ≠ .lost) : InBounds terminals limit state where
  index_lt := h.index_lt
  not_lost := hcontrol
  depth_le := by
    cases h with
    | enter h | result h | results h | fault h => exact Nat.le_succ_of_le h.depth_le
    | check h | ahead h => exact Nat.succ_le_succ h.depth_le
    | lost => exact absurd rfl hcontrol
  fails_of_lt hbeyond := h.fails hbeyond hnext hcontrol
  depth_eq hfault := by
    cases h with
    | enter h | result h | results h => exact h.depth_eq
    | check h => exact (congrArg Nat.succ h.depth_eq).trans (unaryCalls_cons_of_isUnary rfl).symm
    | fault | ahead => exact absurd rfl (hfault _)
    | lost => exact absurd rfl hcontrol
  depth_eq_of_fault fault hfault := by
    cases h with
    | enter | result | results | check | lost => cases hfault
    | fault h => exact Or.inl h.depth_eq
    | ahead h =>
      cases hfault
      exact Or.inr ⟨congrArg Nat.succ h.depth_eq, _, rfl⟩

end Moments

/-! ## How calls come back -/

section Calls

/-- What a routine can come back with: a tree and its height, or arguments and the height
    of the tallest one, within the limit. -/
inductive IsAnswer (limit : Nat) : Routine → Control → Prop
  | tree {routine : Routine} {tree : Expression} (hroutine : routine ≠ .arguments)
      (h : tree.height ≤ limit) : IsAnswer limit routine (.result tree tree.height)
  | trees {trees : List Expression} (h : Expression.heightAll trees ≤ limit) :
      IsAnswer limit .arguments (.results trees (Expression.heightAll trees))

/-- A call has failed, or it has come back behind where it began, with an answer and
    nothing more counted than before. -/
def Settles (terminals : List Terminal) (limit : Nat) (routine : Routine) (state after : State) :
    Prop :=
  (∃ fault, after.control = .fault fault) ∨
    state.index < after.index ∧ after.index < terminals.length ∧ after.depth = state.depth ∧
      IsAnswer limit routine after.control

variable {tokens : Tokens} {limit depth : Nat} {routine : Routine} {input : List Token}

theorem length_terminals (tokens : Tokens) :
    tokens.terminals.length = tokens.list.length + 1 := by
  simp [Tokens.terminals]

/-- What calls come back with, for any outcome that is traced. -/
theorem Comes.settles {α : Type} {control : α → Control} {rest : α → List Token}
    {outcome : Except Fault α} {calls : List Frame} (hinput : input <:+ tokens.list)
    (h : Comes tokens limit depth calls ⟨place tokens input, depth, .enter routine, calls⟩
      control rest outcome)
    (hok : ∀ parsed, outcome = .ok parsed →
      (rest parsed).length < input.length ∧ IsAnswer limit routine (control parsed)) :
    ∃ after,
      Returns tokens.terminals limit ⟨place tokens input, depth, .enter routine, calls⟩ after ∧
      Settles tokens.terminals limit routine
        ⟨place tokens input, depth, .enter routine, calls⟩ after := by
  cases outcome with
  | error fault =>
    obtain ⟨index, depth', -, hruns⟩ := h
    exact ⟨_, ⟨hruns, rfl⟩, Or.inl ⟨fault, rfl⟩⟩
  | ok parsed =>
    obtain ⟨hshorter, hanswer⟩ := hok parsed rfl
    have hlength := hinput.length_le
    refine ⟨_, ⟨h.2, rfl⟩, Or.inr ⟨?_, ?_, rfl, hanswer⟩⟩
    · simp only [place]
      omega
    · rw [length_terminals]
      simp only [place]
      omega

theorem isAnswer_answer {parsed : Parsed input} (hroutine : routine ≠ .arguments)
    {levels : Nat} {tier : Tier} (h : parsed.height = parsed.tree.height ∧
      IsPhrase limit levels tier tier input parsed.tree parsed.rest) :
    IsAnswer limit routine (answer parsed) := by
  obtain ⟨hheight, _, _, _, _, _, hlimit, _⟩ := h
  rw [answer, hheight]
  exact .tree hroutine hlimit

/-- Each tier is done as a level does it that reads this tier. -/
theorem exists_level (tokens : Tokens) (hdepth : depth ≤ limit) (tier : Tier) :
    ∃ level, Traces tokens limit depth (.tier tier) level ∧
      Reads limit (limit - depth) tier level := by
  have hchain : ∀ {tier inner : Tier}, tier.operands? = some inner →
      (∃ level, Traces tokens limit depth (.tier inner) level ∧
        Reads limit (limit - depth) inner level) →
      ∃ level, Traces tokens limit depth (.tier tier) level ∧
        Reads limit (limit - depth) tier level := by
    rintro tier inner hinner ⟨level, htraces, hreads⟩
    exact ⟨_, chain_traces hinner htraces,
      chain_reads hreads hinner fun _ _ => node?_eq_some_iff⟩
  have hunary : ∃ level, Traces tokens limit depth (.tier .unary) level ∧
      Reads limit (limit - depth) .unary level :=
    ⟨_, unary_traces (Nat.sub_add_cancel hdepth), unary_reads (Nat.sub_le _ _) tokens.stop⟩
  -- from the tightest tier outwards
  have hordering := hchain (show Tier.ordering.operands? = some .unary from rfl) hunary
  have hequality := hchain (show Tier.equality.operands? = some .ordering from rfl) hordering
  have hconjunction := hchain (show Tier.conjunction.operands? = some .equality from rfl) hequality
  have hdisjunction :=
    hchain (show Tier.disjunction.operands? = some .conjunction from rfl) hconjunction
  cases tier <;> assumption

/-- Every call comes back. -/
theorem exists_returns (hinput : input <:+ tokens.list) (hdepth : depth ≤ limit)
    (hprimary : routine = .primary → 0 < depth) (calls : List Frame) :
    ∃ after,
      Returns tokens.terminals limit ⟨place tokens input, depth, .enter routine, calls⟩ after ∧
      Settles tokens.terminals limit routine
        ⟨place tokens input, depth, .enter routine, calls⟩ after := by
  obtain ⟨level, htraces, hreads⟩ := exists_level tokens hdepth .disjunction
  have hexpression := expression_traces htraces
  cases routine with
  | expression =>
    refine (hexpression hinput calls).settles hinput fun parsed hparsed => ⟨parsed.shorter, ?_⟩
    exact isAnswer_answer nofun (hreads.sound hparsed)
  | tier tier =>
    obtain ⟨level, htraces, hreads⟩ := exists_level tokens hdepth tier
    refine (htraces hinput calls).settles hinput fun parsed hparsed => ⟨parsed.shorter, ?_⟩
    exact isAnswer_answer nofun (hreads.sound hparsed)
  | primary =>
    -- only unary phrases call for a primary one, so that the limit allows for a leaf
    have hlimit : 0 < limit := Nat.lt_of_lt_of_le (hprimary rfl) hdepth
    refine (primary_traces hexpression hinput calls).settles hinput fun parsed hparsed =>
      ⟨parsed.shorter, ?_⟩
    exact isAnswer_answer nofun (primary_sound hreads hlimit hparsed)
  | arguments =>
    refine (arguments_comes hexpression hinput calls).settles hinput fun parsed hparsed =>
      ⟨parsed.shorter, ?_⟩
    obtain ⟨hheight, _, _, _, _, _, _, _, _, hlimit⟩ := arguments_sound hreads hparsed
    rw [answerAll, hheight]
    exact .trees hlimit

/-- A descent comes to an end with what is read from the tokens. -/
theorem exists_outcome (limit : Nat) (tokens : Tokens) :
    ∃ last, Reaches tokens.terminals limit start last ∧ step tokens.terminals limit last = none ∧
      last.outcome tokens.terminals = some (Expression.ofTokens limit tokens) := by
  have hcomes := expression_unary_traces (unary_traces (Nat.add_zero limit))
    (List.suffix_refl tokens.list) []
  have hplace : place tokens tokens.list = 0 := Nat.sub_self _
  rw [hplace] at hcomes
  unfold Expression.ofTokens
  cases hlevel : Precedence.expression limit (unary limit tokens.stop limit) tokens.list with
  | error fault =>
    rw [hlevel] at hcomes
    obtain ⟨index, depth, -, hruns⟩ := hcomes
    exact ⟨_, hruns.reaches, rfl, rfl⟩
  | ok parsed =>
    rw [hlevel] at hcomes
    obtain ⟨hsuffix, hruns⟩ := hcomes
    refine ⟨_, hruns.reaches, rfl, ?_⟩
    simp only [State.outcome, answer, terminals_place hsuffix]
    cases hrest : parsed.rest <;> rfl

end Calls

/-! ## Whole descents -/

theorem isEnded_terminals (tokens : Tokens) : IsEnded tokens.terminals := by
  refine ⟨_, _, rfl, fun terminal hterminal => ?_⟩
  obtain ⟨token, -, rfl⟩ := List.mem_map.1 hterminal
  exact Option.some_ne_none _

/-- Terminals in order are those of some tokens. -/
theorem IsEnded.exists_tokens {terminals : List Terminal} (h : IsEnded terminals) :
    ∃ tokens : Tokens, tokens.terminals = terminals := by
  obtain ⟨front, stop, rfl, hfront⟩ := h
  have hrange : front ∈ Set.range (List.map fun token : Token =>
      (⟨some token.kind, token.position⟩ : Terminal)) := by
    rw [Set.range_list_map]
    rintro ⟨kind, position⟩ hterminal
    obtain ⟨kind, rfl⟩ := Option.ne_none_iff_exists'.1 (hfront _ hterminal)
    exact ⟨⟨kind, position⟩, rfl⟩
  obtain ⟨list, rfl⟩ := hrange
  exact ⟨⟨list, stop⟩, rfl⟩

/-- There is always something to go on with. -/
theorem Reaches.not_lost {tokens : Tokens} {limit : Nat} {state : State}
    (h : Reaches tokens.terminals limit start state) : state.control ≠ .lost := by
  intro hlost
  obtain ⟨last, hlast, hfinal, houtcome⟩ := exists_outcome limit tokens
  have hstep : step tokens.terminals limit state = none := by
    obtain ⟨index, depth, control, calls⟩ := state
    obtain rfl : control = .lost := hlost
    rfl
  -- nothing follows, so that this would have to be the end
  rcases Relation.ReflTransGen.cases_head (h.final hlast hfinal) with rfl | ⟨next, hnext, -⟩
  · simp only [State.outcome, hlost] at houtcome
    cases houtcome
  · rw [hstep] at hnext
    cases hnext

/-- For all terminals of which the last one is an end, and no other one is, and every
    limit: at each moment of a descent the cursor is in the list, and the counter is the
    number of unary calls in progress and goes beyond the limit by one at most, in a call
    that fails for this. A unary phrase that fails for this does not count itself off,
    and so the counter is one ahead while its fault is passed on. Each call that is made
    comes back. If it has not failed, it has moved the cursor on, has left the counter as
    it was, and has come back with a height that is the one of its tree, or of its tallest
    argument, within the limit. What a whole descent comes to is what is read from the
    tokens. -/
theorem descent_balanced (limit : Nat) {terminals : List Terminal} (h : IsEnded terminals) :
    (∀ state, Reaches terminals limit start state → InBounds terminals limit state) ∧
    (∀ state routine, Reaches terminals limit start state → state.control = .enter routine →
      (∃ after, Returns terminals limit state after) ∧
      ∀ after, Returns terminals limit state after →
        Settles terminals limit routine state after) ∧
    (∀ tokens : Tokens, tokens.terminals = terminals →
      ∃ last, Reaches terminals limit start last ∧ step terminals limit last = none ∧
        last.outcome terminals = some (Expression.ofTokens limit tokens)) := by
  obtain ⟨tokens, rfl⟩ := h.exists_tokens
  refine ⟨?_, ?_, ?_⟩
  · intro state hstate
    exact (hstate.sound h (sound_start h)).inBounds
      (fun next hnext => Reaches.not_lost (hstate.tail hnext)) hstate.not_lost
  · rintro ⟨index, depth, control, calls⟩ routine hstate rfl
    -- the cursor stands at the tokens that are left
    cases hstate.sound h (sound_start h) with
    | enter hsteady hprimary =>
      have hindex := hsteady.index_lt
      rw [length_terminals] at hindex
      have hplace : place tokens (tokens.list.drop index) = index := by
        rw [place, List.length_drop]
        omega
      obtain ⟨back, hreturns, hsettles⟩ := exists_returns (List.drop_suffix index tokens.list)
        hsteady.depth_le hprimary calls
      rw [hplace] at hreturns hsettles
      refine ⟨⟨back, hreturns⟩, fun after hafter => ?_⟩
      rw [hafter.1.unique hafter.2 hreturns.1 hreturns.2]
      exact hsettles
  · intro other hother
    obtain ⟨last, hlast, hfinal, houtcome⟩ := exists_outcome limit other
    rw [hother] at hlast hfinal houtcome
    exact ⟨last, hlast, hfinal, houtcome⟩

/-- A negated path in parentheses is three unary phrases. Under the limit two the counter
    comes to three in the last one, and the descent fails for this. -/
theorem descent_balanced_negated_group :
    ∃ tokens : Tokens, Tokens.scan "!(a)" = .ok tokens ∧ IsEnded tokens.terminals ∧
      (∀ state, Reaches tokens.terminals 2 start state → state.depth ≤ 3) ∧
      ∃ last, Reaches tokens.terminals 2 start last ∧ step tokens.terminals 2 last = none ∧
        last.outcome tokens.terminals = some (.error (.tooDeep 2 2)) := by
  have hscan : Tokens.scan "!(a)" =
      .ok ⟨[⟨.negation, 0⟩, ⟨.opening, 1⟩, ⟨.name "a", 2⟩, ⟨.closing, 3⟩], 4⟩ := by
    with_unfolding_all rfl
  have hread : Expression.ofTokens 2
      ⟨[⟨.negation, 0⟩, ⟨.opening, 1⟩, ⟨.name "a", 2⟩, ⟨.closing, 3⟩], 4⟩ =
        .error (.tooDeep 2 2) := by
    with_unfolding_all rfl
  obtain ⟨hbounds, -, houtcome⟩ := descent_balanced 2 (isEnded_terminals
    ⟨[⟨.negation, 0⟩, ⟨.opening, 1⟩, ⟨.name "a", 2⟩, ⟨.closing, 3⟩], 4⟩)
  obtain ⟨last, hlast, hfinal, hfault⟩ := houtcome _ rfl
  rw [hread] at hfault
  exact ⟨_, hscan, isEnded_terminals _, fun state hstate => (hbounds state hstate).depth_le,
    last, hlast, hfinal, hfault⟩

end Descent

end FormRules
