/-
  FormRules.Proofs.Agreement

  The operations of an engine tell one story about a source, whatever they find in the
  cache.

  What a source is read as decides all of them. If this is a fault, validation and
  evaluation report it with the same text and there are no dependencies. If it is a tree,
  then evaluation fails at a call of an unknown function of the tree, or not at all
  (`evaluate_error`). A failed evaluation has the value false and says why.

  Main statement: `operations_agree`.
-/

import FormRules.Proofs.Caching

namespace FormRules

theorem append_ne_empty {front : String} (h : front ≠ "") (back : String) :
    front ++ back ≠ "" := by
  intro hempty
  exact h (String.append_eq_empty_iff.1 hempty).1

/-- Every fault has a wording. -/
theorem Fault.message_ne_empty (fault : Fault) : fault.message ≠ "" := by
  cases fault <;> unfold message
  -- each begins with a fixed text
  all_goals
    repeat apply append_ne_empty
    decide

namespace Expression

/-! ## Faults of evaluation -/

/-- The fault is that of a call among some nodes whose function does not exist. -/
def CallsUnknown (nodes : List Expression) (fault : Fault) : Prop :=
  ∃ function arguments, .call function arguments ∈ nodes ∧ Builtin.named? function = none ∧
    fault = .unknownFunction function

theorem CallsUnknown.mono {nodes others : List Expression} {fault : Fault}
    (h : CallsUnknown nodes fault) (hsubset : nodes ⊆ others) : CallsUnknown others fault := by
  obtain ⟨function, arguments, hmem, hunknown, hfault⟩ := h
  exact ⟨function, arguments, hsubset hmem, hunknown, hfault⟩

section Evaluate

variable {context : Context}

mutual

/-- Evaluation fails only where a function does not exist that is called in the tree. -/
theorem evaluate_error : ∀ {tree : Expression} {fault : Fault},
    evaluate context tree = .error fault → CallsUnknown tree.nodes fault
  | .literal _, _, h => by
    rw [evaluate] at h
    cases h
  | .path _, _, h => by
    rw [evaluate] at h
    cases h
  | .negation operand, _, h => by
    rw [evaluate_negation] at h
    rcases error_of_bind h with hoperand | ⟨value, -, hvalue⟩
    · exact (evaluate_error hoperand).mono (by simp [nodes])
    · cases hvalue
  | .comparison op left right, _, h => by
    rw [evaluate_comparison] at h
    rcases error_of_bind h with hleft | ⟨a, -, hrest⟩
    · exact (evaluate_error hleft).mono (by simp [nodes])
    rcases error_of_bind hrest with hright | ⟨b, -, hvalue⟩
    · exact (evaluate_error hright).mono (by simp [nodes])
    · cases hvalue
  | .connective op left right, _, h => by
    rw [evaluate_connective] at h
    rcases error_of_bind h with hleft | ⟨a, -, hrest⟩
    · exact (evaluate_error hleft).mono (by simp [nodes])
    -- the second operand may not be reached
    split at hrest
    · cases hrest
    · exact (evaluate_error hrest).mono (by simp [nodes])
  | .call function arguments, _, h => by
    rw [evaluate_call] at h
    split at h
    · rename_i hunknown
      cases h
      exact ⟨function, arguments, by simp [nodes], hunknown, rfl⟩
    · rcases error_of_bind h with harguments | ⟨values, -, hvalue⟩
      · exact (evaluateAll_error harguments).mono (by simp [nodes])
      · cases hvalue

theorem evaluateAll_error : ∀ {trees : List Expression} {fault : Fault},
    evaluateAll context trees = .error fault → CallsUnknown (nodesAll trees) fault
  | [], _, h => by
    rw [evaluateAll] at h
    cases h
  | tree :: trees, _, h => by
    rw [evaluateAll_cons] at h
    rcases error_of_bind h with htree | ⟨value, -, hrest⟩
    · exact (evaluate_error htree).mono (by simp [nodesAll])
    rcases error_of_bind hrest with htrees | ⟨values, -, hvalues⟩
    · exact (evaluateAll_error htrees).mono (by simp [nodesAll])
    · cases hvalues

end

/-- Where all functions exist, evaluation does not fail. -/
theorem exists_evaluate_eq_ok {tree : Expression}
    (h : ∀ function arguments, .call function arguments ∈ tree.nodes →
      Builtin.named? function ≠ none) :
    ∃ value, evaluate context tree = .ok value := by
  cases hvalue : evaluate context tree with
  | ok value => exact ⟨value, rfl⟩
  | error fault =>
    obtain ⟨function, arguments, hmem, hunknown, -⟩ := evaluate_error hvalue
    exact absurd hunknown (h function arguments hmem)

end Evaluate

end Expression

namespace Engine

open Expression

/-! ## Answers -/

/-- An outcome is that of a value, without an error, or that of a fault, with the value
    false and an error. -/
theorem outcomeOf_closed (computed : Except Fault Value) :
    (∃ value, computed = .ok value ∧ outcomeOf computed = ⟨true, value, none⟩) ∨
      ∃ fault text, computed = .error fault ∧
        outcomeOf computed = ⟨false, some (.boolean false), some text⟩ ∧ text ≠ "" := by
  cases computed with
  | ok value => exact Or.inl ⟨value, rfl, rfl⟩
  | error fault => exact Or.inr ⟨fault, fault.message, rfl, rfl, fault.message_ne_empty⟩

theorem exists_of_invalid {compiled : Compiled} (h : (verdictOf compiled).valid = false) :
    ∃ fault, compiled = .error fault := by
  cases compiled with
  | ok tree => cases h
  | error fault => exact ⟨fault, rfl⟩

theorem exists_of_valid {compiled : Compiled} (h : (verdictOf compiled).valid = true) :
    ∃ tree, compiled = .ok tree := by
  cases compiled with
  | ok tree => exact ⟨tree, rfl⟩
  | error fault => cases h

/-- The error that the evaluation of a tree shows is that of a call in the tree. -/
theorem exists_call_of_error {tree : Expression} {context : Context} {text : String}
    (h : (outcomeOf (tree.evaluate context)).error = some text) :
    ∃ function arguments, .call function arguments ∈ tree.nodes ∧
      Builtin.named? function = none ∧ text = "Unknown function: " ++ function := by
  cases hvalue : tree.evaluate context with
  | ok value =>
    rw [hvalue] at h
    cases h
  | error fault =>
    obtain ⟨function, arguments, hmem, hunknown, rfl⟩ := evaluate_error hvalue
    rw [hvalue] at h
    exact ⟨function, arguments, hmem, hunknown, (Option.some.inj h).symm⟩

/-- Evaluation, validation and dependencies of a source agree, whatever an engine has done
    before each of them.

      * An evaluation succeeds with the value that the fallible evaluation yields and
        without an error. Or it fails with the value false and an error that is not empty.
      * If a source is not valid, its evaluation fails in every context with the text that
        the validation gives, and it has no dependencies.
      * If it is valid, it has a tree. Evaluation can only say that a function does not
        exist which is called in this tree, and succeeds if all of them do. -/
theorem operations_agree (settings : Settings) (before before' : List Operation)
    (source : String) :
    let engine := (new settings).after before
    let other := (new settings).after before'
    (∀ context,
      (∃ value, (other.tryEvaluate source context).answer = .ok value ∧
        (engine.evaluate source context).answer = ⟨true, value, none⟩) ∨
      ∃ fault text, (other.tryEvaluate source context).answer = .error fault ∧
        (engine.evaluate source context).answer = ⟨false, some (.boolean false), some text⟩ ∧
        text ≠ "") ∧
    ((engine.validate source).answer.valid = false →
      ∃ text, (engine.validate source).answer.error = some text ∧
        (∀ context, (other.evaluate source context).answer =
          ⟨false, some (.boolean false), some text⟩) ∧
        (other.dependencies source).answer = []) ∧
    ((engine.validate source).answer.valid = true →
      ∃ tree, parse settings.maxDepth source = .ok tree ∧
        (∀ context text, (other.evaluate source context).answer.error = some text →
          ∃ function arguments, .call function arguments ∈ tree.nodes ∧
            Builtin.named? function = none ∧ text = "Unknown function: " ++ function) ∧
        ((∀ function arguments, .call function arguments ∈ tree.nodes →
            Builtin.named? function ≠ none) →
          ∀ context, (other.evaluate source context).answer.success = true)) := by
  intro engine other
  refine ⟨?_, ?_, ?_⟩
  · intro context
    rw [tryEvaluate_after, evaluate_after]
    exact outcomeOf_closed _
  · intro hvalid
    rw [validate_after] at hvalid ⊢
    obtain ⟨fault, hfault⟩ := exists_of_invalid hvalid
    rw [hfault]
    refine ⟨fault.message, rfl, fun context => ?_, ?_⟩
    · rw [evaluate_after, hfault]
      rfl
    · rw [dependencies_after, hfault]
      rfl
  · intro hvalid
    rw [validate_after] at hvalid
    obtain ⟨tree, htree⟩ := exists_of_valid hvalid
    have hevaluate (context : Context) :
        (other.evaluate source context).answer = outcomeOf (tree.evaluate context) := by
      rw [evaluate_after, htree]
      rfl
    refine ⟨tree, htree, ?_, ?_⟩
    · intro context text htext
      rw [hevaluate] at htext
      exact exists_call_of_error htext
    · intro hbuiltin context
      obtain ⟨value, hvalue⟩ := @exists_evaluate_eq_ok context tree hbuiltin
      rw [hevaluate, hvalue]
      rfl

/-- A call of a function that exists succeeds everywhere, and a call without an end fails
    everywhere in one way. -/
theorem operations_agree_call :
    parse 64 "has(ctx.a)" = .ok (.call "has" [.path "ctx.a"]) ∧
      (default.validate "has(ctx.a)").answer.valid = true ∧
      (∀ context, (default.evaluate "has(ctx.a)" context).answer.success = true) ∧
      (default.validate "has(").answer.valid = false ∧
      ∃ text, (default.validate "has(").answer.error = some text ∧
        ∀ context, (default.evaluate "has(" context).answer =
          ⟨false, some (.boolean false), some text⟩ := by
  have hparse : parse 64 "has(ctx.a)" = .ok (.call "has" [.path "ctx.a"]) := by
    with_unfolding_all rfl
  have hvalid : (default.validate "has(ctx.a)").answer.valid = true := by with_unfolding_all rfl
  have hinvalid : (default.validate "has(").answer.valid = false := by with_unfolding_all rfl
  obtain ⟨tree, htree, -, hsucceeds⟩ := (operations_agree {} [] [] "has(ctx.a)").2.2 hvalid
  obtain rfl := Except.ok.inj (hparse.symm.trans htree)
  obtain ⟨text, herror, hfails, -⟩ := (operations_agree {} [] [] "has(").2.1 hinvalid
  refine ⟨hparse, hvalid, hsucceeds ?_, hinvalid, text, herror, hfails⟩
  intro function arguments hcall
  obtain ⟨rfl, -⟩ : function = "has" ∧ arguments = [.path "ctx.a"] := by
    simpa [nodes, nodesAll] using hcall
  decide

end Engine

end FormRules
