/-
  FormRules.Rule.Evaluation

  The value of an expression in a context. The only fault is a call of a function that
  does not exist; it shows when the call is reached, before its arguments are looked
  at.
-/

import FormRules.Form.Path
import FormRules.Rule.Expression
import FormRules.Rule.Fault
import FormRules.Value.Builtin

namespace FormRules

/-- Whether the first operand decides a connective. -/
def Connective.decidedBy (op : Connective) (first : Value) : Bool :=
  match op with
  | .and => !first.isTruthy
  | .or => first.isTruthy

namespace Expression

mutual

/-- The value of an expression. A connective yields the operand that decides it, and the
    second operand is not evaluated if the first one does. -/
def evaluate (context : Context) : Expression → Except Fault Value
  | .literal data => .ok (some data)
  | .path text => .ok (context.resolve text)
  | .negation operand =>
    match evaluate context operand with
    | .error fault => .error fault
    | .ok value => .ok (.ofBool !value.isTruthy)
  | .comparison op left right =>
    match evaluate context left with
    | .error fault => .error fault
    | .ok a =>
      match evaluate context right with
      | .error fault => .error fault
      | .ok b => .ok (.ofBool (op.holds a b))
  | .connective op left right =>
    match evaluate context left with
    | .error fault => .error fault
    | .ok a => if op.decidedBy a then .ok a else evaluate context right
  | .call function arguments =>
    -- looked up first, so that an unknown name hides the faults of its arguments
    match Builtin.named? function with
    | none => .error (.unknownFunction function)
    | some builtin =>
      match evaluateAll context arguments with
      | .error fault => .error fault
      | .ok values => .ok (builtin.apply values)

/-- The values of several expressions, up to the first fault. -/
def evaluateAll (context : Context) : List Expression → Except Fault (List Value)
  | [] => .ok []
  | expression :: expressions =>
    match evaluate context expression with
    | .error fault => .error fault
    | .ok value =>
      match evaluateAll context expressions with
      | .error fault => .error fault
      | .ok values => .ok (value :: values)

end

/-! ## Evaluation in steps

The first fault ends the evaluation. -/

section Steps

variable {context : Context}

/-- Two steps have a value if the first one has one with which the second one does. -/
theorem ok_of_bind {α β : Type} {first : Except Fault α} {second : α → Except Fault β} {b : β}
    (h : first.bind second = .ok b) : ∃ a, first = .ok a ∧ second a = .ok b := by
  cases first with
  | error fault => cases h
  | ok a => exact ⟨a, rfl, h⟩

/-- Two steps fail in the first one, or in the second one with the value of the first. -/
theorem error_of_bind {α β : Type} {first : Except Fault α} {second : α → Except Fault β}
    {fault : Fault} (h : first.bind second = .error fault) :
    first = .error fault ∨ ∃ a, first = .ok a ∧ second a = .error fault := by
  cases first with
  | error other =>
    cases h
    exact Or.inl rfl
  | ok a => exact Or.inr ⟨a, rfl, h⟩

theorem evaluate_negation (operand : Expression) :
    evaluate context (.negation operand) =
      (evaluate context operand).bind fun value => .ok (.ofBool !value.isTruthy) := by
  rw [evaluate]
  cases evaluate context operand <;> rfl

theorem evaluate_comparison (op : Comparison) (left right : Expression) :
    evaluate context (.comparison op left right) =
      (evaluate context left).bind fun a =>
        (evaluate context right).bind fun b => .ok (.ofBool (op.holds a b)) := by
  rw [evaluate]
  cases evaluate context left with
  | error fault => rfl
  | ok a => cases evaluate context right <;> rfl

theorem evaluate_connective (op : Connective) (left right : Expression) :
    evaluate context (.connective op left right) =
      (evaluate context left).bind fun a =>
        if op.decidedBy a then .ok a else evaluate context right := by
  rw [evaluate]
  cases evaluate context left <;> rfl

theorem evaluate_call (function : String) (arguments : List Expression) :
    evaluate context (.call function arguments) =
      match Builtin.named? function with
      | none => .error (.unknownFunction function)
      | some builtin =>
        (evaluateAll context arguments).bind fun values => .ok (builtin.apply values) := by
  rw [evaluate]
  cases Builtin.named? function with
  | none => rfl
  | some builtin => cases evaluateAll context arguments <;> rfl

theorem evaluateAll_cons (tree : Expression) (trees : List Expression) :
    evaluateAll context (tree :: trees) =
      (evaluate context tree).bind fun value =>
        (evaluateAll context trees).bind fun values => .ok (value :: values) := by
  rw [evaluateAll]
  cases evaluate context tree with
  | error fault => rfl
  | ok value => cases evaluateAll context trees <;> rfl

end Steps

end Expression

end FormRules
