/-
  FormRules.Engine.Session

  Sequences of operations on one engine.
-/

import FormRules.Engine.Basic

namespace FormRules

/-- An operation on an engine. -/
inductive Operation where
  | evaluate (source : String) (context : Context)
  | tryEvaluate (source : String) (context : Context)
  | evaluateCompiled (expression : Expression) (context : Context)
  | validate (source : String)
  | dependencies (source : String)
  | compile (source : String)
  | cached (source : String)
  | clearCache

/-- The answer to an operation. -/
inductive Reply where
  | outcome (outcome : Outcome)
  | value (value : Except Fault Value)
  | verdict (verdict : Verdict)
  | paths (paths : List String)
  | compiled (compiled : Compiled)
  | cached (entry : Option (Option Compiled))
  | cleared

namespace Engine

/-- Performs an operation. -/
def perform (engine : Engine) : Operation → Step Reply
  | .evaluate source context => (engine.evaluate source context).andThen .outcome fun _ => []
  | .tryEvaluate source context => (engine.tryEvaluate source context).andThen .value fun _ => []
  | .evaluateCompiled expression context => ⟨.value (expression.evaluate context), engine, []⟩
  | .validate source => (engine.validate source).andThen .verdict fun _ => []
  | .dependencies source => (engine.dependencies source).andThen .paths fun _ => []
  | .compile source => (engine.compile source).andThen .compiled fun _ => []
  | .cached source => ⟨.cached (engine.cached source), engine, []⟩
  | .clearCache => ⟨.cleared, engine.clearCache, []⟩

/-- Performs operations one after the other and gives all their steps. -/
def performAll (engine : Engine) : List Operation → List (Step Reply)
  | [] => []
  | operation :: operations =>
    let step := engine.perform operation
    step :: step.engine.performAll operations

end Engine

end FormRules
