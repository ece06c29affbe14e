/-
  FormRules.Engine.Basic

  An engine compiles expressions, keeps them in its cache if it has one, and evaluates,
  validates or inspects them. Every operation yields its answer, the engine afterwards
  and the events that belong into a log.
-/

import FormRules.Engine.Cache
import FormRules.Engine.Outcome
import FormRules.Engine.Settings
import FormRules.Rule.ReadPaths
import FormRules.Rule.Evaluation

namespace FormRules

/-! ## Events -/

/-- Something to be logged. -/
inductive Event where
  | cacheHit (source : String)
  | cacheReset (entries : Nat)
  | evaluationFault (source : String) (fault : Fault)
  | validationFault (source : String) (fault : Fault)
  | noDependencies (source : String) (fault : Fault)
deriving DecidableEq

/-- How much a log shows. -/
inductive LogLevel where
  | debug
  | trace
deriving DecidableEq

/-- The name of a log level. -/
def LogLevel.label : LogLevel → String
  | .debug => "debug"
  | .trace => "trace"

namespace Event

/-- The level at which an event is logged. -/
def level : Event → LogLevel
  | .cacheReset _ | .evaluationFault _ _ | .validationFault _ _ => .debug
  | .cacheHit _ | .noDependencies _ _ => .trace

/-- The wording of a fault met while doing something with a source. -/
def faultMessage (activity source : String) (fault : Fault) : String :=
  fault.stage.label ++ " error " ++ activity ++ " '" ++ source ++ "': " ++ fault.message

/-- The wording of an event. -/
def message : Event → String
  | .cacheHit source => "Expression cache hit for '" ++ source ++ "'"
  | .cacheReset entries =>
    "Expression cache reached " ++ integerText entries ++ " entries, resetting"
  | .evaluationFault source fault => faultMessage "evaluating" source fault
  | .validationFault source fault => faultMessage "validating" source fault
  | .noDependencies source fault =>
    "No dependencies for malformed expression '" ++ source ++ "': " ++ fault.message

end Event

/-! ## Engines -/

/-- An engine. It has a cache unless the capacity is zero. -/
structure Engine where
  settings : Settings
  cache : Option Cache

/-- What an operation yields. -/
structure Step (α : Type) where
  answer : α
  engine : Engine
  events : List Event

/-- The step with its answer changed and more events behind its own. -/
def Step.andThen {α β : Type} (step : Step α) (answer : α → β) (events : α → List Event) :
    Step β :=
  ⟨answer step.answer, step.engine, step.events ++ events step.answer⟩

namespace Engine

/-- An engine with an empty cache. -/
def new (settings : Settings) : Engine :=
  ⟨settings, if 0 < settings.cacheCapacity then some (.new settings.cacheCapacity) else none⟩

/-- The engine with default settings. -/
def default : Engine := new {}

/-- Compiles a source, or finds it in the cache. -/
def compile (source : String) (engine : Engine) : Step Compiled :=
  match engine.cache with
  | none => ⟨Expression.parse engine.settings.maxDepth source, engine, []⟩
  | some cache =>
    match cache.find? source with
    | some compiled => ⟨compiled, engine, [.cacheHit source]⟩
    | none =>
      let compiled := Expression.parse engine.settings.maxDepth source
      ⟨compiled, { engine with cache := some (cache.insert source compiled) },
        if cache.resetsFor source then [.cacheReset cache.size] else []⟩

/-- The value of a source in a context, or the fault. -/
def tryEvaluate (source : String) (context : Context) (engine : Engine) :
    Step (Except Fault Value) :=
  (engine.compile source).andThen (fun compiled => compiled.bind (·.evaluate context))
    fun _ => []

/-- The outcome of a value or a fault. -/
def outcomeOf : Except Fault Value → Outcome
  | .ok value => .ofValue value
  | .error fault => .ofError fault.message

/-- An event for a fault and none for anything else. -/
def onFault {α : Type} (event : Fault → Event) : Except Fault α → List Event
  | .ok _ => []
  | .error fault => [event fault]

/-- The outcome of evaluating a source in a context. -/
def evaluate (source : String) (context : Context) (engine : Engine) : Step Outcome :=
  (engine.tryEvaluate source context).andThen outcomeOf (onFault (.evaluationFault source))

/-- The verdict on what a source compiles to. -/
def verdictOf : Compiled → Verdict
  | .ok _ => .accepted
  | .error fault => .rejected fault.message

/-- The verdict on a source. Nothing is evaluated, so names of functions do not matter. -/
def validate (source : String) (engine : Engine) : Step Verdict :=
  (engine.compile source).andThen verdictOf (onFault (.validationFault source))

/-- The dependencies of what a source compiles to; a fault has none. -/
def dependenciesOf : Compiled → List String
  | .ok expression => expression.dependencies
  | .error _ => []

/-- The dependencies of a source. -/
def dependencies (source : String) (engine : Engine) : Step (List String) :=
  (engine.compile source).andThen dependenciesOf (onFault (.noDependencies source))

/-- What the cache keeps for a source; the outer `none` means that there is no cache. -/
def cached (source : String) (engine : Engine) : Option (Option Compiled) :=
  engine.cache.map (·.find? source)

/-- Empties the cache, if there is one. -/
def clearCache (engine : Engine) : Engine := { engine with cache := engine.cache.map .clear }

end Engine

end FormRules
