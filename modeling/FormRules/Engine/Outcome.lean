/-
  FormRules.Engine.Outcome

  What an engine reports: the outcome of evaluating an expression and the verdict on
  its well-formedness, with their JSON forms. Members that are absent are not written,
  and a member read as null is absent.
-/

import FormRules.Json.Record
import FormRules.Value.Basic

namespace FormRules

/-- The outcome of evaluating an expression. -/
structure Outcome where
  /-- Whether there was no fault; the value need not be true. -/
  success : Bool
  value : Value
  error : Option String
deriving DecidableEq

namespace Outcome

/-- The outcome with a value. -/
def ofValue (value : Value) : Outcome := ⟨true, value, none⟩

/-- The outcome of a fault, whose value is false so that what depends on it stays
    closed. -/
def ofError (message : String) : Outcome := ⟨false, .ofBool false, some message⟩

/-- The written form of an outcome. -/
def toJson (outcome : Outcome) : Json :=
  .object <| ("success", .boolean outcome.success) ::
    (Json.optionalMember "value" outcome.value ++
      Json.optionalMember "error" (outcome.error.map .string))

/-- Reads an outcome from its written form. -/
def ofJson? (data : Json) : Option Outcome := do
  let members ← data.recordMembers? ["success", "value", "error"]
  return {
    success := ← Json.booleanMember? "success" members
    value := Json.optionalMember? "value" members
    error := ← Json.stringMember? "error" members }

end Outcome

/-- The verdict on the form of an expression. -/
structure Verdict where
  valid : Bool
  error : Option String
deriving DecidableEq

namespace Verdict

/-- The verdict on a well-formed expression. -/
def accepted : Verdict := ⟨true, none⟩

/-- The verdict on a faulty expression. -/
def rejected (message : String) : Verdict := ⟨false, some message⟩

/-- The written form of a verdict. -/
def toJson (verdict : Verdict) : Json :=
  .object <| ("valid", .boolean verdict.valid) ::
    Json.optionalMember "error" (verdict.error.map .string)

/-- Reads a verdict from its written form. -/
def ofJson? (data : Json) : Option Verdict := do
  let members ← data.recordMembers? ["valid", "error"]
  return {
    valid := ← Json.booleanMember? "valid" members
    error := ← Json.stringMember? "error" members }

end Verdict

end FormRules
