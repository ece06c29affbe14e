/-
  FormRules.Form.Path

  Where a dotted path leads in a context.
-/

import FormRules.Form.Context
import FormRules.Value.Basic

namespace FormRules

namespace Path

/-- The part of a text before its first point, and the parts between the others. -/
def split : List Char → List Char × List (List Char)
  | [] => ([], [])
  | c :: rest =>
    let (first, others) := split rest
    if c = '.' then ([], first :: others) else (c :: first, others)

/-- The first segment of a path. -/
def root (path : String) : String := String.ofList (split path.toList).1

/-- The other segments of a path. Segments may be empty. -/
def steps (path : String) : List String := (split path.toList).2.map String.ofList

end Path

/-- The value that several path segments lead to, one after the other. -/
def Value.follow (steps : List String) (value : Value) : Value :=
  steps.foldl (fun value step => value.member step) value

namespace Context

/-- What the segments behind `fields` lead to: the records of all fields, the record of
    one field, or one of its members and what lies below. -/
def resolveField (context : Context) : List String → Value
  | [] => some context.fieldsRecord
  | name :: steps =>
    match context.fields.get? name, steps with
    -- an unknown field has no members
    | none, _ => none
    | some field, [] => some field.toRecord
    | some field, member :: steps => Value.follow steps (field.member member)

/-- What a path leads to. A path that does not begin with `ctx` or `fields`, or leaves
    the data, is undefined. -/
def resolve (context : Context) (path : String) : Value :=
  if Path.root path = "ctx" then Value.follow (Path.steps path) (some context.ctx)
  else if Path.root path = "fields" then context.resolveField (Path.steps path)
  else none

end Context

end FormRules
