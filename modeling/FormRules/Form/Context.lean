/-
  FormRules.Form.Context

  The data that expressions are evaluated against: a free tree of data under the name
  `ctx`, and the states of the form's fields under the name `fields`.

  A context is read from JSON data or straight from a JSON text. The text reader is
  stricter about repeated members, which data cannot show, and does not look at
  members that the context ignores.
-/

import FormRules.Form.Field
import FormRules.Json.Document

namespace FormRules

/-- The data an expression is evaluated against. -/
structure Context where
  ctx : Json
  fields : Table Field
deriving DecidableEq

namespace Context

/-! ## Making contexts -/

/-- The context without data and fields. -/
def empty : Context := ⟨.emptyObject, .empty⟩

/-- A context of data without fields. -/
def new (ctx : Json) : Context := ⟨ctx, .empty⟩

/-- The context with one more field; one of the same name is replaced. -/
def withField (context : Context) (name : String) (field : Field) : Context :=
  { context with fields := context.fields.set name field }

/-! ## JSON forms -/

/-- The records of all fields, as expressions read them. -/
def fieldsRecord (context : Context) : Json := .ofTable (context.fields.map Field.toRecord)

/-- The written form of a context. -/
def toJson (context : Context) : Json :=
  .ofMembers [
    ("ctx", context.ctx),
    ("fields", .ofTable (context.fields.map Field.toJson))]

/-! ## Reading data -/

/-- Reads the fields of a written context; none at all if the member is missing. -/
def readFields? : Option Json → Option (Table Field)
  | none => some .empty
  | some (.object entries) => do
    let fields ← entries.mapM fun (name, data) => (Field.ofJson? data).map (name, ·)
    return .collect fields
  | some _ => none

/-- The context of its two written parts, either of which may be missing. -/
def ofParts? (ctx fields : Option Json) : Option Context :=
  (readFields? fields).map fun fields => ⟨ctx.getD .emptyObject, fields⟩

/-- Reads a context from JSON data: an object, or an array of the two parts in their
    order. -/
def ofJson? (data : Json) : Option Context := do
  let members ← data.recordMembers? ["ctx", "fields"]
  ofParts? (Table.find? "ctx" members) (Table.find? "fields" members)

/-! ## Reading texts -/

/-- The member of a name, if it is there; nothing at all if it is repeated. -/
def single? (name : String) (members : List (Option String × Document)) :
    Option (Option Document) :=
  match members.filter fun member => member.1 = some name with
  | [] => some none
  | [member] => some (some member.2)
  | _ => none

/-- Reads a field straight from its document. -/
def readField? (levels : Nat) : Document → Option Field
  | .object members => (Document.membersToJson? levels members).bind Field.ofMembers?
  | _ => none

/-- Reads the fields straight from their document. Of fields with one name the last
    stays, but all of them must be fields. -/
def readFieldsDocument? (levels : Nat) : Option Document → Option (Table Field)
  | none => some .empty
  | some (.object entries) => do
    let fields ← entries.mapM fun (name, document) => do
      return ((← name), (← readField? levels document))
    return .collect fields
  | some _ => none

/-- The context of the documents of its two parts, either of which may be missing. The
    limit on nesting counts from the document of the whole context. -/
def ofDocumentParts? (ctx fields : Option Document) : Option Context := do
  let data ← match ctx with
    | none => some .emptyObject
    | some document => document.toJson? (Document.nestingLimit - 1)
  let fields ← readFieldsDocument? (Document.nestingLimit - 3) fields
  return ⟨data, fields⟩

/-- Reads a context straight from its document. Other members than the two parts are
    not looked at, but for their names. -/
def ofDocument? : Document → Option Context
  | .object members => do
    if members.any fun member => member.1.isNone then failure
    ofDocumentParts? (← single? "ctx" members) (← single? "fields" members)
  | .array [] => ofDocumentParts? none none
  | .array [ctx] => ofDocumentParts? (some ctx) none
  | .array [ctx, fields] => ofDocumentParts? (some ctx) (some fields)
  | _ => none

/-- Reads a context from a JSON text. -/
def read? (text : String) : Option Context := (Document.read? text).bind ofDocument?

end Context

end FormRules
