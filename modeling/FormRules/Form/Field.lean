/-
  FormRules.Form.Field

  The state of a form field: its value, whether it is valid, an error message, and
  whatever else its form keeps about it.

  A field has two JSON forms. In its record, which expressions read, the field's own
  members win over metadata of the same name. In its written form the metadata come
  last and win.
-/

import FormRules.Json.Record

namespace FormRules

/-- The state of a form field. -/
structure Field where
  value : Json
  valid : Bool
  error : Option String
  metadata : Table Json
deriving DecidableEq

namespace Field

/-! ## Making fields -/

/-- A field with nothing but a value and its validity. -/
def new (value : Json) (valid : Bool) : Field := ⟨value, valid, none, .empty⟩

/-- The field with an error message. -/
def withError (field : Field) (message : String) : Field := { field with error := some message }

/-- The field with one more metadata member; one of the same name is replaced. -/
def withMetadata (field : Field) (name : String) (data : Json) : Field :=
  { field with metadata := field.metadata.set name data }

/-! ## Reading expressions -/

/-- A member of the field, by name. -/
def member (name : String) (field : Field) : Option Json :=
  if name = "value" then some field.value
  else if name = "valid" then some (.boolean field.valid)
  else if name = "error" then field.error.map .string
  else field.metadata.get? name

/-- The field's own members. The error is left out if there is none. -/
def ownMembers (field : Field) : List (String × Json) :=
  ("value", field.value) :: ("valid", .boolean field.valid) ::
    Json.optionalMember "error" (field.error.map .string)

/-- The record that expressions read. -/
def toRecord (field : Field) : Json := .ofMembers (field.metadata.list ++ field.ownMembers)

/-! ## Written form -/

/-- The written form of a field. -/
def toJson (field : Field) : Json := .ofMembers (field.ownMembers ++ field.metadata.list)

/-- A boolean, false if it is missing. -/
def readValid? : Option Json → Option Bool
  | none => some false
  | some (.boolean b) => some b
  | some _ => none

/-- The names of the field's own members. -/
def ownNames : List String := ["value", "valid", "error"]

/-- Reads the members of a written field. None of the field's own members may be
    repeated; all other members are metadata. -/
def ofMembers? (members : List (String × Json)) : Option Field := do
  if ownNames.any fun name => 1 < (members.map (·.1)).count name then failure
  let valid ← readValid? (Table.find? "valid" members)
  let error ← Json.stringMember? "error" members
  return {
    value := (Table.find? "value" members).getD .null
    valid := valid
    error := error
    metadata := .collect (members.filter fun member => !ownNames.contains member.1) }

/-- Reads a field from its written form, which is an object. -/
def ofJson? : Json → Option Field
  | .object members => ofMembers? members
  | _ => none

end Field

end FormRules
