/-
  FormRules.Proofs.Navigation

  A path is plain navigation of data.

  `resolve` tells the two roots apart on its own, and looks up fields and their members
  without making their records. In a context whose fields hide none of their own members
  behind metadata it leads to the same as the segments do in the records of all fields
  (`resolveField_eq_follow`). So the roots are nothing but the members of one object, and
  each segment of a path is looked up in what the segments before it lead to.

  Main statement: `resolve_eq_navigation`.
-/

import FormRules.Form.Path
import FormRules.Proofs.Reading

namespace FormRules

namespace Field

variable {field : Field}

/-- Where an error is missing, no metadata stand under its name. -/
def HidesNone (field : Field) : Prop :=
  field.error = none → field.metadata.get? "error" = none

theorem Apart.hidesNone (h : field.Apart) : field.HidesNone := fun _ => h "error" (by decide)

/-- The own members of a field stand under the own names. -/
theorem mem_ownNames_of_mem {member : String × Json} (h : member ∈ field.ownMembers) :
    member.1 ∈ ownNames := by
  rw [ownMembers, List.mem_cons, List.mem_cons] at h
  rcases h with rfl | rfl | herror
  · show "value" ∈ ownNames
    decide
  · show "valid" ∈ ownNames
    decide
  · obtain ⟨data, -, rfl⟩ := List.mem_map.1 herror
    show "error" ∈ ownNames
    decide

/-- Under an own name the own members hold what the field has. -/
theorem find?_ownMembers {name : String} (h : name ∈ ownNames) :
    Table.find? name field.ownMembers.reverse = field.member name := by
  simp only [ownNames, List.mem_cons, List.not_mem_nil, or_false] at h
  rcases h with rfl | rfl | rfl <;> cases herror : field.error <;>
    simp [ownMembers, Json.optionalMember, herror, Table.find?, member]

/-- Under every other name they hold nothing. -/
theorem find?_ownMembers_of_not_mem {name : String} (h : name ∉ ownNames) :
    Table.find? name field.ownMembers.reverse = none := by
  rw [Table.find?_eq_none_iff, Table.names, List.map_reverse, List.mem_reverse]
  intro hmem
  obtain ⟨member, hmember, rfl⟩ := List.mem_map.1 hmem
  exact h (mem_ownNames_of_mem hmember)

/-- A member that is not under an own name is one of the metadata. -/
theorem member_of_not_mem {name : String} (h : name ∉ ownNames) :
    field.member name = field.metadata.get? name := by
  simp only [ownNames, List.mem_cons, List.not_mem_nil, or_false, not_or] at h
  rw [member, if_neg h.1, if_neg h.2.1, if_neg h.2.2]

/-- Under each name the record of a field holds the member of the field, and where there is
    none, what the metadata have. -/
theorem get?_collect_ownMembers (name : String) :
    (Table.collect (field.metadata.list ++ field.ownMembers)).get? name =
      (field.member name).or (field.metadata.get? name) := by
  rw [Table.get?_collect, List.reverse_append, Table.find?_append, Table.find?_reverse]
  -- the own members come first
  by_cases hown : name ∈ ownNames
  · rw [find?_ownMembers hown]
  · rw [find?_ownMembers_of_not_mem hown, member_of_not_mem hown, Option.none_or, Option.or_self]

/-- A name that is no member of a field is not among its metadata either, or it is that of a
    missing error. -/
theorem get?_metadata_of_member {name : String} (h : field.member name = none) :
    field.metadata.get? name = none ∨ name = "error" ∧ field.error = none := by
  unfold member at h
  split at h
  · cases h
  · split at h
    · cases h
    · split at h
      · exact Or.inr ⟨‹_›, Option.map_eq_none_iff.1 h⟩
      · exact Or.inl h

/-- A member of a field is what its record holds under the name. -/
theorem get?_collect_of_hidesNone (herror : field.HidesNone) (name : String) :
    (Table.collect (field.metadata.list ++ field.ownMembers)).get? name = field.member name := by
  rw [get?_collect_ownMembers]
  cases hmember : field.member name with
  | some data => rfl
  | none =>
    rcases get?_metadata_of_member hmember with hnone | ⟨rfl, hnoError⟩
    · exact hnone
    · exact herror hnoError

end Field

theorem Value.follow_cons (step : String) (steps : List String) (value : Value) :
    Value.follow (step :: steps) value = Value.follow steps (value.member step) := rfl

/-- From nothing, segments lead nowhere. -/
theorem Value.follow_none (steps : List String) : Value.follow steps none = none := by
  induction steps with
  | nil => rfl
  | cons step steps ih => exact ih

theorem Value.follow_append (front back : List String) (value : Value) :
    Value.follow (front ++ back) value = Value.follow back (Value.follow front value) :=
  List.foldl_append

namespace Context

variable {context : Context}

/-- The segments behind `fields` lead to what they lead to in the records of all fields. -/
theorem resolveField_eq_follow (hapart : context.Apart) (steps : List String) :
    context.resolveField steps = Value.follow steps (some context.fieldsRecord) := by
  cases steps with
  | nil => rfl
  | cons name steps =>
    have hrecord : Value.member name (some context.fieldsRecord) =
        (context.fields.get? name).map Field.toRecord := Table.get?_map _ _ _
    rw [Value.follow_cons, hrecord]
    cases hfound : context.fields.get? name with
    | none =>
      have hnone : context.resolveField (name :: steps) = none := by
        simp only [resolveField, hfound]
      rw [hnone, Option.map_none, Value.follow_none]
    | some field =>
      have hfield := Table.mem_of_get? hfound
      cases steps with
      | nil =>
        simp only [resolveField, hfound]
        rfl
      | cons member steps =>
        have hmember : Value.member member (some field.toRecord) = field.member member :=
          Field.get?_collect_of_hidesNone (hapart _ hfield).hidesNone member
        rw [Option.map_some, Value.follow_cons, hmember]
        simp only [resolveField, hfound]

end Context

/-! ## Segments -/

namespace Path

/-- The parts of a path between its points. -/
def segments (path : String) : List String := (path.toList.splitOn '.').map String.ofList

theorem splitOn_eq_split (text : List Char) :
    text.splitOn '.' = (split text).1 :: (split text).2 := by
  induction text with
  | nil => rfl
  | cons c rest ih =>
    rw [List.splitOn_cons_eq_if_modifyHead, ih]
    by_cases hpoint : c = '.'
    · simp [split, hpoint]
    · simp [split, hpoint]

theorem segments_eq (path : String) : segments path = root path :: steps path := by
  rw [segments, splitOn_eq_split]
  rfl

/-- A segment behind a path is its last one. -/
theorem segments_append {segment : String} (h : '.' ∉ segment.toList) (path : String) :
    segments (path ++ "." ++ segment) = segments path ++ [segment] := by
  have htext : (path ++ "." ++ segment).toList = path.toList ++ '.' :: segment.toList := by
    simp
  rw [segments, htext, List.splitOn_append_cons_self, List.splitOn_eq_singleton h,
    List.map_append, List.map_singleton, String.ofList_toList]
  rfl

end Path

namespace Context

variable {context : Context}

/-- The data of a context and the records of its fields as one object. -/
def whole (context : Context) : Json :=
  .object [("ctx", context.ctx), ("fields", context.fieldsRecord)]

theorem member_whole (name : String) :
    Value.member name (some context.whole) =
      if name = "ctx" then some context.ctx
      else if name = "fields" then some context.fieldsRecord else none := by
  by_cases hctx : name = "ctx"
  · rw [if_pos hctx, hctx]
    rfl
  · rw [if_neg hctx]
    by_cases hfields : name = "fields"
    · rw [if_pos hfields, hfields]
      rfl
    · rw [if_neg hfields]
      simp [Value.member, whole, Json.member, Table.find?, Ne.symm hctx, Ne.symm hfields]

/-- In a context that is read, a path leads where its segments do in one object of the data
    and the records of all fields, looked up one after the other from the left. So a segment
    behind a path is a member of what the path leads to, whatever the path is, and nothing
    shows that fields and their members are looked up in another way. -/
theorem resolve_eq_navigation (h : context.IsRead) :
    (∀ path, context.resolve path = Value.follow (Path.segments path) (some context.whole)) ∧
    ∀ path segment, '.' ∉ segment.toList →
      context.resolve (path ++ "." ++ segment) = (context.resolve path).member segment := by
  have hfollow (path : String) :
      context.resolve path = Value.follow (Path.segments path) (some context.whole) := by
    rw [Path.segments_eq, Value.follow_cons, member_whole, resolve]
    split
    · rfl
    · split
      · exact resolveField_eq_follow h.apart _
      · exact (Value.follow_none _).symm
  refine ⟨hfollow, ?_⟩
  intro path segment hsegment
  rw [hfollow, hfollow, Path.segments_append hsegment, Value.follow_append, Value.follow_cons]
  rfl

/-- A field without a name: paths lead to its error, which is left out, to an item of its
    value and to the length of its metadata. -/
theorem resolve_nameless_field :
    let field := (Field.new (.array [.boolean true]) false).withMetadata "note" (.string "long")
    let context := Context.empty.withField "" field
    context.IsRead ∧
      context.resolve "fields..error" =
        Value.follow ["fields", "", "error"] (some context.whole) ∧
      context.resolve "fields..note.length" =
        (context.resolve "fields..note").member "length" ∧
      context.resolve "fields..value.0" = some (.boolean true) := by
  intro field context
  have hread : Context.read?
      "\x7b\"fields\": \x7b\"\": \x7b\"value\": [true], \"note\": \"long\"\x7d\x7d\x7d" =
        some context := by
    decide +kernel
  have hisRead : context.IsRead := .text hread
  have hsegments : Path.segments "fields..error" = ["fields", "", "error"] := by
    rw [Path.segments_eq]
    decide
  obtain ⟨hfollow, hmember⟩ := resolve_eq_navigation hisRead
  refine ⟨hisRead, ?_, hmember "fields..note" "length" (by decide), by decide⟩
  rw [hfollow, hsegments]

/-- Metadata that take the place of a missing error would show. No field that is read has
    any. -/
example :
    let field := (Field.new .null true).withMetadata "error" .null
    let context := Context.empty.withField "f" field
    context.resolve "fields.f.error" ≠ (context.resolve "fields.f").member "error" := by
  decide

end Context

end FormRules
