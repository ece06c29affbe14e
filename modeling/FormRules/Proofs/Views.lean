/-
  FormRules.Proofs.Views

  The two views of a field: its members one by one, and its record.

  The record is laid over the metadata, so that a missing member of the field leaves open
  what the metadata have under its name. Value and validity are never missing, which leaves
  the error: the views differ in it exactly if it is missing and the metadata have one
  (`member_toRecord_iff`). A path with two steps behind `fields` looks at the members, a path
  with one step at the record, so that the same holds for `fields.f.error` and the error in
  `fields.f`.

  Main statement: `resolve_member_iff`.
-/

import FormRules.Proofs.Roundtrip

namespace FormRules

namespace Field

variable (field : Field)

/-! ## Fields -/

/-- The record of a field holds a member, or else what the metadata have under its name. -/
theorem member_toRecord (name : String) :
    Value.member name (some field.toRecord) =
      (field.member name).or (field.metadata.get? name) :=
  get?_collect_ownMembers name

/-- The two views of a field agree on every name, except on the error if it is missing and the
    metadata have one. -/
theorem member_toRecord_iff (name : String) :
    Value.member name (some field.toRecord) = field.member name ↔
      (name = "error" → field.HidesNone) := by
  rw [member_toRecord]
  constructor
  · rintro hagree rfl herror
    have hmember : field.member "error" = none := congrArg (Option.map Json.string) herror
    rwa [hmember, Option.none_or] at hagree
  · intro hhides
    cases hmember : field.member name with
    | some data => exact Option.some_or
    | none =>
      rw [Option.none_or]
      rcases get?_metadata_of_member hmember with hnone | ⟨rfl, herror⟩
      · exact hnone
      · exact hhides rfl herror

end Field

namespace Context

variable {context : Context}

/-! ## Paths to fields -/

/-- What follows `fields` in a path is looked up in the fields. -/
theorem resolve_of_segments {path : String} {steps : List String}
    (h : Path.segments path = "fields" :: steps) :
    context.resolve path = context.resolveField steps := by
  rw [Path.segments_eq] at h
  obtain ⟨hroot, hsteps⟩ := List.cons.inj h
  rw [resolve, hroot, hsteps, if_neg (by decide), if_pos rfl]

theorem segments_fields : Path.segments "fields" = ["fields"] := by
  rw [Path.segments_eq]
  decide

/-- One step behind `fields` leads to the record of a field. -/
theorem resolve_field {f : String} (hf : '.' ∉ f.toList) :
    context.resolve ("fields" ++ "." ++ f) =
      (context.fields.get? f).map Field.toRecord := by
  have hsegments : Path.segments ("fields" ++ "." ++ f) = ["fields", f] := by
    rw [Path.segments_append hf, segments_fields]
    rfl
  rw [resolve_of_segments hsegments]
  cases hfound : context.fields.get? f <;> simp only [resolveField, hfound] <;> rfl

/-- Two steps lead to a member of it. -/
theorem resolve_field_member {f m : String} (hf : '.' ∉ f.toList) (hm : '.' ∉ m.toList) :
    context.resolve ("fields" ++ "." ++ f ++ "." ++ m) =
      (context.fields.get? f).bind (Field.member m) := by
  have hsegments : Path.segments ("fields" ++ "." ++ f ++ "." ++ m) = ["fields", f, m] := by
    rw [Path.segments_append hm, Path.segments_append hf, segments_fields]
    rfl
  rw [resolve_of_segments hsegments]
  cases hfound : context.fields.get? f <;> simp only [resolveField, hfound] <;> rfl

/-- For every field, a member and what its record holds under the same name are the same, unless
    the name is that of an error that is missing from the field but not from its metadata. In
    every context a path to a member of a field leads to what its record holds under the same
    condition, and without a condition on fields that do not exist. -/
theorem resolve_member_iff (name : String) :
    (∀ field : Field,
      Value.member name (some field.toRecord) =
          (field.member name).or (field.metadata.get? name) ∧
        (Value.member name (some field.toRecord) = field.member name ↔
          (name = "error" → field.HidesNone))) ∧
    ∀ (context : Context) {f : String}, '.' ∉ f.toList → '.' ∉ name.toList →
      (context.resolve ("fields" ++ "." ++ f ++ "." ++ name) =
          (context.resolve ("fields" ++ "." ++ f)).member name ↔
        (name = "error" → ∀ field, context.fields.get? f = some field → field.HidesNone)) := by
  constructor
  · exact fun field => ⟨field.member_toRecord name, field.member_toRecord_iff name⟩
  · intro context f hf hname
    rw [resolve_field_member hf hname, resolve_field hf]
    cases hfound : context.fields.get? f with
    | none => exact iff_of_true rfl nofun
    | some field =>
      have hfield := field.member_toRecord_iff name
      constructor
      · rintro hagree herror _ ⟨⟩
        exact hfield.1 hagree.symm herror
      · intro hhides
        exact (hfield.2 fun herror => hhides herror field rfl).symm

/-- Metadata called like the value change nothing, since the value is there. -/
theorem resolve_member_value :
    let field := ((Field.new .null false).withMetadata "value" (.boolean true)).withError "late"
    let context := Context.empty.withField "f" field
    Value.member "value" (some field.toRecord) = field.member "value" ∧
      context.resolve "fields.f.value" = (context.resolve "fields.f").member "value" := by
  intro field context
  obtain ⟨hfield, hpath⟩ := resolve_member_iff "value"
  have hagree := @hpath context "f" (by decide) (by decide)
  have hname : "value" ≠ "error" := by decide
  exact ⟨(hfield field).2.2 fun h => absurd h hname, hagree.2 fun h => absurd h hname⟩

/-- Metadata called like the error, on a field without one: the field has no such member, but its
    record does, and so do the paths through the record. -/
theorem resolve_hidden_error :
    let field := (Field.new .null true).withMetadata "error" (.string "x")
    let context := Context.empty.withField "f" field
    field.member "error" = none ∧
      Value.member "error" (some field.toRecord) = some (.string "x") ∧
      context.resolve "fields.f.error" = none ∧
      (context.resolve "fields.f").member "error" = some (.string "x") := by
  decide

end Context

end FormRules
