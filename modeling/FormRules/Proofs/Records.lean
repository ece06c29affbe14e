/-
  FormRules.Proofs.Records

  Writing outcomes and verdicts and reading them back.

  A record is written as an object, whose members may be put in any order. `Writes` says
  for each record what stands under its names then, and this is all that reading looks
  at. It determines the record, so that no two records are written alike. What is read is
  the record itself, with one exception: an undefined value is not written, and a null
  value, which is, is read as an undefined one. Hence a record that has been read, which
  never has a null value, is read again whenever it is written.

  Main statement: `records_read_back`.
-/

import FormRules.Engine.Basic

namespace FormRules

namespace Json

/-- Two values are objects of the same members, in whatever order these stand. -/
inductive Rearranges : Json → Json → Prop
  | object {members others : List (String × Json)} (h : members.Perm others) :
      Rearranges (.object members) (.object others)

/-- The members of an object in another order are its members, under the same names. -/
theorem Rearranges.exists_members {data : Json} {others : List (String × Json)}
    (h : data.Rearranges (.object others)) (hnames : (Table.names others).Nodup) :
    ∃ members, data = .object members ∧
      ∀ name, Table.find? name members = Table.find? name others := by
  cases h with
  | object h => exact ⟨_, rfl, Table.find?_perm h hnames⟩

section Members

variable {name : String} {members : List (String × Json)}

theorem booleanMember?_of_find? {b : Bool} (h : Table.find? name members = some (.boolean b)) :
    booleanMember? name members = some b := by
  rw [booleanMember?, h]

/-- An optional member that is null is read like one that is missing. -/
theorem optionalMember?_of_find? {data : Option Json} (h : Table.find? name members = data) :
    optionalMember? name members = if data = some .null then none else data := by
  rw [optionalMember?, h]
  cases data with
  | none => rfl
  | some data => cases data <;> rfl

theorem optionalMember?_ne_null (name : String) (members : List (String × Json)) :
    optionalMember? name members ≠ some .null := by
  rw [optionalMember?_of_find? rfl]
  split
  · exact nofun
  · assumption

/-- A text is never null, so that nothing of an optional text is lost. -/
theorem stringMember?_of_find? {text : Option String}
    (h : Table.find? name members = text.map .string) :
    stringMember? name members = some text := by
  rw [stringMember?, optionalMember?_of_find? h]
  cases text <;> rfl

/-- An optional text is determined by its member. -/
theorem map_string_inj {text other : Option String}
    (h : text.map Json.string = other.map Json.string) : text = other :=
  Option.map_injective (fun _ _ => Json.string.inj) h

end Members

end Json

/-! ## Outcomes -/

namespace Outcome

/-- The members are those of a written outcome. -/
structure Writes (outcome : Outcome) (members : List (String × Json)) : Prop where
  success : Table.find? "success" members = some (.boolean outcome.success)
  value : Table.find? "value" members = outcome.value
  error : Table.find? "error" members = outcome.error.map .string
  valid : Table.find? "valid" members = none

/-- The outcome with an undefined value in place of a null one. -/
def withoutNull (outcome : Outcome) : Outcome :=
  { outcome with value := if outcome.value = some .null then none else outcome.value }

variable {outcome other : Outcome} {data : Json} {members : List (String × Json)}

/-- A written outcome has its members, in whatever order. -/
theorem exists_writes (h : data.Rearranges outcome.toJson) :
    ∃ members, data = .object members ∧ outcome.Writes members := by
  obtain ⟨success, value, error⟩ := outcome
  have hnames : (Table.names (("success", Json.boolean success) ::
      (Json.optionalMember "value" value ++
        Json.optionalMember "error" (error.map .string)))).Nodup := by
    cases value <;> cases error <;> simp [Table.names, Json.optionalMember]
  obtain ⟨members, rfl, hfind⟩ := Json.Rearranges.exists_members h hnames
  refine ⟨members, rfl, ?_, ?_, ?_, ?_⟩ <;> rw [hfind] <;>
    cases value <;> cases error <;> simp [Table.find?, Json.optionalMember]

/-- What is written of an outcome determines it. -/
theorem Writes.unique (h : outcome.Writes members) (h' : other.Writes members) :
    outcome = other := by
  have hsuccess : outcome.success = other.success := by simpa using h.success.symm.trans h'.success
  have hvalue : outcome.value = other.value := h.value.symm.trans h'.value
  have herror : outcome.error = other.error := Json.map_string_inj (h.error.symm.trans h'.error)
  cases outcome
  cases other
  simp_all

/-- A written outcome is read back, but for a null value. -/
theorem Writes.ofJson?_eq (h : outcome.Writes members) :
    ofJson? (.object members) = some outcome.withoutNull := by
  simp [ofJson?, Json.recordMembers?, Json.booleanMember?_of_find? h.success,
    Json.optionalMember?_of_find? h.value, Json.stringMember?_of_find? h.error, withoutNull]

theorem withoutNull_eq_iff : outcome.withoutNull = outcome ↔ outcome.value ≠ some .null := by
  constructor
  · intro heq hnull
    have hvalue : outcome.withoutNull.value = none := if_pos hnull
    rw [heq, hnull] at hvalue
    cases hvalue
  · intro hvalue
    rw [withoutNull, if_neg hvalue]

/-- No outcome that is read has a null value. -/
theorem value_ne_null_of_ofJson? (h : ofJson? data = some outcome) :
    outcome.value ≠ some .null := by
  simp only [ofJson?, Option.bind_eq_bind, Option.bind_eq_some_iff, Option.pure_def,
    Option.some.injEq] at h
  obtain ⟨members, -, success, -, error, -, rfl⟩ := h
  exact Json.optionalMember?_ne_null _ _

/-- What is read back from an outcome, and when this is the outcome itself. -/
theorem ofJson?_of_rearranges (h : data.Rearranges outcome.toJson) :
    ofJson? data = some outcome.withoutNull := by
  obtain ⟨members, rfl, hwrites⟩ := exists_writes h
  exact hwrites.ofJson?_eq

theorem ofJson?_eq_self_iff (h : data.Rearranges outcome.toJson) :
    ofJson? data = some outcome ↔ outcome.value ≠ some .null := by
  rw [ofJson?_of_rearranges h, Option.some_inj, withoutNull_eq_iff]

end Outcome

/-! ## Verdicts -/

namespace Verdict

/-- The members are those of a written verdict. -/
structure Writes (verdict : Verdict) (members : List (String × Json)) : Prop where
  valid : Table.find? "valid" members = some (.boolean verdict.valid)
  error : Table.find? "error" members = verdict.error.map .string

variable {verdict other : Verdict} {data : Json} {members : List (String × Json)}

/-- A written verdict has its members, in whatever order. -/
theorem exists_writes (h : data.Rearranges verdict.toJson) :
    ∃ members, data = .object members ∧ verdict.Writes members := by
  obtain ⟨valid, error⟩ := verdict
  have hnames : (Table.names (("valid", Json.boolean valid) ::
      Json.optionalMember "error" (error.map .string))).Nodup := by
    cases error <;> simp [Table.names, Json.optionalMember]
  obtain ⟨members, rfl, hfind⟩ := Json.Rearranges.exists_members h hnames
  refine ⟨members, rfl, ?_, ?_⟩ <;> rw [hfind] <;> cases error <;>
    simp [Table.find?, Json.optionalMember]

/-- What is written of a verdict determines it. -/
theorem Writes.unique (h : verdict.Writes members) (h' : other.Writes members) :
    verdict = other := by
  have hvalid : verdict.valid = other.valid := by simpa using h.valid.symm.trans h'.valid
  have herror : verdict.error = other.error := Json.map_string_inj (h.error.symm.trans h'.error)
  cases verdict
  cases other
  simp_all

/-- A written verdict is read back. -/
theorem Writes.ofJson?_eq (h : verdict.Writes members) :
    ofJson? (.object members) = some verdict := by
  simp [ofJson?, Json.recordMembers?, Json.booleanMember?_of_find? h.valid,
    Json.stringMember?_of_find? h.error]

theorem ofJson?_of_rearranges (h : data.Rearranges verdict.toJson) :
    ofJson? data = some verdict := by
  obtain ⟨members, rfl, hwrites⟩ := exists_writes h
  exact hwrites.ofJson?_eq

end Verdict

/-! ## All records -/

/-- The value of a failed evaluation is false, and so not null. -/
theorem Engine.value_of_failure {source : String} {context : Context} {engine : Engine}
    (h : (engine.evaluate source context).answer.success = false) :
    (engine.evaluate source context).answer.value = some (.boolean false) := by
  show (outcomeOf (engine.tryEvaluate source context).answer).value = _
  cases hcomputed : (engine.tryEvaluate source context).answer with
  | error fault => rfl
  | ok value =>
    have hsuccess : (outcomeOf (engine.tryEvaluate source context).answer).success = false := h
    rw [hcomputed] at hsuccess
    cases hsuccess

/-- Outcomes and verdicts survive being written and read, but for a null value, whatever
    the order in which their members stand.

      * No two outcomes, no two verdicts, and no outcome and verdict are written alike.
      * What is read from a written outcome is the outcome, with an undefined value in
        place of a null one. So it is the outcome itself exactly if its value is not
        null. What is read from a written verdict is the verdict.
      * What has been read, from an object or an array, is read again when it is written.
      * The outcome of every evaluation that fails is read back. -/
theorem records_read_back :
    ((∀ (outcome other : Outcome) (data : Json), data.Rearranges outcome.toJson →
        data.Rearranges other.toJson → outcome = other) ∧
      (∀ (verdict other : Verdict) (data : Json), data.Rearranges verdict.toJson →
        data.Rearranges other.toJson → verdict = other) ∧
      ∀ (outcome : Outcome) (verdict : Verdict) (data : Json),
        data.Rearranges outcome.toJson → ¬data.Rearranges verdict.toJson) ∧
    ((∀ (outcome : Outcome) (data : Json), data.Rearranges outcome.toJson →
        Outcome.ofJson? data = some { outcome with
          value := if outcome.value = some .null then none else outcome.value } ∧
        (Outcome.ofJson? data = some outcome ↔ outcome.value ≠ some .null)) ∧
      ∀ (verdict : Verdict) (data : Json), data.Rearranges verdict.toJson →
        Verdict.ofJson? data = some verdict) ∧
    ((∀ (data again : Json) (outcome : Outcome), Outcome.ofJson? data = some outcome →
        again.Rearranges outcome.toJson → Outcome.ofJson? again = some outcome) ∧
      ∀ (data again : Json) (verdict : Verdict), Verdict.ofJson? data = some verdict →
        again.Rearranges verdict.toJson → Verdict.ofJson? again = some verdict) ∧
    ∀ (engine : Engine) (source : String) (context : Context) (data : Json),
      (engine.evaluate source context).answer.success = false →
      data.Rearranges (engine.evaluate source context).answer.toJson →
      Outcome.ofJson? data = some (engine.evaluate source context).answer := by
  refine ⟨⟨?_, ?_, ?_⟩, ⟨?_, ?_⟩, ⟨?_, ?_⟩, ?_⟩
  · intro outcome other data h h'
    obtain ⟨members, rfl, hwrites⟩ := Outcome.exists_writes h
    obtain ⟨_, ⟨⟩, hwrites'⟩ := Outcome.exists_writes h'
    exact hwrites.unique hwrites'
  · intro verdict other data h h'
    obtain ⟨members, rfl, hwrites⟩ := Verdict.exists_writes h
    obtain ⟨_, ⟨⟩, hwrites'⟩ := Verdict.exists_writes h'
    exact hwrites.unique hwrites'
  · intro outcome verdict data h h'
    obtain ⟨members, rfl, hwrites⟩ := Outcome.exists_writes h
    obtain ⟨_, ⟨⟩, hwrites'⟩ := Verdict.exists_writes h'
    exact Option.some_ne_none _ (hwrites'.valid.symm.trans hwrites.valid)
  · intro outcome data h
    exact ⟨Outcome.ofJson?_of_rearranges h, Outcome.ofJson?_eq_self_iff h⟩
  · intro verdict data h
    exact Verdict.ofJson?_of_rearranges h
  · intro data again outcome hread hagain
    exact (Outcome.ofJson?_eq_self_iff hagain).2 (Outcome.value_ne_null_of_ofJson? hread)
  · intro data again verdict _ hagain
    exact Verdict.ofJson?_of_rearranges hagain
  · intro engine source context data hfails h
    refine (Outcome.ofJson?_eq_self_iff h).2 ?_
    rw [Engine.value_of_failure hfails]
    exact nofun

/-- A null value is read back as an undefined one, also with its member in front, and null
    as an item of the value is kept. -/
theorem records_read_back_null :
    (Json.object [("value", .null), ("success", .boolean true)]).Rearranges
        (Outcome.ofValue (some .null)).toJson ∧
      Outcome.ofJson? (.object [("value", .null), ("success", .boolean true)]) =
        some (Outcome.ofValue none) ∧
      Outcome.ofJson? (Outcome.ofValue (some .null)).toJson ≠ some (Outcome.ofValue (some .null)) ∧
      Outcome.ofJson? (Outcome.ofValue (some (.array [.null]))).toJson =
        some (Outcome.ofValue (some (.array [.null]))) := by
  have hswapped : (Json.object [("value", .null), ("success", .boolean true)]).Rearranges
      (Outcome.ofValue (some .null)).toJson := .object (.swap _ _ _)
  have hwritten : (Outcome.ofValue (some .null)).toJson.Rearranges
      (Outcome.ofValue (some .null)).toJson := .object (.refl _)
  have hreads := records_read_back.2.1.1
  exact ⟨hswapped, (hreads _ _ hswapped).1, fun h => (hreads _ _ hwritten).2.1 h rfl,
    (hreads (.ofValue (some (.array [.null]))) _ (.object (.refl _))).2.2 nofun⟩

end FormRules
