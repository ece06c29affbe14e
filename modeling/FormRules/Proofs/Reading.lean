/-
  FormRules.Proofs.Reading

  What is read from JSON is in order.

  Data read from a text has its members in order at every depth (`toJson?_ordered`), since
  every object is made by `Json.ofMembers`. So has a field, and no metadata of a field that
  is read stands under the name of one of the field's own members (`Field.Apart`). A
  context that is read inherits both.
-/

import FormRules.Form.Context
import FormRules.Proofs.Content

namespace FormRules

/-- What a partial function gives for all members of a list, it gives for each of them. -/
theorem map_eq_of_mapM {α β : Type} {f : α → Option β} {list : List α} {results : List β}
    (h : list.mapM f = some results) : list.map f = results.map some := by
  induction list generalizing results with
  | nil =>
    cases h
    rfl
  | cons a list ih =>
    rw [List.mapM_cons] at h
    obtain ⟨b, hb, h⟩ := Option.bind_eq_some_iff.1 h
    obtain ⟨rest, hrest, h⟩ := Option.bind_eq_some_iff.1 h
    cases h
    rw [List.map_cons, List.map_cons, hb, ih hrest]

theorem mapM_eq_of_map {α β : Type} {f : α → Option β} {list : List α} {results : List β}
    (h : list.map f = results.map some) : list.mapM f = some results := by
  induction list generalizing results with
  | nil =>
    obtain rfl : results = [] := List.map_eq_nil_iff.1 h.symm
    rfl
  | cons a list ih =>
    obtain ⟨b, rest, rfl, hb, hrest⟩ := List.map_eq_cons_iff.1 h.symm
    rw [List.mapM_cons, ← hb, ih hrest.symm]
    rfl

theorem exists_of_mem_mapM {α β : Type} {f : α → Option β} {list : List α} {results : List β}
    (h : list.mapM f = some results) {b : β} (hb : b ∈ results) : ∃ a ∈ list, f a = some b := by
  have hmem : some b ∈ list.map f := by
    rw [map_eq_of_mapM h]
    exact List.mem_map_of_mem hb
  exact List.mem_map.1 hmem

/-! ## Data -/

/-- The object of a table is in order, if what the table holds is. -/
theorem Json.ordered_ofTable {table : Table Json} (h : ∀ member ∈ table, member.2.Ordered) :
    (Json.ofTable table).Ordered := .object table.ascending h

theorem Json.ordered_ofMembers {members : List (String × Json)}
    (h : ∀ member ∈ members, member.2.Ordered) : (Json.ofMembers members).Ordered :=
  ordered_ofTable fun member hmember => h member (Table.mem_of_mem_collect hmember)

namespace Document

mutual

/-- The data of a document is in order. -/
theorem toJson?_ordered : ∀ {levels : Nat} {document : Document} {data : Json},
    document.toJson? levels = some data → data.Ordered
  | _, .null, _, h => by
    cases h
    exact .null
  | _, .boolean b, _, h => by
    cases h
    exact .boolean b
  | _, .number _, _, h => by
    obtain ⟨n, -, rfl⟩ := Option.map_eq_some_iff.1 h
    exact .number n
  | _, .string _, _, h => by
    obtain ⟨s, -, rfl⟩ := Option.map_eq_some_iff.1 h
    exact .string s
  | levels, .array items, _, h => by
    rw [toJson?] at h
    split at h
    · cases h
    · obtain ⟨list, hlist, rfl⟩ := Option.map_eq_some_iff.1 h
      exact .array (itemsToJson?_ordered hlist)
  | levels, .object members, _, h => by
    rw [toJson?] at h
    split at h
    · cases h
    · obtain ⟨table, htable, rfl⟩ := Option.map_eq_some_iff.1 h
      exact Json.ordered_ofMembers (membersToJson?_ordered htable)

theorem itemsToJson?_ordered : ∀ {levels : Nat} {items : List Document} {list : List Json},
    itemsToJson? levels items = some list → ∀ item ∈ list, item.Ordered
  | _, [], _, h => by
    cases h
    exact List.forall_mem_nil _
  | levels, item :: items, _, h => by
    rw [itemsToJson?] at h
    obtain ⟨first, hfirst, h⟩ := Option.bind_eq_some_iff.1 h
    obtain ⟨rest, hrest, h⟩ := Option.bind_eq_some_iff.1 h
    cases h
    exact List.forall_mem_cons.2 ⟨toJson?_ordered hfirst, itemsToJson?_ordered hrest⟩

theorem membersToJson?_ordered : ∀ {levels : Nat} {members : List (Option String × Document)}
    {table : List (String × Json)},
    membersToJson? levels members = some table → ∀ member ∈ table, member.2.Ordered
  | _, [], _, h => by
    cases h
    exact List.forall_mem_nil _
  | levels, (name, value) :: members, _, h => by
    rw [membersToJson?] at h
    obtain ⟨first, -, h⟩ := Option.bind_eq_some_iff.1 h
    obtain ⟨data, hdata, h⟩ := Option.bind_eq_some_iff.1 h
    obtain ⟨rest, hrest, h⟩ := Option.bind_eq_some_iff.1 h
    cases h
    exact List.forall_mem_cons.2 ⟨toJson?_ordered hdata, membersToJson?_ordered hrest⟩

end

end Document

/-! ## Fields -/

namespace Field

/-- The value and the metadata of a field are in order. -/
structure Ordered (field : Field) : Prop where
  value : field.value.Ordered
  metadata : ∀ member ∈ field.metadata, member.2.Ordered

/-- No metadata stand under the name of one of the field's own members. -/
def Apart (field : Field) : Prop := ∀ name ∈ ownNames, field.metadata.get? name = none

section OfMembers

variable {members : List (String × Json)} {field : Field}

/-- What is read from the members of a written field. -/
theorem of_ofMembers? (h : ofMembers? members = some field) :
    field.value = (Table.find? "value" members).getD .null ∧
      field.metadata = .collect (members.filter fun member => !ownNames.contains member.1) := by
  unfold ofMembers? at h
  split at h
  · cases h
  · obtain ⟨valid, -, h⟩ := Option.bind_eq_some_iff.1 h
    obtain ⟨error, -, h⟩ := Option.bind_eq_some_iff.1 h
    cases h
    exact ⟨rfl, rfl⟩

/-- A field that is read from data in order is in order. -/
theorem ordered_of_ofMembers? (h : ofMembers? members = some field)
    (hmembers : ∀ member ∈ members, member.2.Ordered) : field.Ordered := by
  obtain ⟨hvalue, hmetadata⟩ := of_ofMembers? h
  refine ⟨?_, ?_⟩
  · rw [hvalue]
    cases hfound : Table.find? "value" members with
    | none => exact .null
    | some data => exact hmembers _ (Table.mem_of_find? hfound)
  · intro member hmember
    rw [hmetadata] at hmember
    exact hmembers member (List.mem_of_mem_filter (Table.mem_of_mem_collect hmember))

/-- What is read under the field's own names is no metadata. -/
theorem apart_of_ofMembers? (h : ofMembers? members = some field) : field.Apart := by
  obtain ⟨-, hmetadata⟩ := of_ofMembers? h
  intro name hown
  rw [Table.get?_eq_none_iff]
  intro hname
  obtain ⟨member, hmember, rfl⟩ := List.mem_map.1 hname
  rw [hmetadata] at hmember
  have hother := (List.mem_filter.1 (Table.mem_of_mem_collect hmember)).2
  rw [Bool.not_eq_true', List.contains_eq_mem, decide_eq_false_iff_not] at hother
  exact hother hown

end OfMembers

/-- The record of a field in order is in order. -/
theorem Ordered.toRecord {field : Field} (h : field.Ordered) : field.toRecord.Ordered := by
  apply Json.ordered_ofMembers
  intro member hmember
  rcases List.mem_append.1 hmember with hmetadata | hown
  · exact h.metadata member hmetadata
  · rw [ownMembers, List.mem_cons, List.mem_cons] at hown
    rcases hown with rfl | rfl | herror
    · exact h.value
    · exact .boolean _
    · obtain ⟨data, hdata, rfl⟩ := List.mem_map.1 herror
      obtain ⟨message, -, rfl⟩ := Option.map_eq_some_iff.1 (Option.mem_toList.1 hdata)
      exact .string message

end Field

/-! ## Contexts -/

namespace Context

/-- All data of a context is in order. -/
structure Ordered (context : Context) : Prop where
  ctx : context.ctx.Ordered
  fields : ∀ entry ∈ context.fields, entry.2.Ordered

/-- No field of the context has metadata under the name of one of its own members. -/
def Apart (context : Context) : Prop := ∀ entry ∈ context.fields, entry.2.Apart

/-- A context that is read from JSON, either from a text or from data. -/
inductive IsRead (context : Context) : Prop
  | text {text : String} (h : read? text = some context)
  | data {data : Json} (hdata : data.Ordered) (h : ofJson? data = some context)

/-- The records of all fields are in order. -/
theorem Ordered.fieldsRecord {context : Context} (h : context.Ordered) :
    context.fieldsRecord.Ordered := by
  refine Json.ordered_ofTable fun member hmember => ?_
  obtain ⟨entry, hentry, rfl⟩ := Table.mem_map.1 hmember
  exact (h.fields entry hentry).toRecord

section Fields

variable {context : Context}

/-- The fields of a context that is read were read each from members in order. -/
structure FromMembers (context : Context) : Prop where
  ctx : context.ctx.Ordered
  fields : ∀ entry ∈ context.fields, ∃ members : List (String × Json),
    (∀ member ∈ members, member.2.Ordered) ∧ Field.ofMembers? members = some entry.2

theorem FromMembers.ordered (h : context.FromMembers) : context.Ordered where
  ctx := h.ctx
  fields := by
    intro entry hentry
    obtain ⟨members, hmembers, hfield⟩ := h.fields entry hentry
    exact Field.ordered_of_ofMembers? hfield hmembers

theorem FromMembers.apart (h : context.FromMembers) : context.Apart := by
  intro entry hentry
  obtain ⟨members, -, hfield⟩ := h.fields entry hentry
  exact Field.apart_of_ofMembers? hfield

/-- The data of a context that is read from documents, and where its fields are from. -/
theorem of_ofDocumentParts? {ctx fields : Option Document}
    (h : ofDocumentParts? ctx fields = some context) :
    context.ctx.Ordered ∧
      readFieldsDocument? (Document.nestingLimit - 3) fields = some context.fields := by
  unfold ofDocumentParts? at h
  cases ctx with
  | none =>
    obtain ⟨data, hdata, h⟩ := Option.bind_eq_some_iff.1 h
    obtain ⟨table, htable, h⟩ := Option.bind_eq_some_iff.1 h
    cases hdata
    cases h
    exact ⟨.object List.Pairwise.nil (List.forall_mem_nil _), htable⟩
  | some document =>
    obtain ⟨data, hdata, h⟩ := Option.bind_eq_some_iff.1 h
    obtain ⟨table, htable, h⟩ := Option.bind_eq_some_iff.1 h
    cases h
    exact ⟨Document.toJson?_ordered hdata, htable⟩

theorem fromMembers_of_ofDocumentParts? {ctx fields : Option Document}
    (h : ofDocumentParts? ctx fields = some context) : context.FromMembers := by
  obtain ⟨hctx, htable⟩ := of_ofDocumentParts? h
  unfold readFieldsDocument? at htable
  split at htable
  · have hnone : context.fields = .empty := (Option.some.inj htable).symm
    refine ⟨hctx, ?_⟩
    rw [hnone]
    exact List.forall_mem_nil _
  · obtain ⟨entries, hentries, htable⟩ := Option.bind_eq_some_iff.1 htable
    have hfields : context.fields = .collect entries := (Option.some.inj htable).symm
    refine ⟨hctx, ?_⟩
    rw [hfields]
    intro entry hentry
    -- a field of the table is one of those read, and that one from some members
    obtain ⟨member, -, hmember⟩ :=
      exists_of_mem_mapM hentries (Table.mem_of_mem_collect hentry)
    obtain ⟨name, -, hmember⟩ := Option.bind_eq_some_iff.1 hmember
    obtain ⟨field, hfield, hmember⟩ := Option.bind_eq_some_iff.1 hmember
    cases hmember
    unfold readField? at hfield
    split at hfield
    · obtain ⟨members, hmembers, hfield⟩ := Option.bind_eq_some_iff.1 hfield
      exact ⟨members, Document.membersToJson?_ordered hmembers, hfield⟩
    · cases hfield
  · cases htable

/-- A context read from a text. -/
theorem fromMembers_of_read? {text : String} (h : read? text = some context) :
    context.FromMembers := by
  obtain ⟨document, -, h⟩ := Option.bind_eq_some_iff.1 h
  unfold ofDocument? at h
  split at h
  · split at h
    · cases h
    · obtain ⟨-, -, h⟩ := Option.bind_eq_some_iff.1 h
      obtain ⟨ctx, -, h⟩ := Option.bind_eq_some_iff.1 h
      obtain ⟨fields, -, h⟩ := Option.bind_eq_some_iff.1 h
      exact fromMembers_of_ofDocumentParts? h
  · exact fromMembers_of_ofDocumentParts? h
  · exact fromMembers_of_ofDocumentParts? h
  · exact fromMembers_of_ofDocumentParts? h
  · cases h

/-- A context read from data. -/
theorem fromMembers_of_ofJson? {data : Json} (hdata : data.Ordered)
    (h : ofJson? data = some context) : context.FromMembers := by
  obtain ⟨members, hrecord, h⟩ := Option.bind_eq_some_iff.1 h
  have hmembers : ∀ member ∈ members, member.2.Ordered := by
    unfold Json.recordMembers? at hrecord
    split at hrecord
    · cases hrecord
      exact hdata.members
    · split at hrecord
      · cases hrecord
        exact fun member hmember => hdata.items _ (List.of_mem_zip hmember).2
      · cases hrecord
    · cases hrecord
  obtain ⟨table, htable, rfl⟩ := Option.map_eq_some_iff.1 h
  have hctx : ((Table.find? "ctx" members).getD .emptyObject).Ordered := by
    cases hfound : Table.find? "ctx" members with
    | none => exact .object List.Pairwise.nil (List.forall_mem_nil _)
    | some data => exact hmembers _ (Table.mem_of_find? hfound)
  unfold readFields? at htable
  split at htable
  · cases htable
    exact ⟨hctx, List.forall_mem_nil _⟩
  · rename_i entries hfound
    have hentries : (Json.object entries).Ordered := hmembers _ (Table.mem_of_find? hfound)
    obtain ⟨list, hlist, htable⟩ := Option.bind_eq_some_iff.1 htable
    cases htable
    refine ⟨hctx, ?_⟩
    intro entry hentry
    obtain ⟨⟨name, data⟩, hmember, hread⟩ :=
      exists_of_mem_mapM hlist (Table.mem_of_mem_collect hentry)
    have hread : (Field.ofJson? data).map (name, ·) = some entry := hread
    obtain ⟨field, hfield, rfl⟩ := Option.map_eq_some_iff.1 hread
    have hordered : data.Ordered := hentries.members _ hmember
    cases data with
    | object table => exact ⟨table, hordered.members, hfield⟩
    | _ => cases hfield
  · cases htable

theorem IsRead.fromMembers (h : context.IsRead) : context.FromMembers := by
  cases h with
  | text h => exact fromMembers_of_read? h
  | data hdata h => exact fromMembers_of_ofJson? hdata h

/-- A context that is read has all its data in order. -/
theorem IsRead.ordered (h : context.IsRead) : context.Ordered := h.fromMembers.ordered

/-- The metadata of fields that are read are apart from the fields' own members. -/
theorem IsRead.apart (h : context.IsRead) : context.Apart := h.fromMembers.apart

end Fields

end Context

end FormRules
