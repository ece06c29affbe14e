/-
  FormRules.Proofs.Roundtrip

  Writing a context and reading it back.

  In the written form of a field its metadata come last and win over its own members, in its
  record it is the other way round. Where the metadata are apart from the own members the two
  forms are the same (`toJson_eq_toRecord`), and what is read from them is the field
  (`ofJson?_toRecord`). Where they are not, the field is not read back at all: whatever is
  read has its metadata apart.

  So writing and reading are inverse on exactly those contexts, and every context that is read
  from JSON is one of them. Its metadata are the other members of what its fields are read
  from, whether this is data or a text.

  Main statement: `ofJson?_toJson_iff_apart`.
-/

import FormRules.Proofs.Navigation
import Mathlib.Data.List.Nodup

namespace FormRules

/-! ## Tables -/

namespace Table

variable {α : Type} {table other : Table α}

/-- Two tables are the same if the same is found in both. -/
theorem eq_of_get? (h : ∀ name, table.get? name = other.get? name) : table = other := by
  have hmem (entry : String × α) : entry ∈ table.list ↔ entry ∈ other.list := by
    rw [← find?_eq_some_iff table.ascending.nodup, ← find?_eq_some_iff other.ascending.nodup]
    exact Eq.congr_left (h entry.1)
  have hperm : table.list.Perm other.list :=
    (List.perm_ext_iff_of_nodup table.ascending.nodup_entries
      other.ascending.nodup_entries).2 hmem
  exact Table.ext (eq_of_subset table.ascending other.ascending hperm.length_eq hperm.subset)

/-- A table is the one that is collected from its entries. -/
theorem collect_list (table : Table α) : collect table.list = table :=
  eq_of_get? fun name => by rw [get?_collect, find?_reverse]

/-! ### Choosing entries by name -/

section Filter

variable (p : String → Bool)

/-- The entries whose names are chosen. -/
def filter (table : Table α) : Table α where
  list := table.list.filter fun entry => p entry.1
  ascending := by
    have hsublist := (List.filter_sublist (p := fun entry => p entry.1) (l := table.list)).map
      Prod.fst
    exact table.ascending.sublist hsublist

/-- Among the entries that are chosen by name, what has been there is found under a name that
    is chosen. -/
theorem find?_filter (name : String) (list : List (String × α)) :
    find? name (list.filter fun entry => p entry.1) =
      if p name = true then find? name list else none := by
  induction list with
  | nil => simp [find?]
  | cons head rest ih => grind [find?]

theorem get?_filter (name : String) (table : Table α) :
    (table.filter p).get? name = if p name = true then table.get? name else none :=
  find?_filter p name table.list

/-- It does not matter whether entries are chosen before a table is collected from them or
    after it. -/
theorem collect_filter (entries : List (String × α)) :
    collect (entries.filter fun entry => p entry.1) = (collect entries).filter p :=
  eq_of_get? fun name => by
    rw [get?_collect, ← List.filter_reverse, find?_filter, get?_filter, get?_collect]

end Filter

/-! ### Reading entries -/

/-- Where all entries are read each for itself, under a name that is read which is found
    there. -/
theorem find?_of_map_eq {β : Type} {f : α → Option β} {entries : List (String × α)}
    {results : List (String × β)}
    (h : (entries.map fun entry => (f entry.2).map (entry.1, ·)) = results.map some)
    (name : String) : (find? name entries).map f = (find? name results).map some := by
  induction entries generalizing results with
  | nil =>
    obtain rfl : results = [] := List.map_eq_nil_iff.1 h.symm
    rfl
  | cons entry entries ih =>
    obtain ⟨result, results, rfl, hresult, hrest⟩ := List.map_eq_cons_iff.1 h.symm
    obtain ⟨b, hb, rfl⟩ := Option.map_eq_some_iff.1 hresult.symm
    rw [find?, find?]
    by_cases hname : entry.1 = name
    · rw [if_pos hname, if_pos hname, Option.map_some, Option.map_some, hb]
    · rw [if_neg hname, if_neg hname, ih hrest.symm]

/-- In a table that is collected from what is read, what is found under a name is read from the
    last entry of the name. -/
theorem get?_collect_of_mapM {β : Type} {f : α → Option β} {entries : List (String × α)}
    {results : List (String × β)}
    (h : (entries.mapM fun entry => (f entry.2).map (entry.1, ·)) = some results)
    (name : String) :
    (find? name entries.reverse).map f = ((collect results).get? name).map some := by
  rw [get?_collect]
  refine find?_of_map_eq ?_ name
  rw [List.map_reverse, List.map_reverse, map_eq_of_mapM h]

end Table

/-! ## Fields -/

namespace Field

section Apart

variable {field : Field}

/-- Where the metadata are apart, nothing stands both among them and among the own members. -/
theorem Apart.find?_eq_none (h : field.Apart) (name : String) :
    field.metadata.get? name = none ∨ Table.find? name field.ownMembers.reverse = none := by
  by_cases hown : name ∈ ownNames
  · exact Or.inl (h name hown)
  · exact Or.inr (find?_ownMembers_of_not_mem hown)

/-- Where the metadata are apart, it does not matter whether they or the own members win. -/
theorem toJson_eq_toRecord (h : field.Apart) : field.toJson = field.toRecord := by
  refine congrArg Json.ofTable (Table.eq_of_get? fun name => ?_)
  rw [Table.get?_collect, Table.get?_collect, List.reverse_append, List.reverse_append,
    Table.find?_append, Table.find?_append, Table.find?_reverse]
  -- no name has something on both sides, so that it does not matter which side comes first
  rcases h.find?_eq_none name with hnone | hnone <;> rw [hnone, Option.none_or, Option.or_none]

/-- No name of a table is repeated. -/
theorem not_repeated (table : Table Json) :
    (ownNames.any fun name => 1 < (table.list.map (·.1)).count name) = false := by
  rw [List.any_eq_false]
  intro name _
  have hle : (Table.names table.list).count name ≤ 1 :=
    List.nodup_iff_count_le_one.1 table.ascending.nodup name
  exact Bool.not_eq_true _ ▸ decide_eq_false (Nat.not_lt.2 hle)

/-- Of the record of a field the other members are the metadata. -/
theorem filter_collect_ownMembers (h : field.Apart) :
    (Table.collect (field.metadata.list ++ field.ownMembers)).filter
      (fun name => !ownNames.contains name) = field.metadata := by
  refine Table.eq_of_get? fun name => ?_
  rw [Table.get?_filter, get?_collect_of_hidesNone h.hidesNone]
  by_cases hown : name ∈ ownNames
  · simp [hown, h name hown]
  · simp [hown, member_of_not_mem hown]

/-- What is read from the record of a field is the field, where its metadata are apart. -/
theorem ofJson?_toRecord (h : field.Apart) : ofJson? field.toRecord = some field := by
  -- the three own members are looked up in the record, and the others are its metadata
  have hfind := get?_collect_of_hidesNone h.hidesNone
  have hvalue := hfind "value"
  have hvalid := hfind "valid"
  have herror := hfind "error"
  rw [Table.get?] at hvalue hvalid herror
  have hmetadata := (Table.collect_list _).trans (filter_collect_ownMembers h)
  rw [Table.filter] at hmetadata
  have hrepeated := not_repeated (.collect (field.metadata.list ++ field.ownMembers))
  rw [toRecord, Json.ofMembers, Json.ofTable, ofJson?, ofMembers?, hrepeated, hvalue, hvalid,
    hmetadata, Json.stringMember?, Json.optionalMember?, herror]
  obtain ⟨value, valid, error, metadata⟩ := field
  cases error <;> rfl

/-- So it is with its written form. -/
theorem ofJson?_toJson (h : field.Apart) : ofJson? field.toJson = some field := by
  rw [toJson_eq_toRecord h, ofJson?_toRecord h]

end Apart

/-! ### What metadata are read -/

/-- The members of data that are not under the name of an own member of a field. -/
def otherMembers : Json → List (String × Json)
  | .object members => members.filter fun member => !ownNames.contains member.1
  | _ => []

/-- The metadata that are read are the other members, the last of each name. -/
theorem metadata_of_ofMembers? {members : List (String × Json)} {field : Field}
    (h : ofMembers? members = some field) :
    field.metadata.list = otherMembers (Json.ofMembers members) := by
  rw [(of_ofMembers? h).2, Table.collect_filter fun name => !ownNames.contains name]
  rfl

/-- Where every name is there once, they are all the other members. -/
theorem metadata_of_ofJson? {data : Json} (hdata : data.Ordered) {field : Field}
    (h : ofJson? data = some field) : field.metadata.list = otherMembers data := by
  cases data with
  | object members =>
    rw [metadata_of_ofMembers? h, Json.ofMembers, Table.collect_list ⟨members, hdata.ascending⟩]
    rfl
  | _ => cases h

/-- The metadata of a field that is read from data are apart. -/
theorem apart_of_ofJson? {data : Json} {field : Field} (h : ofJson? data = some field) :
    field.Apart := by
  cases data with
  | object members => exact apart_of_ofMembers? h
  | _ => cases h

end Field

/-! ## Contexts -/

namespace Context

section Written

variable (context : Context)

/-- The written form of a context has its two parts as members. -/
theorem toJson_eq : context.toJson =
    .object [("ctx", context.ctx),
      ("fields", .ofTable (context.fields.map Field.toJson))] := by
  have hlt : ¬"fields" < "ctx" := by decide
  have hne : "fields" ≠ "ctx" := by decide
  have hlist : Table.ofList [("ctx", context.ctx),
      ("fields", .ofTable (context.fields.map Field.toJson))] =
        [("ctx", context.ctx), ("fields", .ofTable (context.fields.map Field.toJson))] := by
    rw [Table.ofList, List.foldl_cons, List.foldl_cons, List.foldl_nil, Table.insert,
      Table.insert, if_neg hlt, if_neg hne, Table.insert]
  exact congrArg Json.object hlist

/-- A written context is read from its two parts. -/
theorem ofJson?_toJson_eq : ofJson? context.toJson =
    (readFields? (some (.ofTable (context.fields.map Field.toJson)))).map
      fun fields => ⟨context.ctx, fields⟩ := by
  rw [toJson_eq]
  rfl

end Written

variable {context : Context}

/-- Where the metadata of all fields are apart, the fields are read back. -/
theorem readFields?_toJson (hapart : context.Apart) :
    readFields? (some (.ofTable (context.fields.map Field.toJson))) = some context.fields := by
  -- each field is read back in its place, and the table that is made of them is the old one
  have hfields : ((context.fields.map Field.toJson).list.map fun entry =>
      (Field.ofJson? entry.2).map (entry.1, ·)) = context.fields.list.map some := by
    rw [Table.map, List.map_map]
    refine List.map_congr_left fun entry hentry => ?_
    show (Field.ofJson? entry.2.toJson).map (entry.1, ·) = some entry
    rw [Field.ofJson?_toJson (hapart entry hentry)]
    rfl
  rw [Json.ofTable, readFields?]
  simp only [mapM_eq_of_map hfields]
  show some (Table.collect context.fields.list) = some context.fields
  rw [Table.collect_list]

/-- Fields that are read from data have their metadata apart. -/
theorem apart_of_readFields? {data : Option Json} {fields : Table Field}
    (h : readFields? data = some fields) : ∀ entry ∈ fields, entry.2.Apart := by
  unfold readFields? at h
  split at h
  · cases h
    exact List.forall_mem_nil _
  · obtain ⟨list, hlist, h⟩ := Option.bind_eq_some_iff.1 h
    cases h
    intro entry hentry
    obtain ⟨⟨name, data⟩, -, hread⟩ :=
      exists_of_mem_mapM hlist (Table.mem_of_mem_collect hentry)
    have hread : (Field.ofJson? data).map (name, ·) = some entry := hread
    obtain ⟨field, hfield, rfl⟩ := Option.map_eq_some_iff.1 hread
    exact Field.apart_of_ofJson? hfield
  · cases h

/-- A context is read back if and only if the metadata of all its fields are apart. -/
theorem ofJson?_toJson_iff : ofJson? context.toJson = some context ↔ context.Apart := by
  rw [ofJson?_toJson_eq]
  constructor
  · intro hread
    obtain ⟨fields, hfields, heq⟩ := Option.map_eq_some_iff.1 hread
    obtain rfl : fields = context.fields := congrArg Context.fields heq
    exact apart_of_readFields? hfields
  · intro hapart
    rw [readFields?_toJson hapart, Option.map_some]

/-- Where all metadata are apart, the written fields are the records of all fields. -/
theorem member_fields_toJson (hapart : context.Apart) :
    context.toJson.member "fields" = some context.fieldsRecord := by
  have hfields : context.fields.map Field.toJson = context.fields.map Field.toRecord :=
    Table.ext (List.map_congr_left fun entry hentry => by
      rw [Field.toJson_eq_toRecord (hapart entry hentry)])
  rw [toJson_eq, hfields]
  rfl

end Context

/-! ## What is written -/

/-- Where something is read if and only if it is there, what is kept of the result is what is
    kept of what has been there. -/
theorem map_eq_bind_of_map_eq {α β γ : Type} {f : α → Option β} {keep : β → γ}
    {kept : α → Option γ} {found : Option α} {result : Option β}
    (h : found.map f = result.map some)
    (hkeep : ∀ a, found = some a → ∀ b, f a = some b → kept a = some (keep b)) :
    result.map keep = found.bind kept := by
  cases found with
  | none =>
    obtain rfl : result = none := Option.map_eq_none_iff.1 h.symm
    rfl
  | some a =>
    obtain ⟨b, rfl, hb⟩ := Option.map_eq_some_iff.1 h.symm
    rw [Option.map_some, Option.bind_some, hkeep a rfl b hb.symm]

namespace Context

variable {context : Context}

/-! ### In data -/

/-- The fields in the data of a context, which is an object or an array of two parts. -/
def writtenFields? : Json → Option Json
  | .object members => Table.find? "fields" members
  | .array items => items[1]?
  | _ => none

/-- The fields of a context that is read are read from those in the data. -/
theorem readFields?_written {data : Json} (h : ofJson? data = some context) :
    readFields? (writtenFields? data) = some context.fields := by
  obtain ⟨members, hmembers, h⟩ := Option.bind_eq_some_iff.1 h
  obtain ⟨fields, hfields, rfl⟩ := Option.map_eq_some_iff.1 h
  suffices hwritten : writtenFields? data = Table.find? "fields" members by
    rw [hwritten, hfields]
  cases data with
  | object table =>
    cases hmembers
    rfl
  | array items =>
    rw [Json.recordMembers?] at hmembers
    split at hmembers
    · cases hmembers
      match items with
      | [] | [_] | _ :: _ :: _ => rfl
    · cases hmembers
  | _ => cases hmembers

theorem ordered_of_writtenFields? {data fields : Json} (hdata : data.Ordered)
    (h : writtenFields? data = some fields) : fields.Ordered := by
  cases data with
  | object members => exact hdata.members _ (Table.mem_of_find? h)
  | array items => exact hdata.items _ (List.mem_of_getElem? h)
  | _ => cases h

/-- The metadata of a field that is read are the other members of the data under its name. -/
theorem metadata_of_ofJson? {data : Json} (hdata : data.Ordered) (h : ofJson? data = some context)
    (name : String) :
    (context.fields.get? name).map (·.metadata.list) =
      ((writtenFields? data).bind (Json.member name)).map Field.otherMembers := by
  have hread := readFields?_written h
  cases hwritten : writtenFields? data with
  | none =>
    rw [hwritten] at hread
    rw [← Option.some.inj hread]
    rfl
  | some written =>
    have hordered := ordered_of_writtenFields? hdata hwritten
    rw [hwritten] at hread
    cases written with
    | object entries =>
      obtain ⟨fields, hfields, htable⟩ := Option.bind_eq_some_iff.1 hread
      have hfind := Table.get?_collect_of_mapM hfields name
      rw [Table.find?_perm (List.reverse_perm _) hordered.ascending.nodup] at hfind
      rw [← Option.some.inj htable]
      refine (map_eq_bind_of_map_eq hfind fun data hfound field hfield => ?_).trans
        Option.map_eq_bind.symm
      have hdata := hordered.members _ (Table.mem_of_find? hfound)
      exact congrArg some (Field.metadata_of_ofJson? hdata hfield).symm
    | _ => cases hread

/-! ### In texts -/

/-- In an object of a text, the last member of a name. -/
def lastNamed? (name : String) : Document → Option Document
  | .object members => (members.reverse.find? fun member => member.1 = some name).map (·.2)
  | _ => none

/-- The fields in the text of a context, which is an object or an array of two parts. -/
def textFields? : Document → Option Document
  | .array items => items[1]?
  | document => lastNamed? "fields" document

/-- A member that is there once is the last one of its name. -/
theorem lastNamed?_of_single? {name : String} {members : List (Option String × Document)}
    {part : Option Document} (h : single? name members = some part) :
    lastNamed? name (.object members) = part := by
  rw [lastNamed?, ← List.head?_filter, List.filter_reverse]
  unfold single? at h
  split at h
  · rename_i hnone
    cases h
    rw [hnone]
    rfl
  · rename_i member hone
    cases h
    rw [hone]
    rfl
  · cases h

theorem readFieldsDocument?_written {document : Document}
    (h : ofDocument? document = some context) :
    readFieldsDocument? (Document.nestingLimit - 3) (textFields? document) =
      some context.fields := by
  unfold ofDocument? at h
  split at h
  · rename_i members
    split at h
    · cases h
    · obtain ⟨-, -, h⟩ := Option.bind_eq_some_iff.1 h
      obtain ⟨ctx, -, h⟩ := Option.bind_eq_some_iff.1 h
      obtain ⟨fields, hfields, h⟩ := Option.bind_eq_some_iff.1 h
      rw [textFields?, lastNamed?_of_single? hfields]
      · exact (of_ofDocumentParts? h).2
      · exact nofun
  · exact (of_ofDocumentParts? h).2
  · exact (of_ofDocumentParts? h).2
  · exact (of_ofDocumentParts? h).2
  · cases h

/-- Where all entries of an object are read, all of them have names. -/
theorem exists_named {α β : Type} {f : α → Option β} {entries : List (Option String × α)}
    {results : List (String × β)}
    (h : (entries.mapM fun entry => do return ((← entry.1), (← f entry.2))) = some results) :
    ∃ named : List (String × α), entries = named.map (fun entry => (some entry.1, entry.2)) ∧
      (named.mapM fun entry => (f entry.2).map (entry.1, ·)) = some results := by
  induction entries generalizing results with
  | nil =>
    cases h
    exact ⟨[], rfl, rfl⟩
  | cons entry entries ih =>
    obtain ⟨name?, data⟩ := entry
    rw [List.mapM_cons] at h
    obtain ⟨first, hfirst, hothers⟩ := Option.bind_eq_some_iff.1 h
    obtain ⟨rest, hrest, heq⟩ := Option.bind_eq_some_iff.1 hothers
    obtain ⟨name, hname, hpair⟩ := Option.bind_eq_some_iff.1 hfirst
    obtain ⟨result, hresult, hpair⟩ := Option.bind_eq_some_iff.1 hpair
    obtain rfl : (name, result) = first := Option.some.inj hpair
    obtain rfl : (name, result) :: rest = results := Option.some.inj heq
    obtain rfl : name? = some name := hname
    obtain ⟨named, rfl, hnamed⟩ := ih hrest
    refine ⟨(name, data) :: named, rfl, ?_⟩
    rw [List.mapM_cons, hnamed, hresult]
    rfl

theorem lastNamed?_of_named (name : String) (named : List (String × Document)) :
    lastNamed? name (.object (named.map fun entry => (some entry.1, entry.2))) =
      Table.find? name named.reverse := by
  rw [lastNamed?, ← List.map_reverse]
  induction named.reverse with
  | nil => rfl
  | cons head rest ih => grind [Table.find?]

/-- The metadata of a field that is read from a text are the other members of its data. -/
theorem metadata_of_readField? {levels : Nat} {document : Document} {field : Field}
    (h : readField? levels document = some field) :
    (document.toJson? (levels + 1)).map Field.otherMembers = some field.metadata.list := by
  cases document with
  | object members =>
    obtain ⟨table, htable, hfield⟩ := Option.bind_eq_some_iff.1 h
    rw [Document.toJson?, if_neg (Nat.succ_ne_zero levels), Nat.add_sub_cancel, htable,
      Field.metadata_of_ofMembers? hfield]
    rfl
  | _ => cases h

/-- The metadata of a field that is read from a text are the other members of the last data
    under its name. -/
theorem metadata_of_read? {text : String} (h : read? text = some context) :
    ∃ document, Document.read? text = some document ∧ ∀ name,
      (context.fields.get? name).map (·.metadata.list) =
        ((textFields? document).bind (lastNamed? name)).bind fun written =>
          (written.toJson? (Document.nestingLimit - 2)).map Field.otherMembers := by
  obtain ⟨document, hdocument, h⟩ := Option.bind_eq_some_iff.1 h
  refine ⟨document, hdocument, fun name => ?_⟩
  have hread := readFieldsDocument?_written h
  cases hwritten : textFields? document with
  | none =>
    rw [hwritten] at hread
    rw [← Option.some.inj hread]
    rfl
  | some written =>
    rw [hwritten] at hread
    cases written with
    | object entries =>
      obtain ⟨fields, hfields, htable⟩ := Option.bind_eq_some_iff.1 hread
      obtain ⟨named, rfl, hnamed⟩ := exists_named hfields
      rw [← Option.some.inj htable, Option.bind_some, lastNamed?_of_named]
      exact map_eq_bind_of_map_eq (Table.get?_collect_of_mapM hnamed name)
        fun _ _ _ hfield => metadata_of_readField? hfield
    | _ => cases hread

/-! ## Both ways -/

/-- A context is read back from its written form if and only if no field has metadata under the
    name of one of its own members. No context that is read from JSON has any such, so that
    writing it and reading it again gives the same, and its written fields are the records of all
    fields. The metadata of a field that is read are exactly the other members written for it, as
    they are, whether in an object or an array of data, or in a text, where of members with one
    name the last counts. -/
theorem ofJson?_toJson_iff_apart :
    (∀ context : Context, ofJson? context.toJson = some context ↔ context.Apart) ∧
    (∀ context : Context, context.IsRead →
      context.Apart ∧ ofJson? context.toJson = some context ∧
        context.toJson.member "fields" = some context.fieldsRecord) ∧
    (∀ data context, data.Ordered → ofJson? data = some context → ∀ name,
      (context.fields.get? name).map (·.metadata.list) =
        ((writtenFields? data).bind (Json.member name)).map Field.otherMembers) ∧
    ∀ text context, read? text = some context →
      ∃ document, Document.read? text = some document ∧ ∀ name,
        (context.fields.get? name).map (·.metadata.list) =
          ((textFields? document).bind (lastNamed? name)).bind fun written =>
            (written.toJson? (Document.nestingLimit - 2)).map Field.otherMembers := by
  refine ⟨fun context => ofJson?_toJson_iff, fun context h => ?_, ?_, ?_⟩
  · exact ⟨h.apart, ofJson?_toJson_iff.2 h.apart, member_fields_toJson h.apart⟩
  · exact fun data context hdata h => metadata_of_ofJson? hdata h
  · exact fun text context h => metadata_of_read? h

/-- Metadata named like no own member come back, the last of two in a text. A missing error
    that is written by its metadata reads as none, and the metadata are lost. -/
theorem ofJson?_toJson_touched :
    let touched := (new .emptyObject).withField "a"
      ((Field.new .null false).withMetadata "touched" .null)
    let masked := (new .emptyObject).withField "a"
      ((Field.new .null false).withMetadata "error" .null)
    let data := Json.array [.emptyObject, touched.fieldsRecord]
    let text := "[\x7b\x7d, \x7b\"a\": \x7b\"touched\": 1, \"touched\": null\x7d\x7d]"
    ofJson? touched.toJson = some touched ∧ ofJson? masked.toJson ≠ some masked ∧
    (touched.IsRead ∧ touched.toJson.member "fields" = some touched.fieldsRecord) ∧
    (data.Ordered ∧ ofJson? data = some touched ∧
      ((writtenFields? data).bind (Json.member "a")).map Field.otherMembers =
        some [("touched", .null)]) ∧
    read? text = some touched ∧
      ∃ document, ((textFields? document).bind (lastNamed? "a")).bind (fun written =>
        (written.toJson? (Document.nestingLimit - 2)).map Field.otherMembers) =
          some [("touched", .null)] := by
  intro touched masked data text
  obtain ⟨hback, hread, hdata, htext⟩ := ofJson?_toJson_iff_apart
  have hapart : touched.Apart := by
    intro entry hentry
    obtain rfl := List.mem_singleton.1 hentry
    show ∀ name ∈ Field.ownNames, Table.find? name [("touched", Json.null)] = none
    decide
  have hnot : ¬masked.Apart := fun h =>
    Option.some_ne_none _ (h _ (List.mem_singleton_self _) "error" (by decide))
  have hreadText : read? text = some touched := by decide +kernel
  have hisRead : touched.IsRead := .text hreadText
  have hordered : data.Ordered := by
    have hempty : Json.emptyObject.Ordered := .object List.Pairwise.nil (List.forall_mem_nil _)
    refine .array (List.forall_mem_cons.2 ⟨hempty, ?_⟩)
    exact List.forall_mem_singleton.2 hisRead.ordered.fieldsRecord
  have hreadData : ofJson? data = some touched := by decide
  obtain ⟨document, -, hdocument⟩ := htext text touched hreadText
  refine ⟨(hback touched).2 hapart, fun h => hnot ((hback masked).1 h),
    ⟨hisRead, (hread _ hisRead).2.2⟩,
    ⟨hordered, hreadData, (hdata data touched hordered hreadData "a").symm⟩, hreadText,
    document, (hdocument "a").symm⟩

end Context

end FormRules
