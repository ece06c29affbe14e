/-
  FormRules.Data.Table

  Tables: entries under distinct names, in ascending order of the names. Names are
  ordered by code points, which is also the order of their UTF-8 bytes.

  A `Table` carries its order, and everything that makes a table keeps it. Looking up a name and
  putting an entry in its place are put down for lists of entries first, since the members of
  data and of the records that are read are such lists.
-/

namespace FormRules

namespace Table

variable {α : Type}

/-! ## Lists of entries -/

/-- The entry under a name. -/
def find? (name : String) : List (String × α) → Option α
  | [] => none
  | (n, entry) :: rest => if n = name then some entry else find? name rest

/-- Puts an entry in its place; an entry of the same name is replaced. -/
def insert (name : String) (entry : α) : List (String × α) → List (String × α)
  | [] => [(name, entry)]
  | (n, old) :: rest =>
    if name < n then (name, entry) :: (n, old) :: rest
    else if name = n then (name, entry) :: rest
    else (n, old) :: insert name entry rest

/-- The entries in order, whatever order they are given in; of two with one name the later
    stays. -/
def ofList (entries : List (String × α)) : List (String × α) :=
  entries.foldl (fun list entry => insert entry.1 entry.2 list) []

/-- The names of the entries. -/
def names (list : List (String × α)) : List String := list.map (·.1)

/-- The names ascend, so that no two are the same. -/
def Ascending (list : List (String × α)) : Prop := (names list).Pairwise (· < ·)

/-- An entry that is found is in the list. -/
theorem mem_of_find? {name : String} {entry : α} {list : List (String × α)}
    (h : find? name list = some entry) : (name, entry) ∈ list := by
  induction list with
  | nil => cases h
  | cons head rest ih => grind [find?]

/-- A name is looked up in the first of two lists, and then in the second. -/
theorem find?_append (name : String) (list other : List (String × α)) :
    find? name (list ++ other) = (find? name list).or (find? name other) := by
  induction list with
  | nil => rfl
  | cons head rest ih => grind [find?]

/-- Under a name, a list of changed entries holds the changed entry. -/
theorem find?_map {β : Type} (f : α → β) (name : String) (list : List (String × α)) :
    find? name (list.map fun entry => (entry.1, f entry.2)) = (find? name list).map f := by
  induction list with
  | nil => rfl
  | cons head rest ih => grind [find?]

/-- No two names in order are the same. -/
theorem Ascending.nodup {list : List (String × α)} (h : Ascending list) :
    (names list).Nodup := by
  refine List.Pairwise.imp ?_ h
  rintro name other hlt rfl
  exact String.lt_irrefl name hlt

/-- Under names of which no two are the same, every entry is found. -/
theorem find?_eq_some_iff {name : String} {entry : α} {list : List (String × α)}
    (h : (names list).Nodup) : find? name list = some entry ↔ (name, entry) ∈ list := by
  refine ⟨mem_of_find?, fun hmem => ?_⟩
  induction list with
  | nil => cases hmem
  | cons head rest ih =>
    obtain ⟨n, first⟩ := head
    obtain ⟨hfirst, hrest⟩ := List.nodup_cons.1 h
    rw [find?]
    rcases List.mem_cons.1 hmem with heq | hmem
    · cases heq
      exact if_pos rfl
    · have hne : n ≠ name := by
        rintro rfl
        exact hfirst (List.mem_map.2 ⟨_, hmem, rfl⟩)
      rw [if_neg hne]
      exact ih hrest hmem

/-- Under names of which no two are the same, the order of the entries does not matter. -/
theorem find?_perm {list other : List (String × α)} (hperm : list.Perm other)
    (h : (names other).Nodup) (name : String) : find? name list = find? name other := by
  have hnames : (names list).Perm (names other) := hperm.map _
  ext entry
  rw [find?_eq_some_iff (hnames.nodup_iff.2 h), find?_eq_some_iff h, hperm.mem_iff]

/-- Nothing is found under a name if and only if the list does not have it. -/
theorem find?_eq_none_iff {name : String} {list : List (String × α)} :
    find? name list = none ↔ name ∉ names list := by
  induction list with
  | nil => simp [find?, names]
  | cons head rest ih => grind [find?, names]

/-! ## What insertion does -/

/-- An entry after an insertion is the new one or was there before. -/
theorem eq_or_mem_of_mem_insert {name : String} {entry : α} {list : List (String × α)}
    {other : String × α} (h : other ∈ insert name entry list) :
    other = (name, entry) ∨ other ∈ list := by
  induction list with
  | nil => simpa [insert] using h
  | cons head rest ih => grind [insert]

/-- Under its name an inserted entry is found, under another what was there before. -/
theorem find?_insert (name other : String) (entry : α) (list : List (String × α)) :
    find? other (insert name entry list) =
      if name = other then some entry else find? other list := by
  induction list with
  | nil => simp [insert, find?]
  | cons head rest ih => grind [insert, find?]

/-- The names after an insertion are the new one and those from before. -/
theorem mem_names_insert (name other : String) (entry : α) (list : List (String × α)) :
    other ∈ names (insert name entry list) ↔ other = name ∨ other ∈ names list := by
  induction list with
  | nil => simp [insert, names]
  | cons head rest ih => grind [insert, names]

/-- An insertion under a new name adds an entry. -/
theorem length_insert_of_not_mem {name : String} {entry : α} {list : List (String × α)}
    (h : name ∉ names list) : (insert name entry list).length = list.length + 1 := by
  induction list with
  | nil => rfl
  | cons head rest ih => grind [insert, names]

/-- An insertion under a name that a list in order has replaces an entry. -/
theorem length_insert_of_mem {name : String} {entry : α} {list : List (String × α)}
    (hlist : Ascending list) (h : name ∈ names list) :
    (insert name entry list).length = list.length := by
  induction list with
  | nil => cases h
  | cons head rest ih =>
    obtain ⟨n, old⟩ := head
    obtain ⟨hfirst, hrest⟩ := List.pairwise_cons.1 hlist
    unfold insert
    split
    · -- in front of the first name there is no other one
      rename_i hlt
      rcases List.mem_cons.1 h with rfl | hmem
      · exact absurd hlt (String.lt_irrefl _)
      · exact absurd (String.lt_trans hlt (hfirst name hmem)) (String.lt_irrefl _)
    · split
      · rfl
      · rename_i hne
        have hmem : name ∈ names rest := (List.mem_cons.1 h).resolve_left hne
        rw [List.length_cons, List.length_cons, ih hrest hmem]

/-- Insertion keeps the order. -/
theorem ascending_insert {name : String} {entry : α} {list : List (String × α)}
    (h : Ascending list) : Ascending (insert name entry list) := by
  induction list with
  | nil => simp [insert, Ascending, names]
  | cons head rest ih =>
    obtain ⟨n, old⟩ := head
    simp only [Ascending, names, List.map_cons, List.pairwise_cons] at h
    unfold insert
    split
    · rename_i hlt
      simp only [Ascending, names, List.map_cons, List.pairwise_cons, List.mem_cons]
      refine ⟨?_, h⟩
      rintro other (rfl | hmem)
      · exact hlt
      · exact String.lt_trans hlt (h.1 other hmem)
    · split
      · rename_i heq
        subst heq
        simpa only [Ascending, names, List.map_cons, List.pairwise_cons] using h
      · rename_i hge hne
        have hgt : n < name := Decidable.byContradiction fun h =>
          hne (String.le_antisymm (String.not_lt.1 h) (String.not_lt.1 hge))
        have hrest := ih h.2
        simp only [Ascending, names, List.map_cons, List.pairwise_cons]
        refine ⟨fun other hmem => ?_, hrest⟩
        rcases (mem_names_insert name other entry rest).1 hmem with rfl | hold
        · exact hgt
        · exact h.1 other hold

/-- What is put in order is in order. -/
theorem ascending_ofList (entries : List (String × α)) : Ascending (ofList entries) := by
  suffices h : ∀ (start : List (String × α)), Ascending start →
      Ascending (entries.foldl (fun list entry => insert entry.1 entry.2 list) start) from
    h [] (by simp [Ascending, names])
  induction entries with
  | nil => exact fun start h => h
  | cons entry rest ih => exact fun start h => ih _ (ascending_insert h)

/-- An entry of what is put in order has been in the list. -/
theorem mem_of_mem_ofList {entries : List (String × α)} {entry : String × α}
    (h : entry ∈ ofList entries) : entry ∈ entries := by
  suffices hfold : ∀ (start : List (String × α)),
      entry ∈ entries.foldl (fun list entry => insert entry.1 entry.2 list) start →
        entry ∈ start ∨ entry ∈ entries from
    (hfold [] h).resolve_left List.not_mem_nil
  clear h
  induction entries with
  | nil => exact fun start hstart => Or.inl hstart
  | cons first rest ih =>
    intro start hfold
    rcases ih _ hfold with hstart | hrest
    · rcases eq_or_mem_of_mem_insert hstart with rfl | hstart
      · exact Or.inr List.mem_cons_self
      · exact Or.inl hstart
    · exact Or.inr (List.mem_cons_of_mem _ hrest)

/-- In what is put in order, the last entry of a name is found. -/
theorem find?_ofList (name : String) (entries : List (String × α)) :
    find? name (ofList entries) = find? name entries.reverse := by
  suffices hfold : ∀ (start : List (String × α)),
      find? name (entries.foldl (fun list entry => insert entry.1 entry.2 list) start) =
        (find? name entries.reverse).or (find? name start) from
    (hfold []).trans (Option.or_none)
  induction entries with
  | nil => exact fun start => rfl
  | cons first rest ih =>
    intro start
    rw [List.foldl_cons, ih, find?_insert, List.reverse_cons, find?_append, Option.or_assoc]
    congr 1
    rw [find?, find?]
    split <;> rfl

end Table

/-- Entries under names that ascend. -/
@[ext]
structure Table (α : Type) where
  list : List (String × α)
  ascending : Table.Ascending list
deriving DecidableEq

namespace Table

variable {α β : Type}

/-! ## Tables -/

/-- The entries of a table are those of its list. -/
instance : Membership (String × α) (Table α) := ⟨fun table entry => entry ∈ table.list⟩

/-- The table without entries. -/
def empty : Table α := ⟨[], List.Pairwise.nil⟩

/-- The number of entries. -/
def size (table : Table α) : Nat := table.list.length

/-- The entry under a name. -/
def get? (name : String) (table : Table α) : Option α := find? name table.list

/-- The table with an entry in its place; one of the same name is replaced. -/
def set (name : String) (entry : α) (table : Table α) : Table α :=
  ⟨insert name entry table.list, ascending_insert table.ascending⟩

/-- The table of entries given in any order; of two with one name the later stays. -/
def collect (entries : List (String × α)) : Table α := ⟨ofList entries, ascending_ofList entries⟩

/-- The table with every entry changed in its place. -/
def map (f : α → β) (table : Table α) : Table β where
  list := table.list.map fun entry => (entry.1, f entry.2)
  ascending := by
    have hnames : names (table.list.map fun entry => (entry.1, f entry.2)) = names table.list :=
      List.map_map
    rw [Ascending, hnames]
    exact table.ascending

theorem mem_of_get? {name : String} {entry : α} {table : Table α}
    (h : table.get? name = some entry) : (name, entry) ∈ table := mem_of_find? h

theorem get?_eq_none_iff {name : String} {table : Table α} :
    table.get? name = none ↔ name ∉ names table.list := find?_eq_none_iff

theorem mem_map {f : α → β} {table : Table α} {entry : String × β} :
    entry ∈ table.map f ↔ ∃ old ∈ table, (old.1, f old.2) = entry := List.mem_map

/-- An entry of a table that is collected has been given. -/
theorem mem_of_mem_collect {entries : List (String × α)} {entry : String × α}
    (h : entry ∈ collect entries) : entry ∈ entries := mem_of_mem_ofList h

/-- Under a name, a changed table holds the changed entry. -/
theorem get?_map (f : α → β) (name : String) (table : Table α) :
    (table.map f).get? name = (table.get? name).map f := find?_map f name table.list

/-- In a table that is collected, the last entry of a name is found. -/
theorem get?_collect (name : String) (entries : List (String × α)) :
    (collect entries).get? name = find? name entries.reverse := find?_ofList name entries

/-- An entry that is in a table after setting one is this one or was there before. -/
theorem eq_or_mem_of_mem_set {name : String} {entry : α} {table : Table α}
    {other : String × α} (h : other ∈ table.set name entry) :
    other = (name, entry) ∨ other ∈ table := eq_or_mem_of_mem_insert h

/-- Under its name an entry that is set is found, under another what was there before. -/
theorem get?_set (name other : String) (entry : α) (table : Table α) :
    (table.set name entry).get? other = if name = other then some entry else table.get? other :=
  find?_insert name other entry table.list

/-- Where the name is new, an entry that is set is one more. -/
theorem size_set_of_none {name : String} (entry : α) {table : Table α}
    (h : table.get? name = none) : (table.set name entry).size = table.size + 1 :=
  length_insert_of_not_mem (get?_eq_none_iff.1 h)

/-- Where the name is there, the size stays the same. -/
theorem size_set_of_mem {name : String} (entry : α) {table : Table α}
    (h : name ∈ names table.list) : (table.set name entry).size = table.size :=
  length_insert_of_mem table.ascending h

/-- Looked up from the end, a table holds the same. -/
theorem find?_reverse (name : String) (table : Table α) :
    find? name table.list.reverse = table.get? name :=
  find?_perm (List.reverse_perm _) table.ascending.nodup name

end Table

end FormRules
