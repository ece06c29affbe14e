/-
  FormRules.Proofs.Content

  Data up to strict equality.

  The content of data is what strict equality looks at: of a number only where it lies on
  the line, and of everything else what is inside. Two values are strictly equal if and
  only if they have the same content (`strictEquals_iff_content_eq`), as long as the
  members of their objects are in order, which is how every object of the program is
  held. So strict equality is an equivalence, and what is a function of the content cannot
  tell strictly equal data apart.
-/

import FormRules.Value.Comparing
import Mathlib.Data.List.Perm.Subperm

namespace FormRules

/-- No two entries in order are the same. -/
theorem Table.Ascending.nodup_entries {α : Type} {list : List (String × α)} (h : Ascending list) :
    list.Nodup :=
  List.Pairwise.of_map _ (fun _ _ hne => ne_of_apply_ne _ hne) h.nodup

/-- Two lists in order with equally many entries are the same if the entries of the one
    are in the other. -/
theorem Table.eq_of_subset {α : Type} {list other : List (String × α)} (hlist : Ascending list)
    (hother : Ascending other) (hlength : list.length = other.length)
    (hsubset : list ⊆ other) : list = other := by
  have hperm : list.Perm other :=
    (List.subperm_of_subset hlist.nodup_entries hsubset).perm_of_length_le
      (Nat.le_of_eq hlength.symm)
  refine hperm.eq_of_pairwise ?_ (List.pairwise_map.1 hlist) (List.pairwise_map.1 hother)
  intro a b _ _ hlt hgt
  exact absurd (String.lt_trans hlt hgt) (String.lt_irrefl a.1)

/-! ## Numbers -/

/-- A number of JSON data lies somewhere on the line. -/
theorem Number.position?_ne_none (n : Number) : n.toExtended.position? ≠ none := by
  cases n with
  | integer n =>
    rw [toExtended, Decimal.nearest, Extended.ofRatio, Extended.ofUnits]
    split <;> exact Option.some_ne_none _
  | double x => exact Option.some_ne_none _

namespace Extended

variable {x y : Extended}

/-- Two numbers that lie at the same place, or nowhere, are equal to the same numbers. -/
theorem equals_congr {x' y' : Extended} (hx : x.position? = x'.position?)
    (hy : y.position? = y'.position?) : x.equals y = x'.equals y' := by
  rw [equals, equals, hx, hy]

theorem order?_congr {x' y' : Extended} (hx : x.position? = x'.position?)
    (hy : y.position? = y'.position?) : x.order? y = x'.order? y' := by
  rw [order?, order?, hx, hy]

/-- The text of a finite double is up to its value: both zeros have the same. -/
theorem displayText_of_value_eq {x y : Binary64} (h : x.value = y.value) :
    x.displayText = y.displayText := by
  obtain ⟨negative, units, hx⟩ := x
  obtain ⟨negative', units', hy⟩ := y
  have hunits : units = units' ∧ (units = 0 ∨ negative = negative') := by
    simp only [Binary64.value] at h
    cases negative <;> cases negative' <;> simp at h ⊢ <;> omega
  obtain ⟨rfl, rfl | rfl⟩ := hunits
  · rfl
  · rfl

/-- No finite double lies where an infinity does. -/
theorem natAbs_value_lt (x : Binary64) : x.value.natAbs < Binary64.overflow := by
  have hlt := x.representable.1
  rw [Binary64.value]
  split
  · rwa [Int.natAbs_neg, Int.natAbs_natCast]
  · rwa [Int.natAbs_natCast]

theorem natAbs_of_position?_infinite {negative : Bool} {p : Int}
    (h : (infinite negative).position? = some p) : p.natAbs = Binary64.overflow := by
  obtain rfl := Option.some.inj h
  cases negative
  · exact Int.natAbs_natCast _
  · exact (Int.natAbs_neg _).trans (Int.natAbs_natCast _)

/-- The text of a number is up to where it lies. -/
theorem displayText_congr (h : x.position? = y.position?) : x.displayText = y.displayText := by
  cases x with
  | finite x =>
    cases y with
    | finite y => exact displayText_of_value_eq (Option.some.inj h)
    | infinite negative =>
      have hlt := natAbs_value_lt x
      rw [natAbs_of_position?_infinite h.symm] at hlt
      exact absurd hlt (Nat.lt_irrefl _)
    | nan => cases h
  | infinite negative =>
    cases y with
    | finite y =>
      have hlt := natAbs_value_lt y
      rw [natAbs_of_position?_infinite h] at hlt
      exact absurd hlt (Nat.lt_irrefl _)
    | infinite other =>
      have hpos := Binary64.overflow_pos
      have hplace : (if negative then -(Binary64.overflow : Int) else Binary64.overflow) =
          if other then -(Binary64.overflow : Int) else Binary64.overflow := Option.some.inj h
      -- the bound is some positive number here, not the power of two that it is
      generalize Binary64.overflow = bound at hpos hplace
      obtain rfl : negative = other := by
        cases negative <;> cases other <;> simp at hplace ⊢ <;> omega
      rfl
    | nan => cases h
  | nan =>
    cases y with
    | nan => rfl
    | finite | infinite => cases h

end Extended

/-! ## Content -/

/-- What strict equality sees of data. -/
inductive Content where
  | null
  | boolean (b : Bool)
  | number (position : Option Int)
  | string (s : String)
  | array (items : List Content)
  | object (members : List (String × Content))

namespace Json

mutual

/-- The content of data: numbers by their place, all the rest as it is. -/
def content : Json → Content
  | .null => .null
  | .boolean b => .boolean b
  | .number n => .number n.toExtended.position?
  | .string s => .string s
  | .array items => .array (contentItems items)
  | .object members => .object (contentMembers members)

def contentItems : List Json → List Content
  | [] => []
  | item :: items => content item :: contentItems items

def contentMembers : List (String × Json) → List (String × Content)
  | [] => []
  | (name, data) :: members => (name, content data) :: contentMembers members

end

theorem contentItems_eq_map (items : List Json) : contentItems items = items.map content := by
  induction items with
  | nil => rfl
  | cons item items ih => rw [contentItems, ih, List.map_cons]

theorem contentMembers_eq_map (members : List (String × Json)) :
    contentMembers members = members.map fun member => (member.1, content member.2) := by
  induction members with
  | nil => rfl
  | cons member members ih => rw [contentMembers, ih, List.map_cons]

theorem find?_contentMembers (name : String) (members : List (String × Json)) :
    Table.find? name (contentMembers members) = (Table.find? name members).map content := by
  rw [contentMembers_eq_map, Table.find?_map]

theorem names_contentMembers (members : List (String × Json)) :
    Table.names (contentMembers members) = Table.names members := by
  rw [contentMembers_eq_map]
  exact List.map_map

/-- The members of every object at every depth are in order, under distinct names. Data of the
    inductive type need not be so, but all that is made of tables is. -/
inductive Ordered : Json → Prop
  | null : Ordered .null
  | boolean (b : Bool) : Ordered (.boolean b)
  | number (n : Number) : Ordered (.number n)
  | string (s : String) : Ordered (.string s)
  | array {items : List Json} (h : ∀ item ∈ items, Ordered item) : Ordered (.array items)
  | object {members : List (String × Json)} (hnames : Table.Ascending members)
      (h : ∀ member ∈ members, Ordered member.2) : Ordered (.object members)

theorem Ordered.items {items : List Json} (h : Ordered (.array items)) :
    ∀ item ∈ items, Ordered item := by
  cases h with
  | array h => exact h

theorem Ordered.ascending {members : List (String × Json)} (h : Ordered (.object members)) :
    Table.Ascending members := by
  cases h with
  | object hnames _ => exact hnames

theorem Ordered.members {members : List (String × Json)} (h : Ordered (.object members)) :
    ∀ member ∈ members, Ordered member.2 := by
  cases h with
  | object _ h => exact h

/-! ## Strict equality -/

/-- Two lists of data in order have the same contents if and only if they have equally
    many members and each member of the one is there in the other with the same content. -/
theorem contentMembers_eq_iff {members others : List (String × Json)}
    (hmembers : Table.Ascending members) (hothers : Table.Ascending others) :
    contentMembers members = contentMembers others ↔
      members.length = others.length ∧ ∀ member ∈ members,
        ∃ other, Table.find? member.1 others = some other ∧ member.2.content = other.content := by
  have hlengths : ∀ table : List (String × Json), (contentMembers table).length = table.length := by
    intro table
    rw [contentMembers_eq_map, List.length_map]
  have hascending : ∀ {table : List (String × Json)}, Table.Ascending table →
      Table.Ascending (contentMembers table) := by
    intro table htable
    rwa [Table.Ascending, names_contentMembers]
  have hfound : ∀ member ∈ members, (member.1, member.2.content) ∈ contentMembers others ↔
      ∃ other, Table.find? member.1 others = some other ∧ member.2.content = other.content := by
    intro member _
    rw [← Table.find?_eq_some_iff (hascending hothers).nodup, find?_contentMembers,
      Option.map_eq_some_iff]
    simp only [eq_comm]
  constructor
  · intro heq
    refine ⟨by rw [← hlengths members, heq, hlengths], fun member hmember => ?_⟩
    rw [← hfound member hmember, ← heq, contentMembers_eq_map]
    exact List.mem_map.2 ⟨member, hmember, rfl⟩
  · -- as many names on both sides, so that there are no others in the second table
    rintro ⟨hlength, hall⟩
    refine Table.eq_of_subset (hascending hmembers) (hascending hothers) ?_ ?_
    · rw [hlengths, hlengths, hlength]
    · intro entry hentry
      rw [contentMembers_eq_map] at hentry
      obtain ⟨member, hmember, rfl⟩ := List.mem_map.1 hentry
      exact (hfound member hmember).2 (hall member hmember)

mutual

/-- Data is strictly equal if and only if it has the same content. -/
theorem strictEquals_iff_content_eq : ∀ {a b : Json}, a.Ordered → b.Ordered →
    (a.strictEquals b = true ↔ a.content = b.content)
  | .null, b, _, _ => by cases b <;> simp [strictEquals, content]
  | .boolean _, b, _, _ => by cases b <;> simp [strictEquals, content]
  | .string _, b, _, _ => by cases b <;> simp [strictEquals, content]
  | .number m, b, _, _ => by
    cases b with
    | number n =>
      have hm := m.position?_ne_none
      have hn := n.position?_ne_none
      rw [strictEquals, content, content, Extended.equals, Content.number.injEq]
      split
      · rename_i p q hp hq
        rw [hp, hq, beq_iff_eq, Option.some_inj]
      · -- a number of JSON data is never nowhere
        rename_i hnone
        obtain ⟨p, hp⟩ := Option.ne_none_iff_exists'.1 hm
        obtain ⟨q, hq⟩ := Option.ne_none_iff_exists'.1 hn
        exact absurd hq (hnone p q hp)
    | _ => simp [strictEquals, content]
  | .array items, b, ha, hb => by
    cases b with
    | array others =>
      rw [strictEquals, content, content, Content.array.injEq]
      exact strictEqualsItems_iff ha.items hb.items
    | _ => simp [strictEquals, content]
  | .object members, b, ha, hb => by
    cases b with
    | object others =>
      rw [strictEquals, content, content, Content.object.injEq,
        contentMembers_eq_iff ha.ascending hb.ascending, Bool.and_eq_true, beq_iff_eq,
        strictEqualsMembers_iff ha.members hb.members]
    | _ => simp [strictEquals, content]

theorem strictEqualsItems_iff : ∀ {items others : List Json}, (∀ item ∈ items, item.Ordered) →
    (∀ item ∈ others, item.Ordered) →
    (strictEqualsItems items others = true ↔ contentItems items = contentItems others)
  | [], others, _, _ => by cases others <;> simp [strictEqualsItems, contentItems]
  | item :: items, [], _, _ => by simp [strictEqualsItems, contentItems]
  | item :: items, other :: others, hitems, hothers => by
    obtain ⟨hitem, hitems⟩ := List.forall_mem_cons.1 hitems
    obtain ⟨hother, hothers⟩ := List.forall_mem_cons.1 hothers
    rw [strictEqualsItems, contentItems, contentItems, Bool.and_eq_true, List.cons.injEq,
      strictEquals_iff_content_eq hitem hother, strictEqualsItems_iff hitems hothers]

theorem strictEqualsMembers_iff : ∀ {members others : List (String × Json)},
    (∀ member ∈ members, member.2.Ordered) → (∀ member ∈ others, member.2.Ordered) →
    (strictEqualsMembers members others = true ↔ ∀ member ∈ members,
      ∃ other, Table.find? member.1 others = some other ∧ member.2.content = other.content)
  | [], others, _, _ => by simp [strictEqualsMembers]
  | (name, data) :: members, others, hmembers, hothers => by
    obtain ⟨hdata, hmembers⟩ := List.forall_mem_cons.1 hmembers
    rw [strictEqualsMembers, Bool.and_eq_true, List.forall_mem_cons,
      strictEqualsMembers_iff hmembers hothers]
    refine and_congr_left fun _ => ?_
    cases hfind : Table.find? name others with
    | none => simp
    | some other =>
      have hother : other.Ordered := hothers _ (Table.mem_of_find? hfind)
      simp [strictEquals_iff_content_eq hdata hother]

end

end Json

end FormRules
