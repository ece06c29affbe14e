/-
  FormRules.Proofs.Equivalence

  Strict equality is an equivalence of data.

  It goes down through arrays and objects, where numbers are compared by their places on
  the line, which an integer may share with a double or with another integer. Two objects
  are compared from one side only: they have equally many members, and each member of the
  first one has an equal one in the second. If no name is repeated this leaves no name for
  the second object alone (`Table.names_subset_of_length_eq`), so that the comparison is
  one of all names and of the data under each of them (`strictEquals_object_iff`), and comes
  out the same from the other side.

  Nothing is said about the order of members, which carries no meaning.

  Main statement: `strictEquals_equivalence`.
-/

import FormRules.Proofs.Content
import Mathlib.Data.List.Forall2
import Mathlib.Data.List.Perm.Subperm

namespace FormRules

namespace Table

variable {α β : Type} {list : List (String × α)} {other : List (String × β)}

/-- If one of two equally long lists has only names of the other one, and none of them
    twice, it has all of them. -/
theorem names_subset_of_length_eq (hnodup : (names list).Nodup)
    (hlength : list.length = other.length) (hsubset : names list ⊆ names other) :
    names other ⊆ names list := by
  have hle : (names other).length ≤ (names list).length := by
    simp only [names, List.length_map]
    omega
  have hperm : (names list).Perm (names other) :=
    (List.subperm_of_subset hnodup hsubset).perm_of_length_le hle
  exact hperm.symm.subset

/-- Lists without repeated names are equally long if they have the same names. -/
theorem length_eq_of_names (hlist : (names list).Nodup) (hother : (names other).Nodup)
    (h : ∀ name, name ∈ names list ↔ name ∈ names other) : list.length = other.length := by
  have hperm : (names list).Perm (names other) := (List.perm_ext_iff_of_nodup hlist hother).2 h
  have hlength := hperm.length_eq
  simpa only [names, List.length_map] using hlength

/-- A name that is in a list has an entry. -/
theorem exists_find?_of_mem_names {name : String} (h : name ∈ names list) :
    ∃ entry, find? name list = some entry := by
  cases hfind : find? name list with
  | none => exact absurd h (find?_eq_none_iff.1 hfind)
  | some entry => exact ⟨entry, rfl⟩

theorem mem_names_of_find? {name : String} {entry : α} (h : find? name list = some entry) :
    name ∈ names list :=
  List.mem_map.2 ⟨(name, entry), mem_of_find? h, rfl⟩

end Table

/-! ## Numbers -/

namespace Extended

variable {x y z : Extended}

/-- Two numbers are equal if they lie at one place, which excludes what is no number. -/
theorem equals_iff : x.equals y = true ↔ ∃ p, x.position? = some p ∧ y.position? = some p := by
  unfold equals
  cases x.position? with
  | none => simp
  | some p =>
    cases y.position? with
    | none => simp
    | some q =>
      simp only [beq_iff_eq, Option.some_inj]
      exact ⟨fun h => ⟨p, rfl, h.symm⟩, by rintro ⟨_, rfl, rfl⟩; rfl⟩

theorem equals_comm (x y : Extended) : x.equals y = y.equals x := by
  rw [Bool.eq_iff_iff, equals_iff, equals_iff]
  exact exists_congr fun p => and_comm

theorem equals_trans (h : x.equals y = true) (h' : y.equals z = true) : x.equals z = true := by
  obtain ⟨p, hx, hy⟩ := equals_iff.1 h
  obtain ⟨q, hy', hz⟩ := equals_iff.1 h'
  obtain rfl : p = q := Option.some.inj (hy.symm.trans hy')
  exact equals_iff.2 ⟨p, hx, hz⟩

end Extended

/-- A number of JSON data is a number, and so it equals itself. -/
theorem Number.equals_self (n : Number) : n.toExtended.equals n.toExtended = true := by
  obtain ⟨p, hp⟩ := Option.ne_none_iff_exists'.1 n.position?_ne_none
  exact Extended.equals_iff.2 ⟨p, hp, hp⟩

namespace Json

/-! ## Parts -/

/-- No object at any depth has two members of one name. -/
inductive Distinct : Json → Prop
  | null : Distinct .null
  | boolean (b : Bool) : Distinct (.boolean b)
  | number (n : Number) : Distinct (.number n)
  | string (s : String) : Distinct (.string s)
  | array {items : List Json} (h : ∀ item ∈ items, Distinct item) : Distinct (.array items)
  | object {members : List (String × Json)} (hnames : (Table.names members).Nodup)
      (h : ∀ member ∈ members, Distinct member.2) : Distinct (.object members)

theorem Distinct.items {items : List Json} (h : Distinct (.array items)) :
    ∀ item ∈ items, Distinct item := by
  cases h with
  | array h => exact h

theorem Distinct.names {members : List (String × Json)} (h : Distinct (.object members)) :
    (Table.names members).Nodup := by
  cases h with
  | object hnames _ => exact hnames

theorem Distinct.members {members : List (String × Json)} (h : Distinct (.object members)) :
    ∀ member ∈ members, Distinct member.2 := by
  cases h with
  | object _ h => exact h

/-- Items are compared one by one. -/
theorem strictEqualsItems_iff_forall₂ {items others : List Json} :
    strictEqualsItems items others = true ↔
      List.Forall₂ (fun a b => a.strictEquals b = true) items others := by
  induction items generalizing others with
  | nil => cases others <;> simp [strictEqualsItems]
  | cons item items ih =>
    cases others with
    | nil => simp [strictEqualsItems]
    | cons other others =>
      rw [strictEqualsItems, Bool.and_eq_true, ih, List.forall₂_cons]

/-- Each member is compared with the one that is found under its name. -/
theorem strictEqualsMembers_iff_forall {members others : List (String × Json)} :
    strictEqualsMembers members others = true ↔ ∀ member ∈ members,
      ∃ other, Table.find? member.1 others = some other ∧
        member.2.strictEquals other = true := by
  induction members with
  | nil => simp [strictEqualsMembers]
  | cons member members ih =>
    rw [strictEqualsMembers, Bool.and_eq_true, ih, List.forall_mem_cons]
    refine and_congr_left fun _ => ?_
    cases Table.find? member.1 others <;> simp

/-! ## Objects -/

section Objects

variable {members others : List (String × Json)}

/-- Two objects are strictly equal if and only if they have the same names and strictly
    equal data under each of them. -/
theorem strictEquals_object_iff (hmembers : (Table.names members).Nodup)
    (hothers : (Table.names others).Nodup) :
    strictEquals (.object members) (.object others) = true ↔
      (∀ name, name ∈ Table.names members ↔ name ∈ Table.names others) ∧
      ∀ name a b, Table.find? name members = some a → Table.find? name others = some b →
        a.strictEquals b = true := by
  rw [strictEquals, Bool.and_eq_true, beq_iff_eq, strictEqualsMembers_iff_forall]
  constructor
  · rintro ⟨hlength, hall⟩
    have hsubset : Table.names members ⊆ Table.names others := by
      intro name hname
      obtain ⟨member, hmember, rfl⟩ := List.mem_map.1 hname
      obtain ⟨other, hother, -⟩ := hall member hmember
      exact Table.mem_names_of_find? hother
    -- counting leaves no name for the second object alone
    have hsuperset : Table.names others ⊆ Table.names members :=
      Table.names_subset_of_length_eq hmembers hlength hsubset
    refine ⟨fun name => ⟨fun hname => hsubset hname, fun hname => hsuperset hname⟩, ?_⟩
    intro name a b ha hb
    obtain ⟨other, hother, hequal⟩ := hall (name, a) (Table.mem_of_find? ha)
    obtain rfl : other = b := Option.some.inj (hother.symm.trans hb)
    exact hequal
  · rintro ⟨hnames, hall⟩
    refine ⟨Table.length_eq_of_names hmembers hothers hnames, ?_⟩
    intro member hmember
    have hname : member.1 ∈ Table.names others :=
      (hnames member.1).1 (List.mem_map.2 ⟨member, hmember, rfl⟩)
    obtain ⟨other, hother⟩ := Table.exists_find?_of_mem_names hname
    have hfound : Table.find? member.1 members = some member.2 :=
      (Table.find?_eq_some_iff hmembers).2 hmember
    exact ⟨other, hother, hall member.1 member.2 other hfound hother⟩

end Objects

/-! ## The laws -/

/-- Data is strictly equal to itself. -/
theorem Distinct.strictEquals_self {a : Json} (h : a.Distinct) : a.strictEquals a = true := by
  induction h with
  | null => rfl
  | boolean | string => simp [strictEquals]
  | number n => exact n.equals_self
  | array _ ih =>
    rw [strictEquals, strictEqualsItems_iff_forall₂, List.forall₂_same]
    exact ih
  | object hnames _ ih =>
    rw [strictEquals_object_iff hnames hnames]
    refine ⟨fun name => Iff.rfl, ?_⟩
    intro name a b ha hb
    obtain rfl : a = b := Option.some.inj (ha.symm.trans hb)
    exact ih (name, a) (Table.mem_of_find? ha)

/-- Strict equality can be turned around. -/
theorem Distinct.strictEquals_symm {a : Json} (ha : a.Distinct) :
    ∀ {b : Json}, b.Distinct → a.strictEquals b = true → b.strictEquals a = true := by
  -- by induction on the first side, and the second one is of the same kind each time
  induction ha with
  | null | boolean | string =>
    intro b _ h
    cases b <;> simp_all [strictEquals]
  | number m =>
    intro b _ h
    cases b with
    | number n =>
      rw [strictEquals] at h ⊢
      rwa [Extended.equals_comm]
    | _ => simp [strictEquals] at h
  | array _ ih =>
    intro b hb h
    cases b with
    | array others =>
      rw [strictEquals, strictEqualsItems_iff_forall₂] at h ⊢
      obtain ⟨hlength, hpairs⟩ := List.forall₂_iff_zip.1 h.flip
      refine List.forall₂_iff_zip.2 ⟨hlength, ?_⟩
      intro other item hpair
      obtain ⟨hother, hitem⟩ := List.of_mem_zip hpair
      exact ih item hitem (hb.items other hother) (hpairs hpair)
    | _ => simp [strictEquals] at h
  | object hnames _ ih =>
    intro b hb h
    cases b with
    | object others =>
      obtain ⟨hsame, hall⟩ := (strictEquals_object_iff hnames hb.names).1 h
      refine (strictEquals_object_iff hb.names hnames).2 ⟨fun name => (hsame name).symm, ?_⟩
      intro name other entry hother hentry
      exact ih (name, entry) (Table.mem_of_find? hentry)
        (hb.members (name, other) (Table.mem_of_find? hother)) (hall name entry other hentry hother)
    | _ => simp [strictEquals] at h

mutual

/-- Data that is strictly equal to the same data is strictly equal. -/
theorem strictEquals_trans : ∀ {a b c : Json}, a.strictEquals b = true →
    b.strictEquals c = true → a.strictEquals c = true
  | .null, b, c, h, h' => by
    cases b with
    | null => exact h'
    | _ => simp [strictEquals] at h
  | .boolean x, b, c, h, h' => by
    cases b with
    | boolean y =>
      obtain rfl : x = y := by simpa [strictEquals] using h
      exact h'
    | _ => simp [strictEquals] at h
  | .string x, b, c, h, h' => by
    cases b with
    | string y =>
      obtain rfl : x = y := by simpa [strictEquals] using h
      exact h'
    | _ => simp [strictEquals] at h
  | .number m, b, c, h, h' => by
    cases b with
    | number n =>
      cases c with
      | number k =>
        rw [strictEquals] at h h' ⊢
        exact Extended.equals_trans h h'
      | _ => simp [strictEquals] at h'
    | _ => simp [strictEquals] at h
  | .array items, b, c, h, h' => by
    cases b with
    | array others =>
      cases c with
      | array rest =>
        rw [strictEquals] at h h' ⊢
        exact strictEqualsItems_trans h h'
      | _ => simp [strictEquals] at h'
    | _ => simp [strictEquals] at h
  | .object members, b, c, h, h' => by
    cases b with
    | object others =>
      cases c with
      | object rest =>
        rw [strictEquals, Bool.and_eq_true, beq_iff_eq] at h h' ⊢
        exact ⟨h.1.trans h'.1, strictEqualsMembers_trans h.2 h'.2⟩
      | _ => simp [strictEquals] at h'
    | _ => simp [strictEquals] at h

theorem strictEqualsItems_trans : ∀ {items others rest : List Json},
    strictEqualsItems items others = true → strictEqualsItems others rest = true →
    strictEqualsItems items rest = true
  | [], others, _, h, h' => by
    cases others with
    | nil => exact h'
    | cons => simp [strictEqualsItems] at h
  | item :: items, others, rest, h, h' => by
    cases others with
    | nil => simp [strictEqualsItems] at h
    | cons other others =>
      cases rest with
      | nil => simp [strictEqualsItems] at h'
      | cons last rest =>
        rw [strictEqualsItems, Bool.and_eq_true] at h h' ⊢
        exact ⟨strictEquals_trans h.1 h'.1, strictEqualsItems_trans h.2 h'.2⟩

theorem strictEqualsMembers_trans : ∀ {members others rest : List (String × Json)},
    strictEqualsMembers members others = true → strictEqualsMembers others rest = true →
    strictEqualsMembers members rest = true
  | [], _, _, _, _ => rfl
  | (name, a) :: members, others, rest, h, h' => by
    rw [strictEqualsMembers, Bool.and_eq_true] at h ⊢
    obtain ⟨hfirst, hmembers⟩ := h
    refine ⟨?_, strictEqualsMembers_trans hmembers h'⟩
    split at hfirst
    · rename_i b hb
      -- the data in the middle is a member itself, and so it has its equal in the last object
      obtain ⟨c, hc, hequal⟩ :=
        strictEqualsMembers_iff_forall.1 h' (name, b) (Table.mem_of_find? hb)
      rw [hc]
      exact strictEquals_trans hfirst hequal
    · cases hfirst

end

end Json

/-! ## Values -/

namespace Value

/-- No object in a value has two members of one name. -/
def Distinct (value : Value) : Prop := ∀ data ∈ value, data.Distinct

theorem Distinct.strictEquals_symm {a b : Value} (ha : a.Distinct) (hb : b.Distinct)
    (h : a.strictEquals b = true) : b.strictEquals a = true := by
  cases a with
  | none => cases b <;> simp_all [strictEquals]
  | some a =>
    cases b with
    | none => simp [strictEquals] at h
    | some b => exact (ha a rfl).strictEquals_symm (hb b rfl) h

/-- Strict equality of values is an equivalence: every value equals itself, it does not
    matter which of two values comes first, and values that equal the same value equal each
    other. Two objects are strictly equal exactly if they have the same names and strictly
    equal data under each name. -/
theorem strictEquals_equivalence :
    (∀ {a : Value}, a.Distinct → a.strictEquals a = true) ∧
    (∀ {a b : Value}, a.Distinct → b.Distinct →
      (a.strictEquals b = true ↔ b.strictEquals a = true)) ∧
    (∀ {a b c : Value}, a.strictEquals b = true → b.strictEquals c = true →
      a.strictEquals c = true) ∧
    ∀ {members others : List (String × Json)}, Distinct (some (.object members)) →
      Distinct (some (.object others)) →
      (strictEquals (some (.object members)) (some (.object others)) = true ↔
        (∀ name, name ∈ Table.names members ↔ name ∈ Table.names others) ∧
        ∀ name a b, Table.find? name members = some a → Table.find? name others = some b →
          strictEquals (some a) (some b) = true) := by
  refine ⟨?_, ?_, ?_, ?_⟩
  · intro a ha
    cases a with
    | none => rfl
    | some a => exact (ha a rfl).strictEquals_self
  · intro a b ha hb
    exact ⟨ha.strictEquals_symm hb, hb.strictEquals_symm ha⟩
  · intro a b c h h'
    cases a with
    | none => cases b <;> simp_all [strictEquals]
    | some a =>
      cases b with
      | none => simp [strictEquals] at h
      | some b =>
        cases c with
        | none => simp [strictEquals] at h'
        | some c => exact Json.strictEquals_trans h h'
  · intro members others hmembers hothers
    exact Json.strictEquals_object_iff (hmembers _ rfl).names (hothers _ rfl).names

/-- An integer that no double is equal to and the even one below it both meet the double
    between them, under a name that stands in front of another one or behind it. -/
theorem strictEquals_neighbours :
    let double : Binary64 := ⟨false, 2 ^ 53 * 2 ^ 1074, by decide +kernel⟩
    let odd : Value :=
      some (.object [("x", .number (.integer (2 ^ 53 + 1))), ("y", .array [.null])])
    let between : Value := some (.object [("y", .array [.null]), ("x", .number (.double double))])
    let even : Value := some (.object [("x", .number (.integer (2 ^ 53))), ("y", .array [.null])])
    odd.Distinct ∧ between.Distinct ∧ odd.strictEquals between = true ∧
      between.strictEquals even = true ∧ between.strictEquals odd = true ∧
      odd.strictEquals even = true := by
  intro double odd between even
  have harray : Json.Distinct (.array [.null]) := .array (by simpa using .null)
  have hodd : odd.Distinct := by
    intro data hdata
    obtain rfl := Option.some.inj hdata
    exact .object (by decide) (by simpa using ⟨.number _, harray⟩)
  have hbetween : between.Distinct := by
    intro data hdata
    obtain rfl := Option.some.inj hdata
    exact .object (by decide) (by simpa using ⟨harray, .number _⟩)
  have hleft : odd.strictEquals between = true := by decide +kernel
  have hright : between.strictEquals even = true := by decide +kernel
  obtain ⟨-, hsymm, htrans, -⟩ := strictEquals_equivalence
  exact ⟨hodd, hbetween, hleft, hright, (hsymm hodd hbetween).1 hleft, htrans hleft hright⟩

end Value

end FormRules
