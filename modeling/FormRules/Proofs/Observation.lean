/-
  FormRules.Proofs.Observation

  What can be observed of data is up to its content.

  Data of one content is of one kind (`similar_of_content_eq`), and by cases on the kind
  its truth, its text, its place as a number, its members and its length are the same, or
  of the same content again. Two values are `Alike` if their objects are in order and they
  have the same content; every comparison and every built-in function takes alike
  arguments to alike results.
-/

import FormRules.Proofs.Content
import FormRules.Value.Builtin
import Mathlib.Data.List.Forall2

namespace FormRules

namespace Json

/-! ## Data of one content -/

/-- Two values of one kind and content. -/
inductive Similar : Json → Json → Prop
  | null : Similar .null .null
  | boolean (b : Bool) : Similar (.boolean b) (.boolean b)
  | number {m n : Number} (hplace : m.toExtended.position? = n.toExtended.position?) :
      Similar (.number m) (.number n)
  | string (s : String) : Similar (.string s) (.string s)
  | array {items others : List Json} (hitems : items.map content = others.map content) :
      Similar (.array items) (.array others)
  | object {members others : List (String × Json)}
      (hmembers : contentMembers members = contentMembers others) :
      Similar (.object members) (.object others)

/-- Data of one content is of one kind. -/
theorem similar_of_content_eq {a b : Json} (h : a.content = b.content) : Similar a b := by
  cases a <;> cases b <;>
    simp only [content, contentItems_eq_map, reduceCtorEq, Content.boolean.injEq,
      Content.number.injEq, Content.string.injEq, Content.array.injEq, Content.object.injEq] at h
  case null => exact .null
  case boolean => exact h ▸ .boolean _
  case number => exact .number h
  case string => exact h ▸ .string _
  case array => exact .array h
  case object => exact .object h

/-- Lists of items with the same contents one by one are equally long. -/
theorem length_eq_of_contents {items others : List Json}
    (h : items.map content = others.map content) : items.length = others.length := by
  rw [← List.length_map content, h, List.length_map]

section Observe

variable {a b : Json}

theorem isTruthy_congr (h : a.content = b.content) : a.isTruthy = b.isTruthy := by
  cases similar_of_content_eq h with
  | number hplace => rw [isTruthy, isTruthy, hplace]
  | _ => rfl

/-- What a path segment leads to has the same content again. -/
theorem member_congr (h : a.content = b.content) (segment : String) :
    (a.member segment).map content = (b.member segment).map content := by
  cases similar_of_content_eq h with
  | @array items others hitems =>
    rw [member, member, length_eq_of_contents hitems]
    split
    · rfl
    · -- an index leads to an item of one content in both, or outside both
      cases indexOf? segment with
      | none => rfl
      | some index =>
        show items[index]?.map content = others[index]?.map content
        rw [← List.getElem?_map, hitems, List.getElem?_map]
  | object hmembers =>
    rw [member, member, ← find?_contentMembers, hmembers, find?_contentMembers]
  | _ => rfl

end Observe

mutual

/-- Data of one content has one text. -/
theorem displayText_congr : ∀ {a b : Json}, a.content = b.content → a.displayText = b.displayText
  | .array items, b, h => by
    cases similar_of_content_eq h with
    | array hitems => rw [displayText, displayText, displayItems_congr hitems]
  | .number m, b, h => by
    cases similar_of_content_eq h with
    | number hplace => rw [displayText, displayText, Extended.displayText_congr hplace]
  | .object _, b, h => by
    cases similar_of_content_eq h with
    | object => rw [displayText, displayText]
  | .null, b, h | .boolean _, b, h | .string _, b, h => by
    cases similar_of_content_eq h with
    | _ => rfl

theorem displayItems_congr : ∀ {items others : List Json},
    items.map content = others.map content → displayItems items = displayItems others
  | [], [], _ => rfl
  | [], _ :: _, h | _ :: _, [], h => by cases h
  | item :: items, other :: others, h => by
    obtain ⟨hitem, hitems⟩ := List.cons.inj h
    have htext := displayText_congr hitem
    have hrest := displayItems_congr hitems
    -- an item that is null is empty, and it is so in both
    cases similar_of_content_eq hitem with
    | null => rw [displayItems, displayItems, hrest]
    | _ => rw [displayItems, displayItems, htext, hrest] <;> exact fun hnull => by cases hnull

end

/-! ## Conversions -/

section Convert

variable {a b a' b' : Json}

/-- Data of one content lies at one place as a number. -/
theorem position?_congr (h : a.content = b.content) :
    a.toExtended.position? = b.toExtended.position? := by
  have htext := displayText_congr h
  cases similar_of_content_eq h with
  | number hplace => rw [toExtended, toExtended, hplace]
  | array | object =>
    show (Extended.ofText _).position? = (Extended.ofText _).position?
    rw [htext]
  | _ => rfl

theorem isComposite_congr (h : a.content = b.content) : a.isComposite = b.isComposite := by
  cases similar_of_content_eq h <;> rfl

theorem toPrimitive_congr (h : a.content = b.content) :
    a.toPrimitive.content = b.toPrimitive.content := by
  rw [toPrimitive, toPrimitive, isComposite_congr h, displayText_congr h]
  split
  · -- both are the same text now
    rfl
  · exact h

theorem sameKind_congr (ha : a.content = a'.content) (hb : b.content = b'.content) :
    sameKind a b = sameKind a' b' := by
  cases similar_of_content_eq ha <;> cases similar_of_content_eq hb <;> rfl

theorem Ordered.toPrimitive (h : a.Ordered) : a.toPrimitive.Ordered := by
  rw [Json.toPrimitive]
  split
  · exact .string _
  · exact h

/-- Loose equality of data in order is up to the content. -/
theorem looseEquals_congr (ha : a.Ordered) (ha' : a'.Ordered) (hb : b.Ordered) (hb' : b'.Ordered)
    (has : a.content = a'.content) (hbs : b.content = b'.content) :
    looseEquals a b = looseEquals a' b' := by
  have hstrict : ∀ {x x' y y' : Json}, x.Ordered → x'.Ordered → y.Ordered → y'.Ordered →
      x.content = x'.content → y.content = y'.content → strictEquals x y = strictEquals x' y' := by
    intro x x' y y' hx hx' hy hy' hxs hys
    rw [Bool.eq_iff_iff, strictEquals_iff_content_eq hx hy, strictEquals_iff_content_eq hx' hy',
      hxs, hys]
  have hprimitives : a.toPrimitive.strictEquals b.toPrimitive =
      a'.toPrimitive.strictEquals b'.toPrimitive :=
    hstrict ha.toPrimitive ha'.toPrimitive hb.toPrimitive hb'.toPrimitive
      (toPrimitive_congr has) (toPrimitive_congr hbs)
  have hnumbers : a.toPrimitive.toExtended.equals b.toPrimitive.toExtended =
      a'.toPrimitive.toExtended.equals b'.toPrimitive.toExtended :=
    Extended.equals_congr (position?_congr (toPrimitive_congr has))
      (position?_congr (toPrimitive_congr hbs))
  rw [looseEquals, looseEquals, isComposite_congr has, isComposite_congr hbs,
    hstrict ha ha' hb hb' has hbs]
  dsimp only
  rw [sameKind_congr (toPrimitive_congr has) (toPrimitive_congr hbs), hprimitives, hnumbers]

theorem primitiveOrder?_congr (ha : a.content = a'.content) (hb : b.content = b'.content) :
    primitiveOrder? a b = primitiveOrder? a' b' := by
  have hnumbers := Extended.order?_congr (position?_congr ha) (position?_congr hb)
  cases similar_of_content_eq ha with
  | string =>
    -- only two strings are not compared as numbers
    cases similar_of_content_eq hb with
    | string => rfl
    | _ => exact hnumbers
  | _ => exact hnumbers

end Convert

end Json

/-! ## Values -/

namespace Value

/-- The content of a value. -/
def content (value : Value) : Option Content := value.map Json.content

/-- The objects of a value are in order. -/
def Ordered (value : Value) : Prop := ∀ data ∈ value, data.Ordered

/-- Two values whose objects are in order, with the same content. -/
structure Alike (a b : Value) : Prop where
  left : a.Ordered
  right : b.Ordered
  content : a.content = b.content

theorem ordered_none : Ordered none := by
  intro data hdata
  cases hdata

theorem ordered_some {data : Json} (h : data.Ordered) : Ordered (some data) := by
  intro other hother
  obtain rfl := Option.some.inj hother
  exact h

/-- Values are strictly equal if and only if they have the same content. -/
theorem strictEquals_iff_content_eq {a b : Value} (ha : a.Ordered) (hb : b.Ordered) :
    a.strictEquals b = true ↔ a.content = b.content := by
  cases a with
  | none => cases b <;> simp [strictEquals, content]
  | some a =>
    cases b with
    | none => simp [strictEquals, content]
    | some b =>
      show Json.strictEquals a b = true ↔ some a.content = some b.content
      rw [Json.strictEquals_iff_content_eq (ha a rfl) (hb b rfl), Option.some_inj]

theorem strictEquals_iff_alike {a b : Value} (ha : a.Ordered) (hb : b.Ordered) :
    a.strictEquals b = true ↔ a.Alike b :=
  ⟨fun h => ⟨ha, hb, (strictEquals_iff_content_eq ha hb).1 h⟩,
    fun h => (strictEquals_iff_content_eq ha hb).2 h.content⟩

theorem Alike.strictlyEqual {a b : Value} (h : a.Alike b) : a.strictEquals b = true :=
  (strictEquals_iff_alike h.left h.right).2 h

theorem alike_refl {value : Value} (h : value.Ordered) : value.Alike value := ⟨h, h, rfl⟩

theorem alike_none : Alike none none := alike_refl ordered_none

theorem alike_some {x y : Json} (hx : x.Ordered) (hy : y.Ordered) (h : x.content = y.content) :
    Alike (some x) (some y) :=
  ⟨ordered_some hx, ordered_some hy, congrArg some h⟩

theorem alike_ofBool (b : Bool) : (ofBool b).Alike (ofBool b) :=
  alike_refl (ordered_some (.boolean b))

/-- Values that are alike are both undefined, or data of one content. -/
theorem Alike.cases {a b : Value} (h : a.Alike b) :
    (a = none ∧ b = none) ∨ ∃ x y : Json, a = some x ∧ b = some y ∧ x.Ordered ∧ y.Ordered ∧
      x.content = y.content := by
  obtain ⟨ha, hb, hcontent⟩ := h
  cases a with
  | none =>
    cases b with
    | none => exact Or.inl ⟨rfl, rfl⟩
    | some y => cases hcontent
  | some x =>
    cases b with
    | none => cases hcontent
    | some y => exact Or.inr ⟨x, y, rfl, rfl, ha x rfl, hb y rfl, Option.some.inj hcontent⟩

end Value

/-! ## Members -/

theorem Json.Ordered.member {data : Json} (h : data.Ordered) (segment : String) :
    Value.Ordered (data.member segment) := by
  cases h with
  | string s =>
    rw [Json.member]
    split
    · exact Value.ordered_some (.number _)
    · exact Value.ordered_none
  | @array items h =>
    rw [Json.member]
    split
    · exact Value.ordered_some (.number _)
    · intro item hitem
      obtain ⟨index, -, hindex⟩ := Option.bind_eq_some_iff.1 hitem
      exact h item (List.mem_of_getElem? hindex)
  | object hnames h =>
    intro entry hentry
    exact h _ (Table.mem_of_find? hentry)
  | _ => exact Value.ordered_none

namespace Value

section Alike

variable {a b a' b' : Value}

theorem Alike.member (h : a.Alike b) (segment : String) :
    (a.member segment).Alike (b.member segment) := by
  rcases h.cases with ⟨rfl, rfl⟩ | ⟨x, y, rfl, rfl, hx, hy, hcontent⟩
  · exact alike_none
  · exact ⟨hx.member segment, hy.member segment, Json.member_congr hcontent segment⟩

theorem Alike.isTruthy (h : a.Alike b) : a.isTruthy = b.isTruthy := by
  rcases h.cases with ⟨rfl, rfl⟩ | ⟨x, y, rfl, rfl, -, -, hcontent⟩
  · rfl
  · exact Json.isTruthy_congr hcontent

theorem Alike.isNullish (h : a.Alike b) : a.isNullish = b.isNullish := by
  rcases h.cases with ⟨rfl, rfl⟩ | ⟨x, y, rfl, rfl, -, -, hcontent⟩
  · rfl
  · cases Json.similar_of_content_eq hcontent <;> rfl

/-! ## Comparisons -/

theorem Alike.strictEquals_eq (ha : a.Alike a') (hb : b.Alike b') :
    a.strictEquals b = a'.strictEquals b' := by
  rw [Bool.eq_iff_iff, strictEquals_iff_content_eq ha.left hb.left,
    strictEquals_iff_content_eq ha.right hb.right, ha.content, hb.content]

theorem Alike.looseEquals_eq (ha : a.Alike a') (hb : b.Alike b') :
    a.looseEquals b = a'.looseEquals b' := by
  unfold looseEquals
  rw [ha.isNullish, hb.isNullish]
  split
  · rfl
  · rcases ha.cases with ⟨rfl, rfl⟩ | ⟨x, x', rfl, rfl, hx, hx', hxs⟩
    · rfl
    · rcases hb.cases with ⟨rfl, rfl⟩ | ⟨y, y', rfl, rfl, hy, hy', hys⟩
      · rfl
      · exact Json.looseEquals_congr hx hx' hy hy' hxs hys

theorem Alike.order?_eq (ha : a.Alike a') (hb : b.Alike b') : a.order? b = a'.order? b' := by
  rcases ha.cases with ⟨rfl, rfl⟩ | ⟨x, x', rfl, rfl, -, -, hx⟩
  · rfl
  · rcases hb.cases with ⟨rfl, rfl⟩ | ⟨y, y', rfl, rfl, -, -, hy⟩
    · rfl
    · exact Json.primitiveOrder?_congr (Json.toPrimitive_congr hx) (Json.toPrimitive_congr hy)

/-- A comparison holds between two values if and only if it holds between values that are
    like them. -/
theorem Alike.holds_eq (op : Comparison) (ha : a.Alike a') (hb : b.Alike b') :
    op.holds a b = op.holds a' b' := by
  have hstrict := ha.strictEquals_eq hb
  have hloose := ha.looseEquals_eq hb
  have horder := ha.order?_eq hb
  cases op <;> simp only [Comparison.holds, hstrict, hloose, horder]

/-! ## Functions -/

theorem Alike.isEmpty (h : a.Alike b) : Builtin.isEmpty a = Builtin.isEmpty b := by
  rcases h.cases with ⟨rfl, rfl⟩ | ⟨x, y, rfl, rfl, -, -, hcontent⟩
  · rfl
  · cases Json.similar_of_content_eq hcontent with
    | @array items others hitems =>
      cases items <;> cases others
      · rfl
      · cases hitems
      · cases hitems
      · rfl
    | _ => rfl

theorem Alike.lengthOf (h : a.Alike b) : (Builtin.lengthOf a).Alike (Builtin.lengthOf b) := by
  rcases h.cases with ⟨rfl, rfl⟩ | ⟨x, y, rfl, rfl, -, -, hcontent⟩
  · exact alike_none
  · cases Json.similar_of_content_eq hcontent with
    | string s => exact alike_refl (ordered_some (.number _))
    | @array items others hitems =>
      rw [Builtin.lengthOf, Builtin.lengthOf, Json.length_eq_of_contents hitems]
      exact alike_refl (ordered_some (.number _))
    | _ => exact alike_none

/-- Whether a value is among some items is up to its content and theirs. -/
theorem Alike.any_strictEquals (ha : a.Alike a') {items others : List Json}
    (hitems : ∀ item ∈ items, item.Ordered) (hothers : ∀ item ∈ others, item.Ordered)
    (h : items.map Json.content = others.map Json.content) :
    items.any (fun item => a.strictEquals (some item)) =
      others.any fun item => a'.strictEquals (some item) := by
  induction items generalizing others with
  | nil =>
    obtain rfl : others = [] := by simpa using h
    rfl
  | cons item items ih =>
    obtain ⟨other, others, rfl, hcontent, hrest⟩ := List.map_eq_cons_iff.1 h.symm
    obtain ⟨hitem, hitems⟩ := List.forall_mem_cons.1 hitems
    obtain ⟨hother, hothers⟩ := List.forall_mem_cons.1 hothers
    have hfirst : a.strictEquals (some item) = a'.strictEquals (some other) :=
      ha.strictEquals_eq (alike_some hitem hother hcontent.symm)
    rw [List.any_cons, List.any_cons, hfirst, ih hitems hothers hrest.symm]

theorem Alike.isAmong (ha : a.Alike a') (hb : b.Alike b') :
    Builtin.isAmong a b = Builtin.isAmong a' b' := by
  rcases hb.cases with ⟨rfl, rfl⟩ | ⟨x, y, rfl, rfl, hx, hy, hcontent⟩
  · rfl
  · cases Json.similar_of_content_eq hcontent with
    | array hitems => exact ha.any_strictEquals hx.items hy.items hitems
    | _ => rfl

end Alike

end Value

namespace Builtin

open Value

/-- The argument at a place is like the one there in a list of arguments alike. -/
theorem alike_argument {arguments others : List Value}
    (h : List.Forall₂ Value.Alike arguments others) (place : Nat) :
    (argument arguments place).Alike (argument others place) := by
  induction h generalizing place with
  | nil => exact alike_none
  | cons hfirst _ ih =>
    cases place with
    | zero => exact hfirst
    | succ place => exact ih place

/-- A call takes arguments that are alike one by one to results that are alike. -/
theorem alike_apply (function : Builtin) {arguments others : List Value}
    (h : List.Forall₂ Value.Alike arguments others) :
    (function.apply arguments).Alike (function.apply others) := by
  have hfirst := alike_argument h 0
  have hsecond := alike_argument h 1
  have hempty := hfirst.isEmpty
  have hnullish := hfirst.isNullish
  have hamong := hfirst.isAmong hsecond
  cases function with
  | length => exact hfirst.lengthOf
  | _ =>
    simp only [apply, hempty, hnullish, hamong]
    exact alike_ofBool _

end Builtin

end FormRules
