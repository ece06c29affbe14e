/-
  FormRules.Proofs.Coercion

  Loose equality as a rule of conversions.

  Data is of one of four kinds, null apart: boolean, number, text, or an array or object.
  Of one kind it is compared without conversion. Of two kinds it is compared as two texts
  if both sides are texts once an array or object has become its text, and otherwise as two
  numbers (`looseEquals_iff_of_kinds_ne`). Two texts are not compared as numbers, even if
  only one of them was a text from the beginning.

  The rule is the same from both sides, and a value that is of the kind of itself needs no
  conversion: this makes loose equality symmetric and reflexive.

  Main statement: `looseEquals_coerces`.
-/

import FormRules.Proofs.Coherence
import FormRules.Proofs.Equivalence

namespace FormRules

namespace Json

/-! ## Kinds -/

/-- The kinds of data within which loose equality converts nothing. -/
inductive Kind where
  | boolean
  | number
  | text
  | composite
deriving DecidableEq

/-- The kind of data. Null is of none. -/
def kind? : Json → Option Kind
  | .null => none
  | .boolean _ => some .boolean
  | .number _ => some .number
  | .string _ => some .text
  | .array _ | .object _ => some .composite

variable {a b : Json} {kind other : Kind}

theorem isComposite_iff_kind? : a.isComposite = true ↔ a.kind? = some .composite := by
  cases a <;> simp [isComposite, kind?]

/-- Data without parts is left as it is. -/
theorem toPrimitive_of_isComposite (h : a.isComposite = false) : a.toPrimitive = a := by
  rw [toPrimitive, h, if_neg Bool.false_ne_true]

theorem isComposite_toPrimitive (a : Json) : a.toPrimitive.isComposite = false := by
  cases a <;> rfl

/-- Data without parts needs no conversion if it is of one kind. -/
theorem sameKind_of_kind? (ha : a.kind? = some kind) (hb : b.kind? = some kind)
    (hne : kind ≠ .composite) : sameKind a b = true := by
  cases kind with
  | composite => exact absurd rfl hne
  | boolean | number | text =>
    cases a <;> cases ha
    cases b <;> cases hb
    rfl

/-- Of one kind, data is loosely equal if it is strictly equal. -/
theorem looseEquals_of_kind? (ha : a.kind? = some kind) (hb : b.kind? = some kind) :
    looseEquals a b = strictEquals a b := by
  by_cases hkind : kind = .composite
  · subst hkind
    rw [looseEquals, isComposite_iff_kind?.2 ha, isComposite_iff_kind?.2 hb, Bool.and_self,
      if_pos rfl]
  · -- without arrays and objects, two sides of one kind are left as they are
    have hparts {data : Json} (h : data.kind? = some kind) : data.isComposite = false :=
      Bool.eq_false_iff.2 fun hcomposite =>
        hkind (Option.some.inj (h.symm.trans (isComposite_iff_kind?.1 hcomposite)))
    rw [looseEquals, hparts ha, hparts hb, Bool.and_self, if_neg Bool.false_ne_true]
    dsimp only
    rw [toPrimitive_of_isComposite (hparts ha), toPrimitive_of_isComposite (hparts hb),
      if_pos (sameKind_of_kind? ha hb hkind)]

/-- Unless both sides are arrays or objects, they are compared without their parts. -/
theorem looseEquals_toPrimitive (h : (a.isComposite && b.isComposite) = false) :
    looseEquals a b = looseEquals a.toPrimitive b.toPrimitive := by
  rw [looseEquals, looseEquals, h, isComposite_toPrimitive, Bool.false_and,
    if_neg Bool.false_ne_true, if_neg Bool.false_ne_true]
  dsimp only
  rw [toPrimitive_of_isComposite (isComposite_toPrimitive a),
    toPrimitive_of_isComposite (isComposite_toPrimitive b)]

/-- The two sides of a comparison between two kinds are not both arrays or objects. -/
theorem isComposite_and_of_kinds_ne (hne : kind ≠ other) (ha : a.kind? = some kind)
    (hb : b.kind? = some other) : (a.isComposite && b.isComposite) = false := by
  refine Bool.eq_false_iff.2 fun hboth => hne ?_
  obtain ⟨hcomposite, hcomposite'⟩ := Bool.and_eq_true_iff.1 hboth
  rw [isComposite_iff_kind?.1 hcomposite] at ha
  rw [isComposite_iff_kind?.1 hcomposite'] at hb
  exact Option.some.inj (ha.symm.trans hb)

end Json

namespace Value

variable {a b : Value}

/-! ## The rule -/

/-- The kind of a value. What is undefined or null is of none. -/
def kind? (value : Value) : Option Json.Kind := value.bind Json.kind?

/-- The number that a value converts to, not a number included. -/
def number? (value : Value) : Option Extended := value.map Json.toExtended

/-- Both values are booleans, numbers, texts, or arrays or objects. -/
def SameKind (a b : Value) : Prop := ∃ kind, a.kind? = some kind ∧ b.kind? = some kind

/-- Both values are defined and not null, and they are of two kinds. -/
def KindsDiffer (a b : Value) : Prop :=
  ∃ kind other, kind ≠ other ∧ a.kind? = some kind ∧ b.kind? = some other

/-- Both values are the same text, where an array or object counts as its text. -/
def SameText (a b : Value) : Prop :=
  ∃ s, a.primitive = some (.string s) ∧ b.primitive = some (.string s)

/-- Both values convert to numbers, and these are equal. -/
def SameNumber (a b : Value) : Prop :=
  ∃ x y, a.primitive.number? = some x ∧ b.primitive.number? = some y ∧
    x ≠ .nan ∧ y ≠ .nan ∧ x.equals y = true

theorem kind?_eq_none_iff : a.kind? = none ↔ a.isNullish = true := by
  cases a with
  | none => exact iff_of_true rfl rfl
  | some data => cases data <;> simp [kind?, Json.kind?, isNullish]

/-- A value that is neither undefined nor null is data of some kind. -/
theorem exists_kind? (h : ¬a.isNullish = true) :
    ∃ data kind, a = some data ∧ data.kind? = some kind := by
  obtain ⟨kind, hkind⟩ := Option.ne_none_iff_exists'.1 (mt kind?_eq_none_iff.1 h)
  obtain ⟨data, rfl, hdata⟩ := Option.bind_eq_some_iff.1 hkind
  exact ⟨data, kind, rfl, hdata⟩

/-- Two values with kinds are both defined and not null. -/
theorem not_isNullish_of_kinds {kind other : Json.Kind} (ha : a.kind? = some kind)
    (hb : b.kind? = some other) : ¬(a.isNullish || b.isNullish) = true := by
  rw [Bool.or_eq_true, ← kind?_eq_none_iff, ← kind?_eq_none_iff, ha, hb]
  rintro (h | h) <;> cases h

theorem SameKind.not_kindsDiffer (h : SameKind a b) : ¬KindsDiffer a b := by
  obtain ⟨kind, ha, hb⟩ := h
  rintro ⟨first, second, hne, hfirst, hsecond⟩
  obtain rfl : kind = first := Option.some.inj (ha.symm.trans hfirst)
  exact hne (Option.some.inj (hb.symm.trans hsecond))

theorem SameKind.symm (h : SameKind a b) : SameKind b a := by
  obtain ⟨kind, ha, hb⟩ := h
  exact ⟨kind, hb, ha⟩

theorem KindsDiffer.symm (h : KindsDiffer a b) : KindsDiffer b a := by
  obtain ⟨kind, other, hne, ha, hb⟩ := h
  exact ⟨other, kind, hne.symm, hb, ha⟩

theorem AreTexts.symm (h : AreTexts a b) : AreTexts b a := by
  obtain ⟨s, t, ha, hb⟩ := h
  exact ⟨t, s, hb, ha⟩

theorem SameText.symm (h : SameText a b) : SameText b a := by
  obtain ⟨s, ha, hb⟩ := h
  exact ⟨s, hb, ha⟩

theorem SameNumber.symm (h : SameNumber a b) : SameNumber b a := by
  obtain ⟨x, y, ha, hb, hx, hy, hequals⟩ := h
  exact ⟨y, x, hb, ha, hy, hx, by rwa [Extended.equals_comm]⟩

/-- Values tie if they are the same text, or are not both texts but the same number. -/
theorem ties_iff : Ties a b ↔ SameText a b ∨ ¬AreTexts a b ∧ SameNumber a b := by
  constructor
  · rintro (⟨ha, hb⟩ | ⟨htexts, hequals⟩)
    · exact Or.inl ⟨_, congrArg some ha, congrArg some hb⟩
    · refine Or.inr ⟨htexts, _, _, rfl, rfl, ?_, ?_, hequals⟩
      · intro hnan
        rw [hnan] at hequals
        cases hequals
      · intro hnan
        rw [hnan, Extended.equals_comm] at hequals
        cases hequals
  · rintro (⟨s, ha, hb⟩ | ⟨htexts, x, y, ha, hb, -, -, hequals⟩)
    · obtain ⟨data, rfl, hdata⟩ := Option.map_eq_some_iff.1 ha
      obtain ⟨data', rfl, hdata'⟩ := Option.map_eq_some_iff.1 hb
      exact .texts hdata hdata'
    · cases a with
      | none => cases ha
      | some data =>
        cases b with
        | none => cases hb
        | some data' =>
          cases ha
          cases hb
          exact .numbers htexts hequals

/-! ## Loose equality follows the rule -/

/-- With an undefined or null side, the other one has to be undefined or null. -/
theorem looseEquals_of_isNullish (h : (a.isNullish || b.isNullish) = true) :
    a.looseEquals b = (a.isNullish && b.isNullish) := by
  unfold looseEquals
  rw [if_pos h]

/-- Data of some kind is compared as data. -/
theorem looseEquals_some {a b : Json} {kind other : Json.Kind} (ha : a.kind? = some kind)
    (hb : b.kind? = some other) : looseEquals (some a) (some b) = Json.looseEquals a b := by
  have hdefined : ¬(isNullish (some a) || isNullish (some b)) = true :=
    not_isNullish_of_kinds ha hb
  rw [looseEquals, if_neg hdefined]

/-- Values of one kind are loosely equal if and only if they are strictly equal. -/
theorem SameKind.looseEquals_eq (h : SameKind a b) : a.looseEquals b = a.strictEquals b := by
  obtain ⟨kind, ha, hb⟩ := h
  obtain ⟨data, rfl, hdata⟩ := Option.bind_eq_some_iff.1 ha
  obtain ⟨data', rfl, hdata'⟩ := Option.bind_eq_some_iff.1 hb
  rw [looseEquals_some hdata hdata']
  exact Json.looseEquals_of_kind? hdata hdata'

/-- Values of two kinds are loosely equal if and only if they are the same text, or are not
    both texts but the same number. -/
theorem KindsDiffer.looseEquals_iff (h : KindsDiffer a b) :
    a.looseEquals b = true ↔ SameText a b ∨ ¬AreTexts a b ∧ SameNumber a b := by
  obtain ⟨kind, other, hne, ha, hb⟩ := h
  obtain ⟨data, rfl, hdata⟩ := Option.bind_eq_some_iff.1 ha
  obtain ⟨data', rfl, hdata'⟩ := Option.bind_eq_some_iff.1 hb
  rw [looseEquals_some hdata hdata',
    Json.looseEquals_iff_order (Json.isComposite_and_of_kinds_ne hne hdata hdata'), ← ties_iff,
    ← order?_eq_iff_ties]
  rfl

/-- Loose equality in its three cases: no value at all on both sides, one kind, two kinds. -/
theorem looseEquals_iff (a b : Value) :
    a.looseEquals b = true ↔
      (a.isNullish = true ∧ b.isNullish = true) ∨
      (SameKind a b ∧ a.strictEquals b = true) ∨
      (KindsDiffer a b ∧ (SameText a b ∨ ¬AreTexts a b ∧ SameNumber a b)) := by
  by_cases hnullish : (a.isNullish || b.isNullish) = true
  · -- a side without a kind leaves only the first case
    rw [looseEquals_of_isNullish hnullish, Bool.and_eq_true]
    refine ⟨Or.inl, ?_⟩
    rintro (hboth | ⟨⟨kind, ha, hb⟩, -⟩ | ⟨⟨kind, other, -, ha, hb⟩, -⟩)
    · exact hboth
    · exact absurd hnullish (not_isNullish_of_kinds ha hb)
    · exact absurd hnullish (not_isNullish_of_kinds ha hb)
  · rw [Bool.or_eq_true, not_or] at hnullish
    rw [or_iff_right fun hboth => hnullish.1 hboth.1]
    obtain ⟨x, kind, rfl, hx⟩ := exists_kind? hnullish.1
    obtain ⟨y, other, rfl, hy⟩ := exists_kind? hnullish.2
    by_cases hkind : kind = other
    · have hsame : SameKind (some x) (some y) := ⟨kind, hx, hkind ▸ hy⟩
      rw [hsame.looseEquals_eq, or_iff_left fun h => hsame.not_kindsDiffer h.1,
        and_iff_right hsame]
    · have hdiffer : KindsDiffer (some x) (some y) := ⟨kind, other, hkind, hx, hy⟩
      rw [hdiffer.looseEquals_iff, and_iff_right hdiffer]
      exact (or_iff_right fun h => h.1.not_kindsDiffer hdiffer).symm

/-! ## The laws -/

/-- Values that are loosely equal are so from the other side as well. -/
theorem Distinct.looseEquals_symm (ha : a.Distinct) (hb : b.Distinct)
    (h : a.looseEquals b = true) : b.looseEquals a = true := by
  rw [looseEquals_iff] at h ⊢
  rcases h with ⟨hnull, hnull'⟩ | ⟨hkind, hequals⟩ | ⟨hkinds, htext | ⟨hnot, hnumber⟩⟩
  · exact Or.inl ⟨hnull', hnull⟩
  · exact Or.inr (Or.inl ⟨hkind.symm, ha.strictEquals_symm hb hequals⟩)
  · exact Or.inr (Or.inr ⟨hkinds.symm, Or.inl htext.symm⟩)
  · exact Or.inr (Or.inr ⟨hkinds.symm, Or.inr ⟨fun h => hnot h.symm, hnumber.symm⟩⟩)

/-- A value is loosely equal to itself. -/
theorem Distinct.looseEquals_self (ha : a.Distinct) : a.looseEquals a = true := by
  rw [looseEquals_iff]
  by_cases hnullish : a.isNullish = true
  · exact Or.inl ⟨hnullish, hnullish⟩
  · obtain ⟨data, kind, rfl, hkind⟩ := exists_kind? hnullish
    exact Or.inr (Or.inl ⟨⟨kind, hkind, hkind⟩, (ha data rfl).strictEquals_self⟩)

/-- Against data of another kind, an array or object is its text. -/
theorem looseEquals_displayText {composite other : Json} {kind : Json.Kind}
    (hcomposite : composite.kind? = some .composite) (hother : other.kind? = some kind)
    (hne : kind ≠ .composite) :
    looseEquals (some composite) (some other) =
        looseEquals (some (.string composite.displayText)) (some other) ∧
      looseEquals (some other) (some composite) =
        looseEquals (some other) (some (.string composite.displayText)) := by
  have htext : composite.toPrimitive = .string composite.displayText := by
    rw [Json.toPrimitive, if_pos (Json.isComposite_iff_kind?.2 hcomposite)]
  have hparts : other.isComposite = false :=
    Bool.eq_false_iff.2 fun h =>
      hne (Option.some.inj (hother.symm.trans (Json.isComposite_iff_kind?.1 h)))
  have hstring : (Json.string composite.displayText).kind? = some .text := rfl
  have hleft : (composite.isComposite && other.isComposite) = false := by
    rw [hparts, Bool.and_false]
  have hright : (other.isComposite && composite.isComposite) = false := by
    rw [hparts, Bool.false_and]
  -- without its parts, the array or object is the text on the other side of the equation
  constructor
  · rw [looseEquals_some hcomposite hother, looseEquals_some hstring hother,
      Json.looseEquals_toPrimitive hleft, htext, Json.toPrimitive_of_isComposite hparts]
  · rw [looseEquals_some hother hcomposite, looseEquals_some hother hstring,
      Json.looseEquals_toPrimitive hright, htext, Json.toPrimitive_of_isComposite hparts]

/-- Loose equality is symmetric and reflexive, and equals the rule of conversions: both sides
    are undefined or null; or they are of one kind and strictly equal; or they are of two kinds
    and, with the text of an array or object in its place, the same text, or else, unless both
    are texts, the same number. Against a boolean, a number or a text, on either side, an array
    or object is equal exactly if its text is. -/
theorem looseEquals_coerces :
    (∀ {a b : Value}, a.Distinct → b.Distinct → a.looseEquals b = b.looseEquals a) ∧
    (∀ {a : Value}, a.Distinct → a.looseEquals a = true) ∧
    (∀ a b : Value, a.looseEquals b = true ↔
      (a.isNullish = true ∧ b.isNullish = true) ∨
      (SameKind a b ∧ a.strictEquals b = true) ∨
      (KindsDiffer a b ∧ (SameText a b ∨ ¬AreTexts a b ∧ SameNumber a b))) ∧
    ∀ {composite other : Json} {kind : Json.Kind}, composite.kind? = some .composite →
      other.kind? = some kind → kind ≠ .composite →
      looseEquals (some composite) (some other) =
          looseEquals (some (.string composite.displayText)) (some other) ∧
        looseEquals (some other) (some composite) =
          looseEquals (some other) (some (.string composite.displayText)) := by
  refine ⟨?_, Distinct.looseEquals_self, looseEquals_iff, looseEquals_displayText⟩
  intro a b ha hb
  exact Bool.eq_iff_iff.2 ⟨ha.looseEquals_symm hb, hb.looseEquals_symm ha⟩

/-- An array of one number is equal to that number, as the number of its text, and so is the
    text alone, from either side. -/
theorem looseEquals_coerces_array :
    let array : Value := some (.array [.number (.integer 1)])
    let number : Value := some (.number (.integer 1))
    array.Distinct ∧ number.Distinct ∧ KindsDiffer array number ∧ SameNumber array number ∧
      array.looseEquals number = true ∧ number.looseEquals array = true ∧
      array.looseEquals array = true ∧ looseEquals (some (.string "1")) number = true := by
  intro array number
  have harray : array.Distinct := by
    intro data hdata
    obtain rfl := Option.some.inj hdata
    exact .array (by simpa using .number _)
  have hnumber : number.Distinct := by
    intro data hdata
    obtain rfl := Option.some.inj hdata
    exact .number _
  have hkinds : KindsDiffer array number := ⟨.composite, .number, by decide, rfl, rfl⟩
  have hsame : SameNumber array number :=
    ⟨_, _, rfl, rfl, by decide +kernel, by decide +kernel, by decide +kernel⟩
  have htexts : ¬AreTexts array number := by
    rintro ⟨s, t, -, ht⟩
    cases ht
  obtain ⟨hsymm, hself, hrule, htext⟩ := looseEquals_coerces
  have hequal : array.looseEquals number = true :=
    (hrule array number).2 (Or.inr (Or.inr ⟨hkinds, Or.inr ⟨htexts, hsame⟩⟩))
  obtain ⟨hleft, -⟩ := @htext (.array [.number (.integer 1)]) (.number (.integer 1)) .number
    rfl rfl (by decide)
  have hdisplay : Json.displayText (.array [.number (.integer 1)]) = "1" := by decide +kernel
  rw [hdisplay] at hleft
  exact ⟨harray, hnumber, hkinds, hsame, hequal, (hsymm harray hnumber).symm.trans hequal,
    hself harray, hleft.symm.trans hequal⟩

/-- An array and another text of its number are two kinds of data and the same number, but
    they are compared as two texts: the rule fails without its exception. -/
theorem looseEquals_numerals :
    let array : Value := some (.array [.number (.integer 1)])
    let numeral : Value := some (.string "1.0")
    ¬(array.looseEquals numeral = true ↔
      (array.isNullish = true ∧ numeral.isNullish = true) ∨
      (SameKind array numeral ∧ array.strictEquals numeral = true) ∨
      (KindsDiffer array numeral ∧ (SameText array numeral ∨ SameNumber array numeral))) := by
  intro array numeral hrule
  have hkinds : KindsDiffer array numeral := ⟨.composite, .text, by decide, rfl, rfl⟩
  have hsame : SameNumber array numeral :=
    ⟨_, _, rfl, rfl, by decide +kernel, by decide +kernel, by decide +kernel⟩
  have hequal : array.looseEquals numeral = true :=
    hrule.2 (Or.inr (Or.inr ⟨hkinds, Or.inr hsame⟩))
  have hunequal : array.looseEquals numeral = false := by decide +kernel
  rw [hequal] at hunequal
  cases hunequal

end Value

end FormRules
