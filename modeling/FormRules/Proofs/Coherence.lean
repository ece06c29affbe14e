/-
  FormRules.Proofs.Coherence

  The eight comparisons fit together, although equality and order convert their operands
  each in its own way.

  The order of two values decides the four ordering comparisons. It is turned around with
  the operands (`order?_swap`). The operands tie if they are the same text, or else the same
  number (`order?_eq_iff_ties`), and have no order if they are not both texts and one of them
  is no number (`order?_eq_none_iff`).

  Unless both operands are arrays or objects, loosely equal data is data that ties
  (`looseEquals_iff_order`). Two arrays or objects that are strictly equal have the same text
  (`displayText_of_strictEquals`), so that they tie as well, but not the other way round.

  Main statement: `holds_coherent`.
-/

import FormRules.Proofs.Content

namespace FormRules

/-! ## The order of numbers -/

namespace Extended

variable {x y : Extended}

theorem position?_eq_none_iff : x.position? = none ↔ x = .nan := by
  cases x with
  | nan => exact iff_of_true rfl rfl
  | finite | infinite => exact iff_of_false (Option.some_ne_none _) nofun

/-- The order of two numbers is turned around with them. -/
theorem order?_swap (x y : Extended) : x.order? y = (y.order? x).map Ordering.swap := by
  unfold order?
  cases x.position? with
  | none => cases y.position? <;> rfl
  | some p =>
    cases y.position? with
    | none => rfl
    | some q => exact congrArg some (Int.compare_swap q p).symm

/-- Numbers tie if and only if they are equal. -/
theorem order?_eq_iff : x.order? y = some .eq ↔ x.equals y = true := by
  unfold order? equals
  cases x.position? with
  | none => simp
  | some p =>
    cases y.position? with
    | none => simp
    | some q => simp

/-- Two numbers have an order unless one of them is none. -/
theorem order?_eq_none_iff : x.order? y = none ↔ x = .nan ∨ y = .nan := by
  rw [← position?_eq_none_iff, ← @position?_eq_none_iff y]
  unfold order?
  cases x.position? <;> cases y.position? <;> simp

end Extended

namespace Json

variable {a b : Json}

/-! ## Data without parts -/

/-- Data without parts is ordered by its texts if there are two, and otherwise by its
    numbers. -/
theorem primitiveOrder?_cases (a b : Json) :
    (∃ s t, a = .string s ∧ b = .string t ∧ primitiveOrder? a b = some (compare s t)) ∨
      ((∀ s t, ¬(a = .string s ∧ b = .string t)) ∧
        primitiveOrder? a b = a.toExtended.order? b.toExtended) := by
  cases a with
  | string s =>
    cases b with
    | string t => exact Or.inl ⟨s, t, rfl, rfl, rfl⟩
    | _ => exact Or.inr ⟨nofun, rfl⟩
  | _ => exact Or.inr ⟨nofun, rfl⟩

/-- Booleans are the same if and only if they are equal as numbers. -/
theorem equals_boolean : ∀ a b : Bool,
    (Json.boolean a).toExtended.equals (Json.boolean b).toExtended = (a == b) := by
  decide +kernel

/-- Of one kind, data that is not text is strictly equal if it is equal as numbers. -/
theorem strictEquals_of_sameKind (hkind : sameKind a b = true)
    (htext : ∀ s t, ¬(a = .string s ∧ b = .string t)) :
    strictEquals a b = a.toExtended.equals b.toExtended := by
  cases a with
  | boolean =>
    cases b with
    | boolean => exact (equals_boolean _ _).symm
    | _ => cases hkind
  | number =>
    cases b with
    | number => rfl
    | _ => cases hkind
  | string s =>
    cases b with
    | string t => exact absurd ⟨rfl, rfl⟩ (htext s t)
    | _ => cases hkind
  | null | array | object => cases hkind

/-- Two values that are not both arrays or objects are loosely equal if and only if they
    tie. -/
theorem looseEquals_iff_order (h : (a.isComposite && b.isComposite) = false) :
    looseEquals a b = true ↔ primitiveOrder? a.toPrimitive b.toPrimitive = some .eq := by
  rw [looseEquals, h, if_neg Bool.false_ne_true]
  dsimp only
  rcases primitiveOrder?_cases a.toPrimitive b.toPrimitive with
    ⟨s, t, hs, ht, horder⟩ | ⟨htext, horder⟩
  · rw [horder, hs, ht, Option.some_inj, Std.LawfulEqCmp.compare_eq_iff_eq]
    exact beq_iff_eq
  · rw [horder, Extended.order?_eq_iff]
    -- of one kind or of two, it is the numbers that are compared
    by_cases hkind : sameKind a.toPrimitive b.toPrimitive = true
    · rw [if_pos hkind, strictEquals_of_sameKind hkind htext]
    · rw [if_neg hkind]

/-! ## Strictly equal data -/

mutual

/-- Strictly equal data has one text. -/
theorem displayText_of_strictEquals : ∀ {a b : Json}, strictEquals a b = true →
    a.displayText = b.displayText
  | .array items, b, h => by
    cases b with
    | array others =>
      rw [displayText, displayText, displayItems_of_strictEqualsItems h]
    | _ => cases h
  | .number m, b, h => by
    cases b with
    | number n =>
      have hplace : m.toExtended.position? = n.toExtended.position? := by
        have hequals : m.toExtended.equals n.toExtended = true := h
        unfold Extended.equals at hequals
        split at hequals
        · rename_i p q hp hq
          rw [hp, hq, beq_iff_eq.1 hequals]
        · cases hequals
      exact Extended.displayText_congr hplace
    | _ => cases h
  | .object _, b, h => by
    cases b with
    | object => rw [displayText, displayText]
    | _ => cases h
  | .boolean b, other, h => by
    cases other with
    | boolean c =>
      have heq : b = c := beq_iff_eq.1 h
      rw [heq]
    | _ => cases h
  | .string s, b, h => by
    cases b with
    | string t =>
      have heq : s = t := beq_iff_eq.1 h
      rw [heq]
    | _ => cases h
  | .null, b, h => by
    cases b with
    | null => rfl
    | _ => cases h

theorem displayItems_of_strictEqualsItems : ∀ {items others : List Json},
    strictEqualsItems items others = true → displayItems items = displayItems others
  | [], [], _ => rfl
  | [], _ :: _, h | _ :: _, [], h => by cases h
  | item :: items, other :: others, h => by
    rw [strictEqualsItems, Bool.and_eq_true] at h
    have htext := displayText_of_strictEquals h.1
    have hrest := displayItems_of_strictEqualsItems h.2
    -- null is strictly equal to nothing else, so that both items are empty or none is
    by_cases hnull : item = .null
    · subst hnull
      cases other with
      | null => rw [displayItems, displayItems, hrest]
      | _ => cases h.1
    · have hother : other ≠ .null := by
        rintro rfl
        cases item with
        | null => exact hnull rfl
        | _ => cases h.1
      rw [displayItems, displayItems, htext, hrest]
      · exact hother
      · exact hnull

end

/-- Strictly equal data is loosely equal. -/
theorem looseEquals_of_strictEquals (h : strictEquals a b = true) : looseEquals a b = true := by
  by_cases hcomposite : (a.isComposite && b.isComposite) = true
  · rw [looseEquals, if_pos hcomposite]
    exact h
  · -- what is strictly equal is of one kind, which needs no conversion
    rw [looseEquals, if_neg hcomposite]
    cases a with
    | null =>
      cases b with
      | null => decide +kernel
      | _ => cases h
    | boolean =>
      cases b with
      | boolean => exact h
      | _ => cases h
    | number =>
      cases b with
      | number => exact h
      | _ => cases h
    | string =>
      cases b with
      | string => exact h
      | _ => cases h
    | array =>
      cases b with
      | array => exact absurd rfl hcomposite
      | _ => cases h
    | object =>
      cases b with
      | object => exact absurd rfl hcomposite
      | _ => cases h

/-- Loosely equal data ties. -/
theorem order_of_looseEquals (h : looseEquals a b = true) :
    primitiveOrder? a.toPrimitive b.toPrimitive = some .eq := by
  by_cases hcomposite : (a.isComposite && b.isComposite) = true
  · -- two arrays or objects are compared strictly, and ordered by their texts
    rw [looseEquals, if_pos hcomposite] at h
    obtain ⟨ha, hb⟩ := Bool.and_eq_true_iff.1 hcomposite
    rw [toPrimitive, toPrimitive, if_pos ha, if_pos hb, displayText_of_strictEquals h]
    exact congrArg some Std.ReflCmp.compare_self
  · exact (looseEquals_iff_order (Bool.eq_false_iff.2 hcomposite)).1 h

/-- The order of data without parts is turned around with it. -/
theorem primitiveOrder?_swap (a b : Json) :
    primitiveOrder? a b = (primitiveOrder? b a).map Ordering.swap := by
  rcases primitiveOrder?_cases a b with ⟨s, t, rfl, rfl, -⟩ | ⟨htext, horder⟩
  · exact congrArg some Std.OrientedCmp.eq_swap
  · rcases primitiveOrder?_cases b a with ⟨t, s, rfl, rfl, -⟩ | ⟨-, horder'⟩
    · exact absurd ⟨rfl, rfl⟩ (htext s t)
    · rw [horder, horder', Extended.order?_swap]

end Json

namespace Value

/-! ## Ties -/

/-- What is ordered for a value: its text for an array or an object. -/
def primitive (value : Value) : Value := value.map Json.toPrimitive

/-- Both values are ordered as texts. -/
def AreTexts (a b : Value) : Prop :=
  ∃ s t, a.primitive = some (.string s) ∧ b.primitive = some (.string t)

/-- A value that is undefined, or is not a number when it is converted. -/
inductive IsNoNumber : Value → Prop
  | undefined : IsNoNumber none
  | nan {data : Json} (h : data.toPrimitive.toExtended = .nan) : IsNoNumber (some data)

/-- Two values that are the same text, or that are not both texts and convert to the same
    number. -/
inductive Ties : Value → Value → Prop
  | texts {a b : Json} {s : String} (ha : a.toPrimitive = .string s)
      (hb : b.toPrimitive = .string s) : Ties (some a) (some b)
  | numbers {a b : Json} (htext : ¬AreTexts (some a) (some b))
      (h : a.toPrimitive.toExtended.equals b.toPrimitive.toExtended = true) :
      Ties (some a) (some b)

variable {a b : Value}

theorem areTexts_some {a b : Json} :
    AreTexts (some a) (some b) ↔
      ∃ s t, a.toPrimitive = .string s ∧ b.toPrimitive = .string t := by
  simp [AreTexts, primitive]

theorem isNoNumber_some {data : Json} :
    IsNoNumber (some data) ↔ data.toPrimitive.toExtended = .nan := by
  constructor
  · rintro ⟨⟩
    assumption
  · exact .nan

/-- The order of two values is turned around with them. -/
theorem order?_swap (a b : Value) : a.order? b = (b.order? a).map Ordering.swap := by
  cases a with
  | none => cases b <;> rfl
  | some a =>
    cases b with
    | none => rfl
    | some b => exact Json.primitiveOrder?_swap _ _

/-- The order of two values is even if and only if they tie. -/
theorem order?_eq_iff_ties : a.order? b = some .eq ↔ Ties a b := by
  cases a with
  | none => exact ⟨nofun, nofun⟩
  | some a =>
    cases b with
    | none => exact ⟨nofun, nofun⟩
    | some b =>
      show Json.primitiveOrder? _ _ = some .eq ↔ _
      rcases Json.primitiveOrder?_cases a.toPrimitive b.toPrimitive with
        ⟨s, t, hs, ht, horder⟩ | ⟨htext, horder⟩
      · rw [horder, Option.some_inj, Std.LawfulEqCmp.compare_eq_iff_eq]
        constructor
        · rintro rfl
          exact .texts hs ht
        · rintro (⟨hs', ht'⟩ | ⟨hnot, -⟩)
          · exact Json.string.inj ((hs.symm.trans hs').trans (ht'.symm.trans ht))
          · exact absurd (areTexts_some.2 ⟨s, t, hs, ht⟩) hnot
      · rw [horder, Extended.order?_eq_iff]
        constructor
        · refine .numbers ?_
          rw [areTexts_some]
          rintro ⟨s, t, hboth⟩
          exact htext s t hboth
        · rintro (⟨hs, ht⟩ | ⟨-, h⟩)
          · exact absurd ⟨hs, ht⟩ (htext _ _)
          · exact h

/-- Two values have no order if and only if they are not both texts and one of them is no
    number. -/
theorem order?_eq_none_iff :
    a.order? b = none ↔ ¬AreTexts a b ∧ (IsNoNumber a ∨ IsNoNumber b) := by
  cases a with
  | none => exact iff_of_true rfl ⟨by simp [AreTexts, primitive], Or.inl .undefined⟩
  | some a =>
    cases b with
    | none => exact iff_of_true rfl ⟨by simp [AreTexts, primitive], Or.inr .undefined⟩
    | some b =>
      show Json.primitiveOrder? _ _ = none ↔ _
      rw [areTexts_some, isNoNumber_some, isNoNumber_some]
      rcases Json.primitiveOrder?_cases a.toPrimitive b.toPrimitive with
        ⟨s, t, hs, ht, horder⟩ | ⟨htext, horder⟩
      · rw [horder]
        exact iff_of_false nofun fun h => h.1 ⟨s, t, hs, ht⟩
      · rw [horder, Extended.order?_eq_none_iff]
        have hnot : ¬∃ s t, a.toPrimitive = .string s ∧ b.toPrimitive = .string t := by
          rintro ⟨s, t, hboth⟩
          exact htext s t hboth
        exact (and_iff_right hnot).symm

/-! ## Equality and order -/

/-- Strictly equal values are loosely equal. -/
theorem looseEquals_of_strictEquals (h : a.strictEquals b = true) : a.looseEquals b = true := by
  cases a with
  | none =>
    cases b with
    | none => rfl
    | some b => cases h
  | some a =>
    cases b with
    | none => cases h
    | some b =>
      have hloose : Json.looseEquals a b = true := Json.looseEquals_of_strictEquals h
      unfold looseEquals
      split
      · -- null is strictly equal to itself only
        rename_i hnullish
        cases a <;> cases b <;> first | rfl | cases h | cases hnullish
      · exact hloose

/-- Of two loosely equal values both are undefined or null, or both are data that is loosely
    equal. -/
theorem looseEquals_cases (h : a.looseEquals b = true) :
    (a.isNullish = true ∧ b.isNullish = true) ∨
      ∃ x y, a = some x ∧ b = some y ∧ Json.looseEquals x y = true := by
  unfold looseEquals at h
  split at h
  · exact Or.inl (Bool.and_eq_true_iff.1 h)
  · split at h
    · exact Or.inr ⟨_, _, rfl, rfl, h⟩
    · cases h

/-- Values that are defined and loosely equal tie. -/
theorem order?_of_looseEquals (h : a.looseEquals b = true) (ha : a ≠ none) (hb : b ≠ none) :
    a.order? b = some .eq := by
  rcases looseEquals_cases h with ⟨hnull, hnull'⟩ | ⟨x, y, rfl, rfl, hloose⟩
  · -- both are null, which is zero
    have hisNull {value : Value} (hvalue : value.isNullish = true) (hdefined : value ≠ none) :
        value = some .null := by
      unfold isNullish at hvalue
      split at hvalue
      · exact absurd rfl hdefined
      · rfl
      · cases hvalue
    rw [hisNull hnull ha, hisNull hnull' hb]
    decide +kernel
  · exact Json.order_of_looseEquals hloose

/-- Values that tie are loosely equal, unless one of them is null or both are arrays or
    objects. -/
theorem looseEquals_of_order? (h : a.order? b = some .eq) (ha : a ≠ some .null)
    (hb : b ≠ some .null) (hcomposite : ¬(a.any Json.isComposite ∧ b.any Json.isComposite)) :
    a.looseEquals b = true := by
  cases a with
  | none => cases h
  | some x =>
    cases b with
    | none => cases h
    | some y =>
      have hnullish {data : Json} (hdata : some data ≠ some .null) :
          isNullish (some data) = false := by
        cases data with
        | null => exact absurd rfl hdata
        | _ => rfl
      have hparts : (x.isComposite && y.isComposite) = false :=
        Bool.eq_false_iff.2 fun hboth => hcomposite (Bool.and_eq_true_iff.1 hboth)
      rw [looseEquals, hnullish ha, hnullish hb, Bool.or_self, if_neg Bool.false_ne_true]
      exact (Json.looseEquals_iff_order hparts).2 h

end Value

namespace Comparison

open Value

/-! ## Comparisons -/

section Holds

variable {a b : Value}

theorem holds_less : less.holds a b = true ↔ a.order? b = some .lt := beq_iff_eq

theorem holds_greater : greater.holds a b = true ↔ a.order? b = some .gt := beq_iff_eq

theorem holds_lessOrEqual :
    lessOrEqual.holds a b = true ↔ a.order? b = some .lt ∨ a.order? b = some .eq := by
  show (a.order? b).any (· != .gt) = true ↔ _
  cases a.order? b with
  | none => simp
  | some order => cases order <;> simp

theorem holds_greaterOrEqual :
    greaterOrEqual.holds a b = true ↔ a.order? b = some .gt ∨ a.order? b = some .eq := by
  show (a.order? b).any (· != .lt) = true ↔ _
  cases a.order? b with
  | none => simp
  | some order => cases order <;> simp

/-- No ordering comparison holds if and only if there is no order. -/
theorem not_holds_iff :
    (∀ op : Comparison, op.isEquality = false → op.holds a b = false) ↔ a.order? b = none := by
  constructor
  · intro h
    have hless := h less rfl
    have hgreaterOrEqual := h greaterOrEqual rfl
    cases horder : a.order? b with
    | none => rfl
    | some order => cases order <;> simp [holds, horder] at hless hgreaterOrEqual
  · intro horder op hop
    cases op with
    | looseEqual | looseUnequal | strictEqual | strictUnequal => cases hop
    | greater | less | greaterOrEqual | lessOrEqual => simp [holds, horder]

end Holds

/-- What the eight comparisons of two values have to do with each other. The unequal forms
    are the negations of the equal ones, and strict equality is the stronger one. The ordering
    comparisons turn around with the operands, exclude each other, and hold together where the
    operands tie; none of them holds exactly if the operands have no order. Loosely equal
    values are never one before the other, and tie if they are defined. Values that tie are
    loosely equal unless one of them is null or both are arrays or objects. -/
theorem holds_coherent (a b : Value) :
    (looseUnequal.holds a b = !looseEqual.holds a b ∧
      strictUnequal.holds a b = !strictEqual.holds a b) ∧
    (strictEqual.holds a b = true → looseEqual.holds a b = true) ∧
    (less.holds a b = greater.holds b a ∧ lessOrEqual.holds a b = greaterOrEqual.holds b a) ∧
    ¬(less.holds a b = true ∧ greater.holds a b = true) ∧
    ((lessOrEqual.holds a b = true ↔ less.holds a b = true ∨ Ties a b) ∧
      (greaterOrEqual.holds a b = true ↔ greater.holds a b = true ∨ Ties a b)) ∧
    ((∀ op : Comparison, op.isEquality = false → op.holds a b = false) ↔
      ¬AreTexts a b ∧ (IsNoNumber a ∨ IsNoNumber b)) ∧
    (looseEqual.holds a b = true →
      (less.holds a b = false ∧ greater.holds a b = false) ∧
      (a ≠ none → b ≠ none → lessOrEqual.holds a b = true ∧ greaterOrEqual.holds a b = true)) ∧
    (lessOrEqual.holds a b = true → greaterOrEqual.holds a b = true →
      a ≠ some .null → b ≠ some .null → ¬(a.any Json.isComposite ∧ b.any Json.isComposite) →
      looseEqual.holds a b = true) := by
  refine ⟨⟨rfl, rfl⟩, looseEquals_of_strictEquals, ?_, ?_, ?_, ?_, ?_, ?_⟩
  · have hswap := order?_swap a b
    constructor
    · rw [Bool.eq_iff_iff, holds_less, holds_greater, hswap]
      cases b.order? a with
      | none => simp
      | some order => cases order <;> simp
    · rw [Bool.eq_iff_iff, holds_lessOrEqual, holds_greaterOrEqual, hswap]
      cases b.order? a with
      | none => simp
      | some order => cases order <;> simp
  · rintro ⟨hless, hgreater⟩
    rw [holds_less] at hless
    rw [holds_greater, hless] at hgreater
    cases hgreater
  · rw [holds_lessOrEqual, holds_greaterOrEqual, holds_less, holds_greater, order?_eq_iff_ties]
    exact ⟨Iff.rfl, Iff.rfl⟩
  · rw [not_holds_iff, order?_eq_none_iff]
  · intro hequal
    have htie (ha : a ≠ none) (hb : b ≠ none) : a.order? b = some .eq :=
      order?_of_looseEquals hequal ha hb
    constructor
    · -- without an order, or with an even one, neither is before the other
      have horder : a.order? b = none ∨ a.order? b = some .eq := by
        by_cases ha : a = none
        · exact Or.inl (by rw [ha]; rfl)
        by_cases hb : b = none
        · exact Or.inl (by rw [hb]; cases a <;> rfl)
        exact Or.inr (htie ha hb)
      rcases horder with horder | horder <;> simp [holds, horder]
    · intro ha hb
      rw [holds_lessOrEqual, holds_greaterOrEqual]
      exact ⟨Or.inr (htie ha hb), Or.inr (htie ha hb)⟩
  · intro hless hgreater ha hb hcomposite
    rw [holds_lessOrEqual] at hless
    rw [holds_greaterOrEqual] at hgreater
    have htie : a.order? b = some .eq := by
      rcases hless with hless | htie
      · rcases hgreater with hgreater | htie
        · rw [hless] at hgreater
          cases hgreater
        · exact htie
      · exact htie
    exact looseEquals_of_order? htie ha hb hcomposite

/-- An array ties with its text and equals it. Null ties with zero and an array with another
    one of the same text, but neither equals the other: these are the exceptions. -/
theorem holds_coherent_array :
    let array : Value := some (.array [.number (.integer 1), .null])
    looseEqual.holds array (some (.string "1,")) = true ∧
      lessOrEqual.holds array (some (.string "1,")) = true ∧
      less.holds array (some (.string "1,")) = false ∧
      looseEqual.holds (some .null) (some (.number (.integer 0))) = false ∧
      lessOrEqual.holds (some .null) (some (.number (.integer 0))) = true ∧
      greaterOrEqual.holds (some .null) (some (.number (.integer 0))) = true ∧
      looseEqual.holds array (some (.array [.string "1,"])) = false ∧
      lessOrEqual.holds array (some (.array [.string "1,"])) = true ∧
      greaterOrEqual.holds array (some (.array [.string "1,"])) = true := by
  intro array
  have hequal : looseEqual.holds array (some (.string "1,")) = true := by decide +kernel
  obtain ⟨-, -, -, -, -, -, htie, -⟩ := holds_coherent array (some (.string "1,"))
  obtain ⟨⟨hless, -⟩, hboth⟩ := htie hequal
  obtain ⟨hlessOrEqual, -⟩ := hboth (Option.some_ne_none _) (Option.some_ne_none _)
  refine ⟨hequal, hlessOrEqual, hless, ?_⟩
  decide +kernel

end Comparison

end FormRules
