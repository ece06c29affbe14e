/-
  FormRules.Proofs.Indistinguishable

  Evaluation cannot tell strictly equal data apart.

  Two runs are kept side by side: of one expression in two contexts, or of two expressions
  that differ in the forms of their literals. Each path leads to values that are alike
  (`resolve_alike`), each operation keeps them alike (`FormRules.Proofs.Observation`), and
  so do the runs as a whole (`evaluate_alike`), where both take the same branch of every
  connective.

  Main statement: `evaluate_strictEquals`, together with what it says of the operations
  one by one.
-/

import FormRules.Proofs.Navigation
import FormRules.Proofs.Observation
import FormRules.Rule.Evaluation

namespace FormRules

/-! ## Strictly equal data -/

/-- Two values whose objects are in order, both undefined or strictly equal. -/
structure Value.StrictlyEqual (a b : Value) : Prop where
  left : a.Ordered
  right : b.Ordered
  equal : a.strictEquals b = true

theorem Value.strictlyEqual_iff_alike {a b : Value} : a.StrictlyEqual b ↔ a.Alike b :=
  ⟨fun h => (strictEquals_iff_alike h.left h.right).1 h.equal,
    fun h => ⟨h.left, h.right, h.strictlyEqual⟩⟩

/-- Two contexts read from JSON with strictly equal data and strictly equal records of
    their fields. -/
structure Context.StrictlyEqual (context other : Context) : Prop where
  left : context.IsRead
  right : other.IsRead
  ctx : context.ctx.strictEquals other.ctx = true
  fields : context.fieldsRecord.strictEquals other.fieldsRecord = true

namespace Expression

mutual

/-- Two expressions of one shape whose literals are pairwise strictly equal. -/
inductive StrictlyEqual : Expression → Expression → Prop
  | literal {a b : Json} (h : Value.StrictlyEqual (some a) (some b)) :
      StrictlyEqual (.literal a) (.literal b)
  | path (text : String) : StrictlyEqual (.path text) (.path text)
  | negation {operand operand' : Expression} (h : StrictlyEqual operand operand') :
      StrictlyEqual (.negation operand) (.negation operand')
  | comparison {left right left' right' : Expression} (op : Comparison)
      (hleft : StrictlyEqual left left') (hright : StrictlyEqual right right') :
      StrictlyEqual (.comparison op left right) (.comparison op left' right')
  | connective {left right left' right' : Expression} (op : Connective)
      (hleft : StrictlyEqual left left') (hright : StrictlyEqual right right') :
      StrictlyEqual (.connective op left right) (.connective op left' right')
  | call {arguments arguments' : List Expression} (function : String)
      (h : StrictlyEqualAll arguments arguments') :
      StrictlyEqual (.call function arguments) (.call function arguments')

inductive StrictlyEqualAll : List Expression → List Expression → Prop
  | nil : StrictlyEqualAll [] []
  | cons {tree tree' : Expression} {trees trees' : List Expression}
      (htree : StrictlyEqual tree tree') (htrees : StrictlyEqualAll trees trees') :
      StrictlyEqualAll (tree :: trees) (tree' :: trees')

end

/-! ## Outcomes -/

/-- Two evaluations fail with the same fault, or both succeed with related results. -/
inductive Agree {α : Type} (related : α → α → Prop) : Except Fault α → Except Fault α → Prop
  | fault (fault : Fault) : Agree related (.error fault) (.error fault)
  | value {a b : α} (h : related a b) : Agree related (.ok a) (.ok b)

theorem Agree.mono {α : Type} {related related' : α → α → Prop} {a b : Except Fault α}
    (h : Agree related a b) (himp : ∀ x y, related x y → related' x y) : Agree related' a b := by
  cases h with
  | fault fault => exact .fault fault
  | value h => exact .value (himp _ _ h)

/-- A fault ends both evaluations, and related results are what both go on with. -/
theorem Agree.andThen {α β : Type} {related : α → α → Prop} {related' : β → β → Prop}
    {a b : Except Fault α} {next next' : α → Except Fault β} (h : Agree related a b)
    (hnext : ∀ x y, related x y → Agree related' (next x) (next' y)) :
    Agree related' (a.bind next) (b.bind next') := by
  cases h with
  | fault fault => exact .fault fault
  | value h => exact hnext _ _ h

end Expression

/-! ## Paths -/

/-- Segments lead from values that are alike to values that are alike. -/
theorem Value.Alike.follow {a b : Value} (h : a.Alike b) (steps : List String) :
    (Value.follow steps a).Alike (Value.follow steps b) := by
  induction steps generalizing a b with
  | nil => exact h
  | cons step steps ih => exact ih (h.member step)

namespace Context

variable {context other : Context}

/-- Every path leads to values that are alike. -/
theorem StrictlyEqual.resolve_alike (h : context.StrictlyEqual other) (path : String) :
    (context.resolve path).Alike (other.resolve path) := by
  have hleft := h.left.ordered
  have hright := h.right.ordered
  have hctx : Value.Alike (some context.ctx) (some other.ctx) :=
    (Value.strictEquals_iff_alike (Value.ordered_some hleft.ctx)
      (Value.ordered_some hright.ctx)).1 h.ctx
  have hfields : Value.Alike (some context.fieldsRecord) (some other.fieldsRecord) :=
    (Value.strictEquals_iff_alike (Value.ordered_some hleft.fieldsRecord)
      (Value.ordered_some hright.fieldsRecord)).1 h.fields
  rw [resolve, resolve]
  split
  · exact hctx.follow _
  · split
    · rw [resolveField_eq_follow h.left.apart, resolveField_eq_follow h.right.apart]
      exact hfields.follow _
    · exact Value.alike_none

end Context

/-! ## Evaluation -/

namespace Expression

section Evaluate

variable {context other : Context}

theorem decidedBy_congr {a b : Value} (op : Connective) (h : a.Alike b) :
    op.decidedBy a = op.decidedBy b := by
  have htruthy := h.isTruthy
  cases op <;> simp only [Connective.decidedBy, htruthy]

mutual

/-- The two runs end alike. -/
theorem evaluate_alike (hcontext : context.StrictlyEqual other) : ∀ {tree tree' : Expression},
    StrictlyEqual tree tree' → Agree Value.Alike (evaluate context tree) (evaluate other tree')
  | _, _, .literal h => .value (Value.strictlyEqual_iff_alike.1 h)
  | _, _, .path text => .value (hcontext.resolve_alike text)
  | .negation operand, .negation operand', .negation h => by
    rw [evaluate_negation, evaluate_negation]
    apply (evaluate_alike hcontext h).andThen
    intro a b hvalue
    rw [hvalue.isTruthy]
    exact .value (Value.alike_ofBool _)
  | .comparison _ left right, .comparison _ left' right', .comparison op hleft hright => by
    rw [evaluate_comparison, evaluate_comparison]
    apply (evaluate_alike hcontext hleft).andThen
    intro a a' ha
    apply (evaluate_alike hcontext hright).andThen
    intro b b' hb
    rw [ha.holds_eq op hb]
    exact .value (Value.alike_ofBool _)
  | .connective _ left right, .connective _ left' right', .connective op hleft hright => by
    have hright := evaluate_alike hcontext hright
    rw [evaluate_connective, evaluate_connective]
    apply (evaluate_alike hcontext hleft).andThen
    intro a a' ha
    -- both runs take the first operand, or both go on to the second
    rw [decidedBy_congr op ha]
    split
    · exact .value ha
    · exact hright
  | .call _ arguments, .call _ arguments', .call function h => by
    have harguments := evaluateAll_alike hcontext h
    rw [evaluate_call, evaluate_call]
    cases Builtin.named? function with
    | none => exact .fault _
    | some builtin =>
      apply harguments.andThen
      intro values values' hvalues
      exact .value (builtin.alike_apply hvalues)

theorem evaluateAll_alike (hcontext : context.StrictlyEqual other) :
    ∀ {trees trees' : List Expression}, StrictlyEqualAll trees trees' →
      Agree (List.Forall₂ Value.Alike) (evaluateAll context trees) (evaluateAll other trees')
  | _, _, .nil => .value .nil
  | tree :: trees, tree' :: trees', .cons htree htrees => by
    have hrest := evaluateAll_alike hcontext htrees
    rw [evaluateAll_cons, evaluateAll_cons]
    apply (evaluate_alike hcontext htree).andThen
    intro a a' ha
    apply hrest.andThen
    intro values values' hvalues
    exact .value (.cons ha hvalues)

end

end Evaluate

/-- In contexts with strictly equal data, expressions with strictly equal literals fail
    with the same fault or have values that are strictly equal or both undefined. So it is
    with every operation on its own: the comparisons, truth, the functions, looking up a
    member, and the conversions to text and to a number, where `-0` and `0` are the same
    number. -/
theorem evaluate_strictEquals :
    (∀ {context other : Context} {tree tree' : Expression}, context.StrictlyEqual other →
      tree.StrictlyEqual tree' →
      Agree Value.StrictlyEqual (evaluate context tree) (evaluate other tree')) ∧
    (∀ {a a' b b' : Value}, a.StrictlyEqual a' → b.StrictlyEqual b' → ∀ op : Comparison,
      op.holds a b = op.holds a' b') ∧
    (∀ {a b : Value}, a.StrictlyEqual b → a.isTruthy = b.isTruthy ∧
      ∀ segment, (a.member segment).StrictlyEqual (b.member segment)) ∧
    (∀ {arguments others : List Value}, List.Forall₂ Value.StrictlyEqual arguments others →
      ∀ function : Builtin, (function.apply arguments).StrictlyEqual (function.apply others)) ∧
    ∀ {a b : Json}, Value.StrictlyEqual (some a) (some b) →
      a.displayText = b.displayText ∧ a.toExtended.position? = b.toExtended.position? := by
  have halike {a b : Value} : a.StrictlyEqual b → a.Alike b := Value.strictlyEqual_iff_alike.1
  have hequal {a b : Value} : a.Alike b → a.StrictlyEqual b := Value.strictlyEqual_iff_alike.2
  refine ⟨?_, ?_, ?_, ?_, ?_⟩
  · intro context other tree tree' hcontext htree
    exact (evaluate_alike hcontext htree).mono fun _ _ => hequal
  · intro a a' b b' ha hb op
    exact (halike ha).holds_eq op (halike hb)
  · intro a b h
    exact ⟨(halike h).isTruthy, fun segment => hequal ((halike h).member segment)⟩
  · intro arguments others h function
    exact hequal (function.alike_apply (h.imp fun _ _ => halike))
  · intro a b h
    have hcontent : a.content = b.content := Option.some.inj (halike h).content
    exact ⟨Json.displayText_congr hcontent, Json.position?_congr hcontent⟩

/-- One rule over integers and over doubles, with a negative zero inside an array that is
    compared with a text. -/
theorem evaluate_integers_as_doubles :
    let one : Binary64 := ⟨false, 2 ^ 1074, by decide +kernel⟩
    let context :=
      (Context.new (.object [("a", .array [.number (.integer 1), .number (.integer 0)])])).withField
        "f" (Field.new (.number (.integer 1)) true)
    let other :=
      (Context.new (.object [("a", .array [.number (.double one),
        .number (.double (Binary64.zero true))])])).withField
          "f" (Field.new (.number (.double one)) true)
    let rule (n : Number) : Expression := .connective .and
      (.comparison .looseEqual (.path "ctx.a") (.literal (.string "1,0")))
      (.comparison .strictEqual (.path "fields.f.value") (.literal (.number n)))
    context.StrictlyEqual other ∧ (rule (.double one)).StrictlyEqual (rule (.integer 1)) ∧
      Agree Value.StrictlyEqual (evaluate context (rule (.double one)))
        (evaluate other (rule (.integer 1))) := by
  intro one context other rule
  have hcontext : Context.read? "\x7b\"ctx\": \x7b\"a\": [1, 0]\x7d,
      \"fields\": \x7b\"f\": \x7b\"value\": 1, \"valid\": true\x7d\x7d\x7d" = some context := by
    decide +kernel
  have hother : Context.read? "\x7b\"ctx\": \x7b\"a\": [1.0, -0.0]\x7d,
      \"fields\": \x7b\"f\": \x7b\"value\": 1.0, \"valid\": true\x7d\x7d\x7d" = some other := by
    decide +kernel
  have hcontexts : context.StrictlyEqual other :=
    ⟨.text hcontext, .text hother, by decide +kernel, by decide +kernel⟩
  have hone : Value.StrictlyEqual (some (.number (.double one))) (some (.number (.integer 1))) :=
    ⟨Value.ordered_some (.number _), Value.ordered_some (.number _), by decide +kernel⟩
  have htext : Value.StrictlyEqual (some (.string "1,0")) (some (.string "1,0")) :=
    ⟨Value.ordered_some (.string _), Value.ordered_some (.string _), by decide⟩
  have hrule : (rule (.double one)).StrictlyEqual (rule (.integer 1)) :=
    .connective .and (.comparison .looseEqual (.path _) (.literal htext))
      (.comparison .strictEqual (.path _) (.literal hone))
  exact ⟨hcontexts, hrule, evaluate_strictEquals.1 hcontexts hrule⟩

end Expression

end FormRules
