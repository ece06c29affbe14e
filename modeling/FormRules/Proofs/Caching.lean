/-
  FormRules.Proofs.Caching

  The cache cannot be seen. Every entry is what its source is read as (`Faithful`). Each
  operation keeps this, whether it finds its source, reads and keeps it, makes room for it
  by forgetting everything else, or empties the cache (`perform_keeps`). An engine whose
  cache is faithful answers like every other one with the same limit (`perform_answer`).

  By induction over the operations of a session both hold of each of its steps.

  Main statement: `performAll_eq_uncached`.
-/

import FormRules.Engine.Session
import Mathlib.Data.List.Forall2

namespace FormRules

/-- An operation that asks about expressions and not about the cache. -/
def Operation.isQuestion : Operation → Bool
  | .cached _ | .clearCache => false
  | _ => true

namespace Engine

/-! ## Faithful caches -/

/-- Every entry of the cache is what its source is read as. -/
def Faithful (engine : Engine) : Prop :=
  ∀ cache ∈ engine.cache, ∀ entry ∈ cache.entries,
    entry.2 = Expression.parse engine.settings.maxDepth entry.1

/-- An empty cache is faithful, and so is none at all. -/
theorem faithful_new (settings : Settings) : (new settings).Faithful := by
  intro cache hcache entry hentry
  have hempty : cache.entries = .empty := by
    unfold new at hcache
    split at hcache
    · obtain rfl : Cache.new settings.cacheCapacity = cache := by simpa using hcache
      rfl
    · cases hcache
  rw [hempty] at hentry
  cases hentry

/-- What a faithful cache keeps for a source is what the source is read as. -/
theorem Faithful.eq_parse {engine : Engine} (h : engine.Faithful) {cache : Cache}
    (hcache : engine.cache = some cache) {source : String} {compiled : Compiled}
    (hfind : cache.find? source = some compiled) :
    compiled = Expression.parse engine.settings.maxDepth source :=
  h cache hcache (source, compiled) (Table.mem_of_get? hfind)

/-- Looking up a source finds nothing, or what the source is read as. -/
theorem Faithful.cached {engine : Engine} (h : engine.Faithful) (source : String) :
    engine.cached source = none ∨ engine.cached source = some none ∨
      engine.cached source = some (some (Expression.parse engine.settings.maxDepth source)) := by
  unfold Engine.cached
  cases hcache : engine.cache with
  | none => exact Or.inl rfl
  | some cache =>
    cases hfind : cache.find? source with
    | none => exact Or.inr (Or.inl (by rw [Option.map_some, hfind]))
    | some compiled =>
      rw [Option.map_some, hfind, h.eq_parse hcache hfind]
      exact Or.inr (Or.inr rfl)

/-! ## Compiling -/

/-- With a faithful cache a source compiles to what it is read as. -/
theorem compile_answer {engine : Engine} (h : engine.Faithful) (source : String) :
    (engine.compile source).answer = Expression.parse engine.settings.maxDepth source := by
  unfold compile
  split
  · rfl
  · rename_i cache hcache
    split
    · rename_i compiled hfind
      exact h.eq_parse hcache hfind
    · rfl

/-- One engine comes from another one by operations: its settings are the same, and its
    cache is still faithful. -/
structure Keeps (before after : Engine) : Prop where
  settings : after.settings = before.settings
  faithful : before.Faithful → after.Faithful

theorem Keeps.refl (engine : Engine) : Keeps engine engine := ⟨rfl, id⟩

theorem Keeps.trans {first second third : Engine} (h : Keeps first second)
    (h' : Keeps second third) : Keeps first third :=
  ⟨h'.settings.trans h.settings, fun hfirst => h'.faithful (h.faithful hfirst)⟩

/-- What a source is read as may be put into a faithful cache, with or without room for
    it. -/
theorem faithful_insert {engine : Engine} (h : engine.Faithful) {cache : Cache}
    (hcache : engine.cache = some cache) (source : String) :
    Faithful { engine with
      cache := some (cache.insert source (Expression.parse engine.settings.maxDepth source)) } := by
  intro cache' hcache' entry hentry
  obtain rfl : cache.insert source _ = cache' := Option.some.inj hcache'
  rcases Table.eq_or_mem_of_mem_set hentry with rfl | hkept
  · rfl
  · -- an entry that is not new was kept, or the cache has been emptied
    split at hkept
    · cases hkept
    · exact h cache hcache entry hkept

theorem compile_keeps (source : String) (engine : Engine) :
    Keeps engine (engine.compile source).engine := by
  unfold compile
  split
  · exact .refl engine
  · rename_i cache hcache
    split
    · exact .refl engine
    · exact ⟨rfl, fun h => faithful_insert h hcache source⟩

theorem clearCache_keeps (engine : Engine) : Keeps engine engine.clearCache := by
  refine ⟨rfl, ?_⟩
  intro _ cache hcache entry hentry
  have hcleared : engine.cache.map .clear = some cache := hcache
  obtain ⟨old, -, rfl⟩ := Option.map_eq_some_iff.1 hcleared
  cases hentry

/-! ## Single operations -/

/-- Every operation keeps the settings, and a faithful cache faithful. -/
theorem perform_keeps (engine : Engine) (operation : Operation) :
    Keeps engine (engine.perform operation).engine := by
  cases operation with
  | evaluate source | tryEvaluate source | validate source | dependencies source
  | compile source => exact compile_keeps source engine
  | evaluateCompiled | cached => exact .refl engine
  | clearCache => exact clearCache_keeps engine

/-- Engines with the same limit give the same answers, if their caches are faithful. -/
theorem perform_answer {engine other : Engine} (h : engine.Faithful) (h' : other.Faithful)
    (hlimit : engine.settings.maxDepth = other.settings.maxDepth) {operation : Operation}
    (hquestion : operation.isQuestion) :
    (engine.perform operation).answer = (other.perform operation).answer := by
  have hcompile (source : String) :
      (engine.compile source).answer = (other.compile source).answer := by
    rw [compile_answer h, compile_answer h', hlimit]
  cases operation with
  | evaluate source context =>
    simp only [perform, evaluate, tryEvaluate, Step.andThen, hcompile]
  | tryEvaluate source context => simp only [perform, tryEvaluate, Step.andThen, hcompile]
  | evaluateCompiled => rfl
  | validate source => simp only [perform, validate, Step.andThen, hcompile]
  | dependencies source => simp only [perform, dependencies, Step.andThen, hcompile]
  | compile source => simp only [perform, Step.andThen, hcompile]
  | cached | clearCache => cases hquestion

/-! ## Sessions -/

/-- The engine after some operations. -/
def after (engine : Engine) (operations : List Operation) : Engine :=
  operations.foldl (fun engine operation => (engine.perform operation).engine) engine

theorem after_keeps (engine : Engine) (operations : List Operation) :
    Keeps engine (engine.after operations) := by
  induction operations generalizing engine with
  | nil => exact .refl engine
  | cons operation operations ih => exact (perform_keeps engine operation).trans (ih _)

section After

variable (settings : Settings) (operations : List Operation) (source : String)

/-- After any operations a source compiles to what it is read as. -/
theorem compile_after :
    (((new settings).after operations).compile source).answer =
      Expression.parse settings.maxDepth source := by
  have hkeeps := after_keeps (new settings) operations
  rw [compile_answer (hkeeps.faithful (faithful_new settings)), hkeeps.settings]
  rfl

theorem tryEvaluate_after (context : Context) :
    (((new settings).after operations).tryEvaluate source context).answer =
      (Expression.parse settings.maxDepth source).bind (·.evaluate context) := by
  rw [tryEvaluate, Step.andThen, compile_after]

theorem evaluate_after (context : Context) :
    (((new settings).after operations).evaluate source context).answer =
      outcomeOf ((Expression.parse settings.maxDepth source).bind (·.evaluate context)) := by
  rw [evaluate, Step.andThen, tryEvaluate_after]

theorem validate_after :
    (((new settings).after operations).validate source).answer =
      verdictOf (Expression.parse settings.maxDepth source) := by
  rw [validate, Step.andThen, compile_after]

theorem dependencies_after :
    (((new settings).after operations).dependencies source).answer =
      dependenciesOf (Expression.parse settings.maxDepth source) := by
  rw [dependencies, Step.andThen, compile_after]

end After

/-- The last operation is performed by the engine after all others. -/
theorem performAll_concat (engine : Engine) (operations : List Operation) (last : Operation) :
    engine.performAll (operations ++ [last]) =
      engine.performAll operations ++ [(engine.after operations).perform last] := by
  induction operations generalizing engine with
  | nil => rfl
  | cons operation operations ih =>
    rw [List.cons_append, performAll, performAll, ih]
    rfl

/-- An engine with the same limit that keeps nothing. -/
def uncached (settings : Settings) : Engine := new (settings.withCacheCapacity 0)

/-- In a step the cache does not show. A question is answered as without a cache, every
    entry is what its source is read as, and so is whatever is found. -/
structure Transparent (settings : Settings) (operation : Operation) (step : Step Reply) :
    Prop where
  answer : operation.isQuestion → step.answer = ((uncached settings).perform operation).answer
  entries : ∀ cache ∈ step.engine.cache, ∀ entry ∈ cache.entries,
    entry.2 = Expression.parse settings.maxDepth entry.1
  lookup : ∀ source, operation = .cached source →
    step.answer = .cached none ∨ step.answer = .cached (some none) ∨
      step.answer = .cached (some (some (Expression.parse settings.maxDepth source)))

theorem perform_transparent {engine : Engine} (h : engine.Faithful) (operation : Operation) :
    Transparent engine.settings operation (engine.perform operation) where
  answer hquestion :=
    @perform_answer engine (uncached engine.settings) h (faithful_new _) rfl operation hquestion
  entries := by
    have hkeeps := perform_keeps engine operation
    rw [← hkeeps.settings]
    exact hkeeps.faithful h
  lookup := by
    rintro source rfl
    rcases h.cached source with hcached | hcached | hcached
    · exact Or.inl (congrArg Reply.cached hcached)
    · exact Or.inr (Or.inl (congrArg Reply.cached hcached))
    · exact Or.inr (Or.inr (congrArg Reply.cached hcached))

theorem performAll_transparent {engine : Engine} (h : engine.Faithful)
    (operations : List Operation) :
    List.Forall₂ (Transparent engine.settings) operations (engine.performAll operations) := by
  induction operations generalizing engine with
  | nil => exact .nil
  | cons operation operations ih =>
    have hkeeps := perform_keeps engine operation
    have hrest := ih (hkeeps.faithful h)
    rw [hkeeps.settings] at hrest
    exact .cons (perform_transparent h operation) hrest

/-- In every session, whatever the capacity, each question is answered as by an engine
    without a cache that has been asked nothing before, and after each step every entry of
    the cache is what its source is read as, so that looking it up finds this or nothing.
    The answer to a question does not depend on what has been done before. -/
theorem performAll_eq_uncached (settings : Settings) :
    (∀ operations, List.Forall₂ (fun operation step =>
        (operation.isQuestion →
          step.answer = ((uncached settings).perform operation).answer) ∧
        (∀ cache ∈ step.engine.cache, ∀ entry ∈ cache.entries,
          entry.2 = Expression.parse settings.maxDepth entry.1) ∧
        ∀ source, operation = .cached source →
          step.answer = .cached none ∨ step.answer = .cached (some none) ∨
            step.answer = .cached (some (some (Expression.parse settings.maxDepth source))))
      operations ((new settings).performAll operations)) ∧
    ∀ before before' operation, operation.isQuestion →
      ((new settings).performAll (before ++ [operation])).getLast?.map Step.answer =
        ((new settings).performAll (before' ++ [operation])).getLast?.map Step.answer := by
  have hnew := faithful_new settings
  constructor
  · intro operations
    exact (performAll_transparent hnew operations).imp
      fun _ _ h => ⟨h.answer, h.entries, h.lookup⟩
  · intro before before' operation hquestion
    have hkeeps := after_keeps (new settings) before
    have hkeeps' := after_keeps (new settings) before'
    have hlimit : ((new settings).after before).settings.maxDepth =
        ((new settings).after before').settings.maxDepth := by
      rw [hkeeps.settings, hkeeps'.settings]
    have hanswer := perform_answer (hkeeps.faithful hnew) (hkeeps'.faithful hnew) hlimit hquestion
    simp only [performAll_concat, List.getLast?_append, List.getLast?_singleton, Option.some_or,
      Option.map_some, hanswer]

/-- A cache for one source forgets a faulty one to take the next, which does not show. -/
theorem performAll_after_reset :
    (((new ⟨64, 1⟩).compile "!").engine.compile "ctx.a").events = [.cacheReset 1] ∧
      (Operation.dependencies "ctx.a").isQuestion ∧
      ((new ⟨64, 1⟩).performAll ([.compile "!"] ++ [.dependencies "ctx.a"])).getLast?.map
          Step.answer =
        ((new ⟨64, 1⟩).performAll ([] ++ [.dependencies "ctx.a"])).getLast?.map Step.answer := by
  refine ⟨?_, rfl, (performAll_eq_uncached ⟨64, 1⟩).2 _ _ _ rfl⟩
  with_unfolding_all rfl

end Engine

end FormRules
