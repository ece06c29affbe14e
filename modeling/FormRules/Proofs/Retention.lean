/-
  FormRules.Proofs.Retention

  What a cache keeps, and for how long.

  A cache has room for as many entries as its capacity says, but always for one. It forgets
  as a whole only: when it is cleared, or when a new source comes and there is no room left.
  So an entry is there from its insertion on until one of the two happens, or another outcome
  is inserted for the same source.

  Each kind of action has one lemma on what it leaves (`find?_act_iff`), and `Bounded` is kept
  by all of them. What holds after a whole run follows by `holds_iff_since`: something holds
  if some step brought it about and no later one undid it. In a session the cache is changed
  by such actions only (`perform_cache`), and the same lemma says when a source is found.

  Main statement: `cache_retains`.
-/

import FormRules.Proofs.Caching
import Mathlib.Data.List.Induction

namespace FormRules

/-! ## Runs -/

/-- What the last step brings about, or what has held and the last step does not undo, holds
    after a run if and only if some step brought it about and no later step undid it. -/
theorem holds_iff_since {α : Type} {holds : List α → Prop} {adds removes : List α → α → Prop}
    (hnil : ¬holds [])
    (hstep : ∀ steps last, holds (steps ++ [last]) ↔
      adds steps last ∨ (holds steps ∧ ¬removes steps last)) (steps : List α) :
    holds steps ↔ ∃ before step since, steps = before ++ step :: since ∧ adds before step ∧
      ∀ front later back, since = front ++ later :: back →
        ¬removes (before ++ step :: front) later := by
  induction steps using List.reverseRecOn with
  | nil => exact iff_of_false hnil (by simp)
  | append_singleton steps last ih =>
    rw [hstep, ih]
    constructor
    · rintro (hadds | ⟨⟨before, step, since, rfl, hadds, hsince⟩, hlast⟩)
      · exact ⟨steps, last, [], rfl, hadds, by simp⟩
      · refine ⟨before, step, since ++ [last], by simp, hadds, ?_⟩
        intro front later back hsplit
        -- a later step is the last one, or was there before
        rcases List.eq_nil_or_concat back with rfl | ⟨back, other, rfl⟩
        · obtain ⟨rfl, heq⟩ := List.append_inj' hsplit rfl
          obtain rfl : last = later := List.cons.inj heq |>.1
          exact hlast
        · rw [List.concat_eq_append, ← List.cons_append, ← List.append_assoc] at hsplit
          obtain ⟨hfront, -⟩ := List.append_inj' hsplit rfl
          exact hsince front later back hfront
    · rintro ⟨before, step, since, hsplit, hadds, hsince⟩
      rcases List.eq_nil_or_concat since with rfl | ⟨since, other, rfl⟩
      · obtain ⟨rfl, heq⟩ := List.append_inj' hsplit rfl
        obtain rfl : last = step := List.cons.inj heq |>.1
        exact Or.inl hadds
      · rw [List.concat_eq_append, ← List.cons_append, ← List.append_assoc] at hsplit
        obtain ⟨rfl, heq⟩ := List.append_inj' hsplit rfl
        obtain rfl : last = other := List.cons.inj heq |>.1
        have hlast := hsince since last [] List.concat_eq_append
        refine Or.inr ⟨⟨before, step, since, rfl, hadds, ?_⟩, hlast⟩
        rintro front later back rfl
        exact hsince front later (back ++ [last]) (by simp)

namespace Cache

/-! ## Actions -/

/-- What can be done with a cache. -/
inductive Action where
  | insert (source : String) (compiled : Compiled)
  | find (source : String)
  | clear

/-- The cache after an action. Looking something up changes nothing. -/
def act (cache : Cache) : Action → Cache
  | .insert source compiled => cache.insert source compiled
  | .find _ => cache
  | .clear => cache.clear

/-- The cache after some actions. -/
def afterAll (cache : Cache) (actions : List Action) : Cache := actions.foldl act cache

/-- Whether an action makes the cache forget what it holds: clearing does, and so does
    inserting a source for which there is no room. -/
def forgets (cache : Cache) : Action → Bool
  | .insert source _ => cache.resetsFor source
  | .find _ => false
  | .clear => true

theorem afterAll_concat (cache : Cache) (actions : List Action) (last : Action) :
    cache.afterAll (actions ++ [last]) = (cache.afterAll actions).act last :=
  List.foldl_append

/-! ## Single actions -/

section Insert

variable {cache : Cache} {source : String} (compiled : Compiled)

/-- There is no room for a source that is not there in a cache that is full. -/
theorem resetsFor_iff :
    cache.resetsFor source = true ↔ cache.find? source = none ∧ cache.capacity ≤ cache.size := by
  simp [resetsFor, and_comm]

/-- A source that is there needs no room. -/
theorem resetsFor_of_found (h : cache.find? source = some compiled) :
    cache.resetsFor source = false := by
  rw [resetsFor, h, Option.isNone_some, Bool.and_false]

/-- Without room for a source, nothing but its own entry is left. -/
theorem entries_insert_of_resetsFor (h : cache.resetsFor source = true) :
    (cache.insert source compiled).entries.list = [(source, compiled)] := by
  rw [insert, if_pos h]
  rfl

/-- With room for a source, its entry is put beside the others. -/
theorem entries_insert_of_not_resetsFor (h : cache.resetsFor source = false) :
    (cache.insert source compiled).entries = cache.entries.set source compiled := by
  rw [insert, if_neg (Bool.not_eq_true _ ▸ h)]

/-- What is found after an insertion: the new entry, and the old ones unless they have been
    forgotten. -/
theorem find?_insert (cache : Cache) (source other : String) :
    (cache.insert source compiled).find? other =
      if source = other then some compiled
      else if cache.resetsFor source then none else cache.find? other := by
  unfold find?
  cases hreset : cache.resetsFor source with
  | true =>
    rw [Table.get?, entries_insert_of_resetsFor compiled hreset]
    rfl
  | false =>
    rw [entries_insert_of_not_resetsFor compiled hreset, Table.get?_set,
      if_neg Bool.false_ne_true]

/-- An insertion takes another source from the cache if and only if there is no room and
    something is there to be forgotten. -/
theorem exists_lost_iff :
    (∃ other, other ≠ source ∧ (cache.insert source compiled).find? other ≠ cache.find? other) ↔
      cache.resetsFor source = true ∧ 0 < cache.size := by
  constructor
  · rintro ⟨other, hne, hlost⟩
    rw [find?_insert, if_neg hne.symm] at hlost
    cases hreset : cache.resetsFor source with
    | false =>
      rw [hreset, if_neg Bool.false_ne_true] at hlost
      exact absurd rfl hlost
    | true =>
      refine ⟨rfl, Nat.pos_of_ne_zero fun hsize => ?_⟩
      have hempty : cache.entries.list = [] := List.eq_nil_of_length_eq_zero hsize
      rw [hreset, if_pos rfl, find?, Table.get?, hempty] at hlost
      exact hlost rfl
  · rintro ⟨hreset, hsize⟩
    obtain ⟨hnone, -⟩ := resetsFor_iff.1 hreset
    -- the first entry is another one, since the source itself is not there
    obtain ⟨entry, rest, hentries⟩ := List.exists_cons_of_length_pos hsize
    have hfound : cache.find? entry.1 = some entry.2 := by
      rw [find?, Table.get?, hentries, Table.find?, if_pos rfl]
    have hne : entry.1 ≠ source := by
      intro heq
      rw [heq, hnone] at hfound
      cases hfound
    refine ⟨entry.1, hne, ?_⟩
    rw [find?_insert, if_neg hne.symm, hreset, if_pos rfl, hfound]
    exact (Option.some_ne_none _).symm

end Insert

/-- After an action an outcome is found for a source if the action inserted it, or if it was
    there and the action neither made the cache forget nor inserted something else for the
    source. -/
theorem find?_act_iff (cache : Cache) (action : Action) (source : String) (compiled : Compiled) :
    (cache.act action).find? source = some compiled ↔
      action = .insert source compiled ∨ (cache.find? source = some compiled ∧
        ¬(cache.forgets action = true ∨ ∃ other, action = .insert source other)) := by
  cases action with
  | insert inserted outcome =>
    rw [act, find?_insert, forgets]
    by_cases heq : inserted = source
    · subst heq
      simp
    · rw [if_neg heq]
      cases cache.resetsFor inserted <;> simp [heq]
  | find => simp [act, forgets]
  | clear => simp [act, forgets, clear, find?, Table.get?, Table.empty, Table.find?]

/-! ## The bound -/

/-- There are no more entries than there is room for. -/
def Bounded (cache : Cache) : Prop := cache.size ≤ max cache.capacity 1

theorem bounded_new (capacity : Nat) : (new capacity).Bounded := Nat.zero_le _

theorem capacity_act (cache : Cache) (action : Action) :
    (cache.act action).capacity = cache.capacity := by
  cases action <;> rfl

/-- An entry that is put beside the others is a new one where there is room for it, or takes
    the place of an old one. -/
theorem Bounded.insert {cache : Cache} (h : cache.Bounded) (source : String)
    (compiled : Compiled) : (cache.insert source compiled).Bounded := by
  have hcapacity : (cache.insert source compiled).capacity = cache.capacity := rfl
  rw [Bounded, hcapacity]
  cases hreset : cache.resetsFor source with
  | true =>
    have hsize : (cache.insert source compiled).size = 1 :=
      congrArg List.length (entries_insert_of_resetsFor compiled hreset)
    rw [hsize]
    exact Nat.le_max_right _ _
  | false =>
    have hsize : (cache.insert source compiled).size = (cache.entries.set source compiled).size :=
      congrArg Table.size (entries_insert_of_not_resetsFor compiled hreset)
    rw [hsize]
    by_cases hmem : source ∈ Table.names cache.entries.list
    · rw [Table.size_set_of_mem compiled hmem]
      exact h
    · have hnone : cache.find? source = none := Table.get?_eq_none_iff.2 hmem
      have hroom : ¬cache.capacity ≤ cache.size := fun hfull => by
        rw [resetsFor_iff.2 ⟨hnone, hfull⟩] at hreset
        cases hreset
      rw [Table.size_set_of_none compiled hnone]
      unfold size at hroom
      omega

theorem Bounded.act {cache : Cache} (h : cache.Bounded) (action : Action) :
    (cache.act action).Bounded := by
  cases action with
  | insert source compiled => exact h.insert source compiled
  | find => exact h
  | clear => exact Nat.zero_le _

/-- Whatever is done, the bound is kept and stays the same. -/
theorem bounded_afterAll (capacity : Nat) (actions : List Action) :
    ((new capacity).afterAll actions).Bounded ∧
      ((new capacity).afterAll actions).capacity = capacity := by
  induction actions using List.reverseRecOn with
  | nil => exact ⟨bounded_new capacity, rfl⟩
  | append_singleton actions last ih =>
    rw [afterAll_concat]
    exact ⟨ih.1.act last, (capacity_act _ last).trans ih.2⟩

/-- The size is the number of sources that are found. -/
theorem exists_sources (cache : Cache) :
    ∃ sources : List String, sources.Nodup ∧ sources.length = cache.size ∧
      ∀ source, source ∈ sources ↔ (cache.find? source).isSome = true := by
  refine ⟨Table.names cache.entries.list, cache.entries.ascending.nodup, List.length_map _, ?_⟩
  intro source
  rw [← not_iff_not, ← Table.get?_eq_none_iff, Bool.not_eq_true, Option.isSome_eq_false_iff,
    Option.isNone_iff_eq_none]
  rfl

/-! ## Runs of actions -/

/-- Among the actions the outcome is inserted for the source, and behind that neither
    anything else is inserted for it nor does the cache forget. -/
def Retained (capacity : Nat) (actions : List Action) (source : String) (compiled : Compiled) :
    Prop :=
  ∃ before since, actions = before ++ .insert source compiled :: since ∧
    (∀ other, .insert source other ∉ since) ∧
    ∀ front action back, since = front ++ action :: back →
      ((new capacity).afterAll (before ++ .insert source compiled :: front)).forgets action = false

/-- The cache holds exactly what is retained. -/
theorem find?_afterAll_iff (capacity : Nat) (actions : List Action) (source : String)
    (compiled : Compiled) :
    ((new capacity).afterAll actions).find? source = some compiled ↔
      Retained capacity actions source compiled := by
  have hsince := @holds_iff_since Action
    (fun actions => ((new capacity).afterAll actions).find? source = some compiled)
    (fun _ action => action = .insert source compiled)
    (fun actions action => ((new capacity).afterAll actions).forgets action = true ∨
      ∃ other, action = .insert source other)
    nofun (fun actions last => by rw [afterAll_concat]; exact find?_act_iff _ _ _ _) actions
  rw [hsince]
  constructor
  · rintro ⟨before, _, since, hsplit, rfl, hsince⟩
    refine ⟨before, since, hsplit, fun other hmem => ?_, fun front action back hback => ?_⟩
    · obtain ⟨front, back, hback⟩ := List.append_of_mem hmem
      exact hsince front _ back hback (Or.inr ⟨other, rfl⟩)
    · exact Bool.eq_false_iff.2 fun hforgets => hsince front action back hback (Or.inl hforgets)
  · rintro ⟨before, since, hsplit, hother, hkept⟩
    refine ⟨before, _, since, hsplit, rfl, ?_⟩
    rintro front action back rfl (hforgets | ⟨other, rfl⟩)
    · rw [hkept front action back rfl] at hforgets
      cases hforgets
    · exact hother other (by simp)

end Cache

/-! ## Sessions -/

/-- The source that an operation has compiled, if it has one compiled. -/
def Operation.source? : Operation → Option String
  | .evaluate source _ | .tryEvaluate source _ | .validate source | .dependencies source
  | .compile source => some source
  | .evaluateCompiled _ _ | .cached _ | .clearCache => none

/-- An event about the cache. -/
def Event.isOfCache : Event → Bool
  | .cacheHit _ | .cacheReset _ => true
  | _ => false

/-- The step has reset the cache. -/
def Step.Resets {α : Type} (step : Step α) : Prop := ∃ entries, .cacheReset entries ∈ step.events

namespace Engine

open Cache

/-- The engine has a cache that holds something for the source. -/
def Remembers (engine : Engine) (source : String) : Prop :=
  ∃ cache, engine.cache = some cache ∧ (cache.find? source).isSome = true

/-- With a cache, a source is remembered if and only if the cache holds something for it. -/
theorem remembers_iff {engine : Engine} {cache : Cache} (hcache : engine.cache = some cache)
    {source : String} : engine.Remembers source ↔ (cache.find? source).isSome = true := by
  constructor
  · rintro ⟨cache', hcache', hfound⟩
    obtain rfl : cache = cache' := Option.some.inj (hcache.symm.trans hcache')
    exact hfound
  · exact fun hfound => ⟨cache, hcache, hfound⟩

/-! ## Compiling -/

section Compile

variable {engine : Engine} {cache : Cache} (hcache : engine.cache = some cache) {source : String}
include hcache

/-- A source that is found is not compiled again, which is logged. -/
theorem compile_of_found {compiled : Compiled} (hfind : cache.find? source = some compiled) :
    engine.compile source = ⟨compiled, engine, [.cacheHit source]⟩ := by
  unfold compile
  simp only [hcache, hfind]

/-- A source that is not found is read and kept. It is logged if there was no room for it. -/
theorem compile_of_not_found (hfind : cache.find? source = none) :
    engine.compile source =
      ⟨Expression.parse engine.settings.maxDepth source,
        { engine with
          cache := some (cache.insert source (Expression.parse engine.settings.maxDepth source)) },
        if cache.resetsFor source then [.cacheReset cache.size] else []⟩ := by
  unfold compile
  simp only [hcache, hfind]

/-- Compiling looks the source up, and inserts it if it has not been found. -/
theorem compile_cache :
    ∃ actions, (engine.compile source).engine.cache = some (cache.afterAll actions) := by
  cases hfind : cache.find? source with
  | some compiled =>
    rw [compile_of_found hcache hfind]
    exact ⟨[.find source], hcache⟩
  | none =>
    rw [compile_of_not_found hcache hfind]
    exact ⟨[.find source, .insert source _], rfl⟩

/-- A hit is logged if and only if the source is remembered, and it names the source. -/
theorem cacheHit_mem_compile_iff {hit : String} :
    .cacheHit hit ∈ (engine.compile source).events ↔ hit = source ∧ engine.Remembers source := by
  rw [remembers_iff hcache]
  cases hfind : cache.find? source with
  | some compiled =>
    rw [compile_of_found hcache hfind]
    simp
  | none =>
    rw [compile_of_not_found hcache hfind]
    cases cache.resetsFor source <;> simp

/-- A reset is logged if and only if there is no room for the source, with the number of
    entries that are forgotten. -/
theorem cacheReset_mem_compile_iff {entries : Nat} :
    .cacheReset entries ∈ (engine.compile source).events ↔
      entries = cache.size ∧ cache.resetsFor source = true := by
  cases hfind : cache.find? source with
  | some compiled =>
    rw [compile_of_found hcache hfind, resetsFor_of_found compiled hfind]
    simp
  | none =>
    rw [compile_of_not_found hcache hfind]
    cases cache.resetsFor source <;> simp

/-- Compiling resets if and only if there is no room for the source. -/
theorem resets_compile_iff :
    (engine.compile source).Resets ↔ cache.resetsFor source = true := by
  unfold Step.Resets
  simp only [cacheReset_mem_compile_iff hcache, exists_eq_left]

/-- After compiling, its source is remembered, and so is what was before, unless compiling has
    reset the cache. -/
theorem remembers_compile_iff {other : String} :
    (engine.compile source).engine.Remembers other ↔
      source = other ∨ (engine.Remembers other ∧ ¬(engine.compile source).Resets) := by
  rw [resets_compile_iff hcache, remembers_iff hcache]
  cases hfind : cache.find? source with
  | some compiled =>
    rw [compile_of_found hcache hfind, remembers_iff hcache, resetsFor_of_found compiled hfind]
    constructor
    · exact fun hfound => Or.inr ⟨hfound, Bool.false_ne_true⟩
    · rintro (rfl | ⟨hfound, -⟩)
      · rw [hfind]
        rfl
      · exact hfound
  | none =>
    rw [compile_of_not_found hcache hfind, remembers_iff rfl, find?_insert]
    by_cases heq : source = other
    · simp [heq]
    · rw [if_neg heq]
      cases cache.resetsFor source <;> simp [heq]

end Compile

/-! ## Single operations -/

/-- Faults are no events about the cache. -/
theorem not_mem_onFault {α : Type} {event : Event} (hevent : event.isOfCache = true)
    {fault : Fault → Event} (hfault : ∀ f, (fault f).isOfCache = false) (result : Except Fault α) :
    event ∉ onFault fault result := by
  cases result with
  | ok => exact List.not_mem_nil
  | error f =>
    intro hmem
    obtain rfl : event = fault f := List.mem_singleton.1 hmem
    rw [hfault f] at hevent
    cases hevent

/-- An operation that has a source compiled leaves the engine that compiling leaves, with the
    same events about the cache. -/
theorem perform_of_source? (engine : Engine) {operation : Operation} {source : String}
    (h : operation.source? = some source) :
    (engine.perform operation).engine = (engine.compile source).engine ∧
      ∀ event : Event, event.isOfCache = true →
        (event ∈ (engine.perform operation).events ↔ event ∈ (engine.compile source).events) := by
  have hfaults {event : Event} (hevent : event.isOfCache = true) {α : Type}
      {fault : Fault → Event} (hfault : ∀ f, (fault f).isOfCache = false)
      (result : Except Fault α) :
      event ∈ (engine.compile source).events ++ onFault fault result ↔
        event ∈ (engine.compile source).events :=
    List.mem_append.trans (or_iff_left (not_mem_onFault hevent hfault result))
  cases operation with
  | tryEvaluate | compile =>
    obtain rfl := Option.some.inj h
    simp [perform, tryEvaluate, Step.andThen]
  | evaluate | validate | dependencies =>
    obtain rfl := Option.some.inj h
    refine ⟨rfl, fun event hevent => ?_⟩
    simp only [perform, evaluate, tryEvaluate, validate, dependencies, Step.andThen,
      List.append_nil]
    exact hfaults hevent (fun _ => rfl) _
  | evaluateCompiled | cached | clearCache => cases h

/-- An operation that has nothing compiled logs nothing. It changes nothing, or it clears the
    cache. -/
theorem perform_of_no_source (engine : Engine) {operation : Operation}
    (h : operation.source? = none) :
    (engine.perform operation).events = [] ∧
      (operation ≠ .clearCache ∧ (engine.perform operation).engine = engine ∨
        operation = .clearCache ∧ (engine.perform operation).engine = engine.clearCache) := by
  cases operation with
  | evaluateCompiled | cached => exact ⟨rfl, Or.inl ⟨nofun, rfl⟩⟩
  | clearCache => exact ⟨rfl, Or.inr ⟨rfl, rfl⟩⟩
  | evaluate | tryEvaluate | validate | dependencies | compile => cases h

/-- Operations reset the cache as compiling does. -/
theorem resets_perform_iff (engine : Engine) {operation : Operation} {source : String}
    (h : operation.source? = some source) :
    (engine.perform operation).Resets ↔ (engine.compile source).Resets :=
  exists_congr fun _ => (perform_of_source? engine h).2 _ rfl

section Perform

variable {engine : Engine} {cache : Cache} (hcache : engine.cache = some cache)
  (operation : Operation)
include hcache

/-- An operation changes the cache by actions only. -/
theorem perform_cache :
    ∃ actions, (engine.perform operation).engine.cache = some (cache.afterAll actions) := by
  cases hsource : operation.source? with
  | some source =>
    rw [(perform_of_source? engine hsource).1]
    exact compile_cache hcache
  | none =>
    rcases (perform_of_no_source engine hsource).2 with ⟨-, hsame⟩ | ⟨-, hcleared⟩
    · exact ⟨[], by rw [hsame, hcache]; rfl⟩
    · refine ⟨[.clear], ?_⟩
      rw [hcleared, clearCache, hcache]
      rfl

/-- After an operation a source is remembered if the operation has it compiled, or if it was
    remembered and the operation neither clears the cache nor resets it for another source. -/
theorem remembers_perform_iff (source : String) :
    (engine.perform operation).engine.Remembers source ↔
      operation.source? = some source ∨ (engine.Remembers source ∧
        ¬(operation = .clearCache ∨
          (engine.perform operation).Resets ∧ operation.source? ≠ some source)) := by
  cases hsource : operation.source? with
  | some compiled =>
    have hclear : operation ≠ .clearCache := by
      rintro rfl
      cases hsource
    rw [(perform_of_source? engine hsource).1, remembers_compile_iff hcache,
      resets_perform_iff engine hsource, Option.some.injEq]
    by_cases heq : compiled = source <;> simp [heq, hclear]
  | none =>
    obtain ⟨hevents, hengine⟩ := perform_of_no_source engine hsource
    have hresets : ¬(engine.perform operation).Resets := by
      rintro ⟨entries, hmem⟩
      rw [hevents] at hmem
      cases hmem
    rcases hengine with ⟨hclear, hsame⟩ | ⟨rfl, hcleared⟩
    · simp [hsame, hclear, hresets]
    · have hcache' : (engine.perform .clearCache).engine.cache = some cache.clear := by
        rw [hcleared, clearCache, hcache]
        rfl
      rw [remembers_iff hcache']
      simp [find?, clear, Table.get?, Table.empty, Table.find?]

end Perform

/-! ## Sessions -/

theorem after_concat (engine : Engine) (operations : List Operation) (last : Operation) :
    engine.after (operations ++ [last]) = ((engine.after operations).perform last).engine :=
  List.foldl_append

/-- A step of a session is that of some operation, performed by the engine that the operations
    before it have left. -/
theorem exists_of_mem_performAll {engine : Engine} {operations : List Operation}
    {step : Step Reply} (h : step ∈ engine.performAll operations) :
    ∃ before operation back, operations = before ++ operation :: back ∧
      step = (engine.after before).perform operation := by
  induction operations generalizing engine with
  | nil => cases h
  | cons first operations ih =>
    rcases List.mem_cons.1 h with rfl | hrest
    · exact ⟨[], first, operations, rfl, rfl⟩
    · obtain ⟨before, operation, back, rfl, rfl⟩ := ih hrest
      exact ⟨first :: before, operation, back, rfl, rfl⟩

section Session

variable {settings : Settings} (hcapacity : 0 < settings.cacheCapacity)
include hcapacity

/-- Throughout a session the cache is one that actions make from the empty one. -/
theorem after_cache (operations : List Operation) :
    ∃ actions, ((new settings).after operations).cache =
      some ((Cache.new settings.cacheCapacity).afterAll actions) := by
  induction operations using List.reverseRecOn with
  | nil => exact ⟨[], if_pos hcapacity⟩
  | append_singleton operations last ih =>
    obtain ⟨actions, hcache⟩ := ih
    obtain ⟨more, hmore⟩ := perform_cache hcache last
    refine ⟨actions ++ more, ?_⟩
    rw [after_concat, hmore, afterAll, afterAll, ← List.foldl_append]
    rfl

/-- Throughout a session a reset is that of a cache with as many entries as there is room
    for. -/
theorem eq_capacity_of_reset {operations : List Operation} {operation : Operation}
    {entries : Nat}
    (h : .cacheReset entries ∈ (((new settings).after operations).perform operation).events) :
    entries = settings.cacheCapacity := by
  obtain ⟨actions, hcache⟩ := after_cache hcapacity operations
  cases hsource : operation.source? with
  | none =>
    rw [(perform_of_no_source _ hsource).1] at h
    cases h
  | some source =>
    rw [(perform_of_source? _ hsource).2 _ rfl, cacheReset_mem_compile_iff hcache] at h
    obtain ⟨rfl, hreset⟩ := h
    obtain ⟨hbounded, hsame⟩ := bounded_afterAll settings.cacheCapacity actions
    have hle : ((Cache.new settings.cacheCapacity).afterAll actions).size ≤ _ := hbounded
    have hge := (resetsFor_iff.1 hreset).2
    rw [hsame] at hle hge
    omega

end Session

/-- Among the operations of a session one has the source compiled, and behind that neither is
    the cache cleared nor is it reset for another source. -/
def CompiledSince (settings : Settings) (operations : List Operation) (source : String) : Prop :=
  ∃ before operation since, operations = before ++ operation :: since ∧
    operation.source? = some source ∧
    ∀ front later back, since = front ++ later :: back →
      later ≠ .clearCache ∧
        ((((new settings).after (before ++ operation :: front)).perform later).Resets →
          later.source? = some source)

/-- In a session a source is remembered if and only if it has been compiled since. -/
theorem remembers_after_iff {settings : Settings} (hcapacity : 0 < settings.cacheCapacity)
    (operations : List Operation) (source : String) :
    ((new settings).after operations).Remembers source ↔
      CompiledSince settings operations source := by
  have hempty : ¬((new settings).after []).Remembers source := by
    rw [remembers_iff (if_pos hcapacity)]
    exact nofun
  have hsince := @holds_iff_since Operation
    (fun operations => ((new settings).after operations).Remembers source)
    (fun _ operation => operation.source? = some source)
    (fun operations operation => operation = .clearCache ∨
      (((new settings).after operations).perform operation).Resets ∧
        operation.source? ≠ some source)
    hempty (fun operations last => ?_) operations
  · rw [hsince]
    unfold CompiledSince
    simp only [not_or, not_and, not_not]
  · obtain ⟨actions, hcache⟩ := after_cache hcapacity operations
    rw [after_concat]
    exact remembers_perform_iff hcache last source

/-- In a session with a cache an operation logs a hit if and only if its source has been
    compiled and kept. -/
theorem cacheHit_mem_perform_iff {settings : Settings} (hcapacity : 0 < settings.cacheCapacity)
    (operations : List Operation) {operation : Operation} {source : String}
    (hsource : operation.source? = some source) (hit : String) :
    .cacheHit hit ∈ (((new settings).after operations).perform operation).events ↔
      hit = source ∧ CompiledSince settings operations source := by
  obtain ⟨actions, hcache⟩ := after_cache hcapacity operations
  rw [(perform_of_source? _ hsource).2 _ rfl, cacheHit_mem_compile_iff hcache,
    remembers_after_iff hcapacity]

/-- Whatever is done with a cache, it never has more entries than its capacity says, or than
    one. It holds exactly what has been inserted since it last forgot everything, each source
    with its latest outcome. An insertion forgets if and only if the source is not there and
    the cache is full; then its entry is the only one that is left, and otherwise no other
    entry changes. What has just been inserted is found, and finding changes nothing.

    So in a session with a cache an operation logs a hit if and only if its source has been
    compiled, with neither the cache cleared nor a reset for another source since then, and
    every reset that is logged is one of a full cache. -/
theorem cache_retains :
    (∀ capacity (actions : List Cache.Action),
      let cache := (Cache.new capacity).afterAll actions
      cache.size ≤ max capacity 1 ∧
      (∃ sources : List String, sources.Nodup ∧ sources.length = cache.size ∧
        ∀ source, source ∈ sources ↔ (cache.find? source).isSome = true) ∧
      (∀ source compiled, cache.find? source = some compiled ↔
        Cache.Retained capacity actions source compiled) ∧
      (∀ source compiled,
        (cache.resetsFor source = true ↔ cache.find? source = none ∧ capacity ≤ cache.size) ∧
        ((∃ other, other ≠ source ∧
            (cache.insert source compiled).find? other ≠ cache.find? other) ↔
          cache.resetsFor source = true ∧ 0 < cache.size) ∧
        (cache.resetsFor source = true →
          (cache.insert source compiled).entries.list = [(source, compiled)]) ∧
        (cache.resetsFor source = false → ∀ other, other ≠ source →
          (cache.insert source compiled).find? other = cache.find? other) ∧
        (cache.insert source compiled).find? source = some compiled) ∧
      ∀ source, cache.act (.find source) = cache) ∧
    ∀ settings : Settings, 0 < settings.cacheCapacity →
      (∀ before operation source, operation.source? = some source → ∀ hit,
        .cacheHit hit ∈ (((new settings).after before).perform operation).events ↔
          hit = source ∧ CompiledSince settings before source) ∧
      ∀ operations, ∀ step ∈ (new settings).performAll operations, ∀ entries,
        .cacheReset entries ∈ step.events → entries = settings.cacheCapacity := by
  constructor
  · intro capacity actions cache
    obtain ⟨hbounded, hcapacity⟩ := bounded_afterAll capacity actions
    have hsize : cache.size ≤ max capacity 1 := hcapacity ▸ hbounded
    refine ⟨hsize, cache.exists_sources, find?_afterAll_iff capacity actions, ?_,
      fun _ => rfl⟩
    intro source compiled
    have hresets : cache.resetsFor source = true ↔
        cache.find? source = none ∧ cache.capacity ≤ cache.size := resetsFor_iff
    have hfind (other : String) := Cache.find?_insert compiled cache source other
    refine ⟨?_, exists_lost_iff compiled, entries_insert_of_resetsFor compiled, ?_, ?_⟩
    · rw [hresets, hcapacity]
    · intro hroom other hne
      rw [hfind, if_neg hne.symm, hroom, if_neg Bool.false_ne_true]
    · rw [hfind, if_pos rfl]
  · intro settings hcapacity
    refine ⟨fun before _ _ hsource => cacheHit_mem_perform_iff hcapacity before hsource, ?_⟩
    intro operations step hstep entries hreset
    obtain ⟨before, operation, back, -, rfl⟩ := exists_of_mem_performAll hstep
    exact eq_capacity_of_reset hcapacity hreset

/-- With room for one, a second source takes the place of the first, and is found again. -/
theorem cache_retains_second :
    (.cacheReset 1 ∈
        (((new ⟨64, 1⟩).after [.compile "!"]).perform (.compile "ctx.a")).events ∧
      1 = (⟨64, 1⟩ : Settings).cacheCapacity) ∧
    CompiledSince ⟨64, 1⟩ [.compile "!", .compile "ctx.a"] "ctx.a" ∧
    .cacheHit "ctx.a" ∈
      (((new ⟨64, 1⟩).after [.compile "!", .compile "ctx.a"]).perform
        (.validate "ctx.a")).events := by
  obtain ⟨hhit, hreset⟩ := cache_retains.2 ⟨64, 1⟩ (by decide)
  have hevents :
      (((new ⟨64, 1⟩).after [.compile "!"]).perform (.compile "ctx.a")).events =
        [.cacheReset 1] := by
    with_unfolding_all rfl
  have hmem : .cacheReset 1 ∈
      (((new ⟨64, 1⟩).after [.compile "!"]).perform (.compile "ctx.a")).events := by
    rw [hevents]
    exact List.mem_singleton_self _
  have hsince : CompiledSince ⟨64, 1⟩ [.compile "!", .compile "ctx.a"] "ctx.a" :=
    ⟨[.compile "!"], .compile "ctx.a", [], rfl, rfl, by simp⟩
  refine ⟨⟨hmem, ?_⟩, hsince, ?_⟩
  · exact hreset [.compile "!", .compile "ctx.a"] _ (List.mem_cons_of_mem _ List.mem_cons_self)
      1 hmem
  · exact (hhit _ (.validate "ctx.a") "ctx.a" rfl "ctx.a").2 ⟨rfl, hsince⟩

end Engine

end FormRules
