/-
  FormRules.Proofs.Misplacement

  A syntax error is at the first token that cannot be right. Where the reader is stuck, no
  derived phrase can go on with the token at the place, because the reader accepts or
  refuses every derived phrase. Behind a whole expression every token is wrong.

  Main statement: `parse_points`.
-/

import FormRules.Proofs.Locating
import FormRules.Proofs.Recognition
import FormRules.Proofs.Scanning

namespace FormRules

namespace Precedence

open Grammar

/-! ## The first wrong token -/

/-- Tokens that the grammar derives are all read, or refused. -/
theorem Reads.complete_or_refuses {limit levels : Nat} {tier : Tier} {level : Level}
    (h : Reads limit levels tier level) {input : List Token} {tree : Expression} {nesting : Nat}
    (hderives : Derives tier (kinds input) tree nesting) :
    (∃ parsed, level input = .ok parsed ∧ parsed.rest = []) ∨ Refuses limit (level input) := by
  obtain ⟨hgives, hrefuses⟩ := h.decides_all hderives
  by_cases hwithin : nesting ≤ levels ∧ tree.height ≤ limit
  · obtain ⟨parsed, hok, -, -, hrest⟩ := hgives hwithin.1 hwithin.2
    exact Or.inl ⟨parsed, hok, hrest⟩
  · exact Or.inr (hrefuses (by omega))

/-- Misplaced tokens are not derived. -/
theorem Reads.not_derives_of_misplaces {limit levels : Nat} {tier : Tier} {level : Level}
    (h : Reads limit levels tier level) {input : List Token} (hmisplaces : Misplaces (level input))
    (tree : Expression) (nesting : Nat) : ¬Derives tier (kinds input) tree nesting := by
  intro hderives
  obtain ⟨what, position, herror⟩ := hmisplaces
  rcases h.complete_or_refuses hderives with ⟨parsed, hok, -⟩ | ⟨position', hrefuses⟩
  · rw [herror] at hok
    cases hok
  · rw [herror] at hrefuses
    cases hrefuses

/-- The tokens before the place are viable. The token at the place makes them wrong, or
    if there is none, they are not complete. -/
def FirstWrong (before rest : List Token) : Prop :=
  Viable .disjunction (kinds before) ∧
    (∀ token others, rest = token :: others →
      ¬Viable .disjunction (kinds before ++ [token.kind])) ∧
    (rest = [] → ∀ tree nesting, ¬Derives .disjunction (kinds before) tree nesting)

/-- Where the reader of whole expressions is stuck, there is the first wrong token. -/
theorem Stuck.firstWrong {limit levels : Nat} {level : Level}
    (hreads : Reads limit levels .disjunction level) {before rest : List Token}
    (h : Stuck (Viable .disjunction) level before rest) : FirstWrong before rest := by
  refine ⟨h.viable, ?_, ?_⟩
  · -- a phrase that begins so would be accepted or refused, not misplaced
    rintro token others rfl ⟨more, tree, nesting, hderives⟩
    have hmisplaces := h.always (kinds_tokensOf 0 (kinds before))
      (show nextKind (⟨token.kind, 0⟩ :: tokensOf 0 more) = nextKind (token :: others) from rfl)
    refine hreads.not_derives_of_misplaces hmisplaces tree nesting ?_
    simpa using hderives
  · rintro rfl tree nesting hderives
    refine hreads.not_derives_of_misplaces (h.always rfl rfl) tree nesting ?_
    simpa using hderives

/-- Behind a whole expression every token is wrong. -/
theorem firstWrong_trailing {limit levels : Nat} {level : Level}
    (hreads : Reads limit levels .disjunction level) {front others : List Token} {token : Token}
    {tree : Expression} {nesting : Nat} (hderives : Derives .disjunction (kinds front) tree nesting)
    (hlevels : nesting ≤ levels) (hlimit : tree.height ≤ limit)
    (hends : Ends .disjunction (kinds front) (nextKind (token :: others))) :
    FirstWrong front (token :: others) := by
  refine ⟨⟨[], tree, nesting, by rwa [List.append_nil]⟩, ?_, nofun⟩
  rintro token' others' heq ⟨more, tree', nesting', hwhole⟩
  obtain ⟨rfl, rfl⟩ : token = token' ∧ others = others' := by simpa using heq
  obtain ⟨parsed, hok, -, -, hrest⟩ := hreads.gives hderives hlevels hlimit hends
    (kinds_tokensOf 0 (kinds front))
    (show nextKind (⟨token.kind, 0⟩ :: tokensOf 0 more) = nextKind (token :: others) from rfl)
  have hwhole' : Derives .disjunction
      (kinds (tokensOf 0 (kinds front) ++ ⟨token.kind, 0⟩ :: tokensOf 0 more)) tree' nesting' := by
    simpa using hwhole
  -- the phrase in front is read as before, and leaves the token
  rcases hreads.complete_or_refuses hwhole' with ⟨parsed', hok', hrest'⟩ | ⟨position, herror⟩
  · obtain rfl := Except.ok.inj (hok.symm.trans hok')
    rw [hrest] at hrest'
    cases hrest'
  · rw [hok] at herror
    cases herror

end Precedence

namespace Expression

open Grammar Precedence

/-! ## Whole sources -/

theorem ofTokens_points {limit : Nat} {tokens : Tokens} {fault : Fault}
    (h : ofTokens limit tokens = .error fault) :
    Points limit tokens.stop tokens.list FirstWrong fault := by
  have hunary := unary_reads (Nat.le_refl limit) tokens.stop
  have hreads := expression_reads hunary
  have hlocates := expression_locates hunary (unary_locates (Nat.le_refl limit))
  unfold ofTokens at h
  split at h
  · rename_i fault' herror
    cases h
    exact (hlocates herror).mono fun before rest _ hstuck => hstuck.firstWrong hreads
  · rename_i parsed hparsed
    split at h
    · cases h
    · rename_i token others hrest
      cases h
      obtain ⟨-, front, nesting, hinput, hderives, hlevels, hlimit, hends⟩ := hreads.sound hparsed
      rw [hrest] at hinput hends
      exact ⟨front, token :: others, hinput, rfl,
        firstWrong_trailing hreads hderives hlevels hlimit hends⟩

/-- Where reading the tokens of a source fails, the fault is at a token of the source or
    at its end. For a misplaced token it is the first one that cannot be right: the tokens
    before it begin some expression, and with it they begin none, or at the end, they are
    none. For nesting and height the fault names the limit. A source that cannot be split
    into tokens fails as the scan does, whatever the limit. -/
theorem parse_points (limit : Nat) (source : String) :
    (∀ tokens, Tokens.scan source = .ok tokens →
      (∀ what position, parse limit source = .error (.misplaced what position) →
        ∃ before rest, tokens.list = before ++ rest ∧
          position = nextPosition tokens.stop rest ∧ Viable .disjunction (kinds before) ∧
          (∀ token others, rest = token :: others →
            ¬Viable .disjunction (kinds before ++ [token.kind])) ∧
          (rest = [] → ∀ tree nesting, ¬Derives .disjunction (kinds before) tree nesting)) ∧
      (∀ bound position, parse limit source = .error (.tooDeep bound position) →
        bound = limit ∧ ∃ before rest, tokens.list = before ++ rest ∧
          position = nextPosition tokens.stop rest)) ∧
    ∀ fault, Tokens.scan source = .error fault → parse limit source = .error fault := by
  have htokens : ∀ tokens fault, Tokens.scan source = .ok tokens →
      parse limit source = .error fault →
      Points limit tokens.stop tokens.list FirstWrong fault := by
    intro tokens fault hscan h
    cases hblank : source.toList.all isBlank with
    | true => simp [parse, hblank] at h
    | false =>
      rw [parse_eq_ofTokens hblank hscan] at h
      exact ofTokens_points h
  refine ⟨fun tokens hscan => ⟨?_, ?_⟩, ?_⟩
  · intro what position h
    exact htokens tokens _ hscan h
  · intro bound position h
    exact htokens tokens _ hscan h
  · intro fault hscan
    have hblank : source.toList.all isBlank = false := by
      refine Bool.eq_false_iff.2 fun hblank => ?_
      rw [Tokens.scan_blanks hblank] at hscan
      cases hscan
    simp [parse, hblank, hscan]

/-- Behind an argument another name is wrong, although arguments may begin like that. -/
theorem parse_missing_separator :
    Tokens.scan "f(a b" =
        .ok ⟨[⟨.name "f", 0⟩, ⟨.opening, 1⟩, ⟨.name "a", 2⟩, ⟨.name "b", 4⟩], 5⟩ ∧
      parse 2 "f(a b" = .error (.misplaced (.separator (some (.name "b"))) 4) ∧
      Viable .disjunction [.name "f", .opening, .name "a"] ∧
      ¬Viable .disjunction [.name "f", .opening, .name "a", .name "b"] := by
  have hscan : Tokens.scan "f(a b" =
      .ok ⟨[⟨.name "f", 0⟩, ⟨.opening, 1⟩, ⟨.name "a", 2⟩, ⟨.name "b", 4⟩], 5⟩ := by
    with_unfolding_all rfl
  have hparse : parse 2 "f(a b" = .error (.misplaced (.separator (some (.name "b"))) 4) := by
    with_unfolding_all rfl
  obtain ⟨before, rest, hlist, hposition, hviable, hwrong, -⟩ :=
    ((parse_points 2 "f(a b").1 _ hscan).1 _ _ hparse
  have hthree : before = [⟨.name "f", 0⟩, ⟨.opening, 1⟩, ⟨.name "a", 2⟩] ∧
      rest = [⟨.name "b", 4⟩] := by
    rcases before with _ | ⟨_, _ | ⟨_, _ | ⟨_, _ | ⟨_, before⟩⟩⟩⟩ <;> simp at hlist
    · simp [← hlist, nextPosition] at hposition
    · simp [← hlist, nextPosition] at hposition
    · simp [← hlist, nextPosition] at hposition
    · obtain ⟨rfl, rfl, rfl, rfl⟩ := hlist
      exact ⟨rfl, rfl⟩
    · obtain ⟨-, -, -, -, rfl, rfl⟩ := hlist
      simp [nextPosition] at hposition
  obtain ⟨rfl, rfl⟩ := hthree
  exact ⟨hscan, hparse, hviable, hwrong _ _ rfl⟩

end Expression

end FormRules
