/-
  FormRules.Proofs.Recognition

  Reading the tokens of a source by precedence is recognising the grammar. Since the
  reader returns or refuses the tree of every derivation, and returns one tree only, the
  grammar derives one tree only.

  Main statement: `parse_eq_ok_iff_derives`, a source is read as a tree exactly if the
  grammar derives its tokens with this tree, nesting and height within the limit.
-/

import FormRules.Proofs.Operands

namespace FormRules

namespace Grammar

open Precedence

/-! ## One tree -/

/-- With fewer levels of nesting than one derivation needs, its tree would be refused,
    though another derivation has a tree returned. -/
theorem Derives.nesting_le {all : List TokenKind} {tree tree' : Expression} {m n : Nat}
    (h : Derives .disjunction all tree m) (h' : Derives .disjunction all tree' n) : n ≤ m := by
  refine Nat.not_lt.1 fun hlt => ?_
  -- a reader with exactly the levels that the first derivation needs
  have hreads := expression_unary_reads (Nat.le_max_left m tree.height) 0
  rw [← kinds_tokensOf 0 all] at h h'
  obtain ⟨parsed, hok, -⟩ := (hreads.decides_all h).1 (Nat.le_refl _) (Nat.le_max_right _ _)
  obtain ⟨position, herror⟩ := (hreads.decides_all h').2 (Or.inl hlt)
  rw [hok] at herror
  cases herror

/-- The tree that the grammar derives, and the depth of its nesting, are unique. -/
theorem Derives.unique {all : List TokenKind} {tree tree' : Expression} {m n : Nat}
    (h : Derives .disjunction all tree m) (h' : Derives .disjunction all tree' n) :
    tree = tree' ∧ m = n := by
  refine ⟨?_, Nat.le_antisymm (h'.nesting_le h) (h.nesting_le h')⟩
  -- a reader whose limit neither derivation exceeds returns both trees
  have hreads := expression_unary_reads
    (Nat.le_refl (max (max m n) (max tree.height tree'.height))) 0
  rw [← kinds_tokensOf 0 all] at h h'
  obtain ⟨parsed, hok, htree, -⟩ := (hreads.decides_all h).1 (by omega) (by omega)
  obtain ⟨parsed', hok', htree', -⟩ := (hreads.decides_all h').1 (by omega) (by omega)
  obtain rfl : parsed = parsed' := Except.ok.inj (hok.symm.trans hok')
  exact htree.symm.trans htree'

end Grammar

namespace Expression

open Grammar Precedence

/-! ## Whole sources -/

/-- All tokens are read as a tree exactly if the grammar derives them within the limit. -/
theorem ofTokens_eq_ok_iff {limit : Nat} {tokens : Tokens} {tree : Expression} :
    ofTokens limit tokens = .ok tree ↔
      ∃ nesting, Derives .disjunction (kinds tokens.list) tree nesting ∧ nesting ≤ limit ∧
        tree.height ≤ limit := by
  have hreads := expression_unary_reads (Nat.le_refl limit) tokens.stop
  constructor
  · intro h
    unfold ofTokens at h
    split at h
    · cases h
    · rename_i parsed hparsed
      split at h
      · rename_i hrest
        cases h
        obtain ⟨-, front, nesting, hinput, hderives, hlevels, hlimit, -⟩ := hreads.sound hparsed
        rw [hrest, List.append_nil] at hinput
        exact ⟨nesting, hinput ▸ hderives, hlevels, hlimit⟩
      · cases h
  · rintro ⟨nesting, hderives, hlevels, hlimit⟩
    obtain ⟨parsed, hok, htree, -, hrest⟩ := (hreads.decides_all hderives).1 hlevels hlimit
    simp only [ofTokens, hok, hrest, htree]

/-- Tokens that the grammar derives beyond the limit are refused. -/
theorem ofTokens_refuses {limit : Nat} {tokens : Tokens} {tree : Expression} {nesting : Nat}
    (h : Derives .disjunction (kinds tokens.list) tree nesting)
    (hbeyond : limit < nesting ∨ limit < tree.height) :
    Refuses limit (ofTokens limit tokens) := by
  have hreads := expression_unary_reads (Nat.le_refl limit) tokens.stop
  obtain ⟨position, herror⟩ := (hreads.decides_all h).2 hbeyond
  exact ⟨position, by rw [ofTokens, herror]⟩

/-- A source that is not blank is read through its tokens. -/
theorem parse_eq_ofTokens {limit : Nat} {source : String} {tokens : Tokens}
    (hblank : source.toList.all isBlank = false) (hscan : Tokens.scan source = .ok tokens) :
    parse limit source = ofTokens limit tokens := by
  simp [parse, hblank, hscan]

/-- A source that is not blank is read as a tree exactly if the grammar derives its tokens
    with this tree, and neither the nesting of the source nor the height of the tree
    exceeds the limit. If one of them does, that is the fault. The tree is unique, and
    never higher than the limit. -/
theorem parse_eq_ok_iff_derives (limit : Nat) {source : String}
    (hblank : source.toList.all isBlank = false) :
    (∀ tokens, Tokens.scan source = .ok tokens →
      (∀ tree, parse limit source = .ok tree ↔
        ∃ nesting, Derives .disjunction (kinds tokens.list) tree nesting ∧ nesting ≤ limit ∧
          tree.height ≤ limit) ∧
      (∀ tree nesting, Derives .disjunction (kinds tokens.list) tree nesting →
        limit < nesting ∨ limit < tree.height →
        ∃ position, parse limit source = .error (.tooDeep limit position)) ∧
      (∀ tree nesting tree' nesting', Derives .disjunction (kinds tokens.list) tree nesting →
        Derives .disjunction (kinds tokens.list) tree' nesting' →
        tree = tree' ∧ nesting = nesting')) ∧
    ∀ tree, parse limit source = .ok tree → tree.height ≤ limit := by
  constructor
  · intro tokens hscan
    rw [parse_eq_ofTokens hblank hscan]
    exact ⟨fun _ => ofTokens_eq_ok_iff, fun _ _ => ofTokens_refuses,
      fun _ _ _ _ h h' => h.unique h'⟩
  · intro tree hparse
    cases hscan : Tokens.scan source with
    | error fault => simp [parse, hblank, hscan] at hparse
    | ok tokens =>
      rw [parse_eq_ofTokens hblank hscan, ofTokens_eq_ok_iff] at hparse
      obtain ⟨_, _, _, hheight⟩ := hparse
      exact hheight

/-- A negated path in parentheses has height two, but its source is nested three deep. -/
theorem parse_negated_group :
    "!(a)".toList.all isBlank = false ∧
      Tokens.scan "!(a)" =
        .ok ⟨[⟨.negation, 0⟩, ⟨.opening, 1⟩, ⟨.name "a", 2⟩, ⟨.closing, 3⟩], 4⟩ ∧
      parse 3 "!(a)" = .ok (.negation (.path "a")) ∧
      ∃ position, parse 2 "!(a)" = .error (.tooDeep 2 position) := by
  have hblank : "!(a)".toList.all isBlank = false := by decide
  have hscan : Tokens.scan "!(a)" =
      .ok ⟨[⟨.negation, 0⟩, ⟨.opening, 1⟩, ⟨.name "a", 2⟩, ⟨.closing, 3⟩], 4⟩ := by
    with_unfolding_all rfl
  have hpath : Derives .disjunction [.name "a"] (.path "a") 1 :=
    Derives.path.loosen (Nat.zero_le _)
  have hderives : Derives .disjunction [.negation, .opening, .name "a", .closing]
      (.negation (.path "a")) 3 := hpath.group.negation.loosen (Nat.zero_le _)
  exact ⟨hblank, hscan,
    (((parse_eq_ok_iff_derives 3 hblank).1 _ hscan).1 _).2 ⟨3, hderives, by decide, by decide⟩,
    ((parse_eq_ok_iff_derives 2 hblank).1 _ hscan).2.1 _ _ hderives (Or.inl (by decide))⟩

end Expression

end FormRules
