/-
  FormRules.Proofs.Formatting

  Formatting does not matter: the lexemes of a source may be put together again with any
  blanks, as long as there are some between any two of them.

  Each lexeme was taken in front of some text and now stands in front of another one. No
  lexeme goes on with a blank, so it is taken there as well, and the kinds of the tokens
  stay (`scansTo_spaced`). Their positions do not. But positions increase in both texts,
  so that those of one text are a function of those of the other (`exists_moved`), and the
  reader does not look at positions (`ofTokens_moved`).

  Main statement: `answers_spaced`.
-/

import FormRules.Proofs.Caching
import FormRules.Proofs.Misplacement
import FormRules.Proofs.Relocation
import FormRules.Proofs.Rendering
import FormRules.Proofs.Segmentation

namespace FormRules

namespace Tokens

open Grammar Lexeme Precedence

/-! ## The lexemes of a source -/

/-- The longest lexeme at the position of a token. -/
def IsLexemeOf (source : List Char) (token : Token) (lexeme : List Char) : Prop :=
  ∃ before behind, source = before ++ behind ∧ token.position = utf8Length before ∧
    IsLongest lexeme behind

/-- A text can be divided in one way behind some number of bytes. -/
theorem append_inj_of_utf8Length {before before' behind behind' : List Char}
    (h : before ++ behind = before' ++ behind') (hlength : utf8Length before = utf8Length before') :
    before = before' ∧ behind = behind' := by
  -- what one front part has in addition to the other one takes no bytes
  have hnil {more : List Char} (hmore : utf8Length more = 0) : more = [] := by
    by_contra hne
    have hpos := utf8Length_pos hne
    omega
  rcases List.append_eq_append_iff.1 h with ⟨more, rfl, rfl⟩ | ⟨more, rfl, rfl⟩
  · rw [utf8Length_append] at hlength
    obtain rfl := hnil (by omega : utf8Length more = 0)
    simp
  · rw [utf8Length_append] at hlength
    obtain rfl := hnil (by omega : utf8Length more = 0)
    simp

/-- A token has one lexeme. -/
theorem IsLexemeOf.unique {source lexeme other : List Char} {token : Token}
    (h : IsLexemeOf source token lexeme) (h' : IsLexemeOf source token other) :
    lexeme = other := by
  obtain ⟨before, behind, rfl, hposition, hlongest⟩ := h
  obtain ⟨before', behind', hsource, hposition', hlongest'⟩ := h'
  obtain ⟨-, rfl⟩ := append_inj_of_utf8Length hsource (hposition.symm.trans hposition')
  exact hlongest.unique hlongest'

/-- Every token of a text behind some others has a lexeme, which denotes its kind. -/
theorem Splits.exists_lexeme {position : Nat} {text : List Char} {tokens : Tokens}
    (h : Splits position text tokens) {before : List Char}
    (hbefore : position = utf8Length before) :
    ∀ token ∈ tokens.list, ∃ lexeme, Denotes lexeme token.kind ∧
      IsLexemeOf (before ++ text) token lexeme := by
  induction h generalizing before with
  | stop => simp
  | @token position blanks lexeme rest kind tokens _ _ hlongest hkind _ ih =>
    refine List.forall_mem_cons.2 ⟨?_, ?_⟩
    · have hposition : position + utf8Length blanks = utf8Length (before ++ blanks) := by
        rw [utf8Length_append, hbefore]
      exact ⟨lexeme, hkind, before ++ blanks, lexeme ++ rest, (List.append_assoc _ _ _).symm,
        hposition, hlongest⟩
    · have hbehind : position + utf8Length (blanks ++ lexeme) =
          utf8Length (before ++ (blanks ++ lexeme)) := by
        rw [utf8Length_append before, hbefore]
      have hothers := ih hbehind
      rwa [List.append_assoc, List.append_assoc] at hothers

section Lexemes

variable {source : String} {tokens : Tokens} (hscan : scan source = .ok tokens)
include hscan

/-- The tokens of a source have lexemes. -/
theorem exists_lexemes :
    ∃ lexemes, List.Forall₂ (IsLexemeOf source.toList) tokens.list lexemes := by
  have hlexeme := (splits_of_scanFrom hscan).exists_lexeme utf8Length_nil.symm
  have hall : ∀ token, ∃ lexeme, token ∈ tokens.list →
      IsLexemeOf source.toList token lexeme := by
    intro token
    by_cases hmem : token ∈ tokens.list
    · obtain ⟨lexeme, -, h⟩ := hlexeme token hmem
      exact ⟨lexeme, fun _ => h⟩
    · exact ⟨[], fun h => absurd h hmem⟩
  choose lexemeOf hlexemeOf using hall
  refine ⟨tokens.list.map lexemeOf, ?_⟩
  rw [List.forall₂_map_right_iff, List.forall₂_same]
  exact hlexemeOf

/-- The lexemes of a source denote its tokens. -/
theorem denotes_of_isLexemeOf {lexemes : List (List Char)}
    (hlexemes : List.Forall₂ (IsLexemeOf source.toList) tokens.list lexemes) :
    List.Forall₂ (fun kind lexeme => Denotes lexeme kind) (kinds tokens.list) lexemes := by
  have hlexeme := (splits_of_scanFrom hscan).exists_lexeme utf8Length_nil.symm
  have hmem := (List.forall₂_and_left _ _).2 ⟨fun _ h => h, hlexemes⟩
  rw [kinds, List.forall₂_map_left_iff]
  refine hmem.imp fun token lexeme htoken => ?_
  obtain ⟨other, hdenotes, hother⟩ := hlexeme token htoken.1
  rwa [htoken.2.unique hother]

end Lexemes

/-! ## Putting lexemes together -/

/-- Lexemes with gaps: one in front of all of them, and one behind each. -/
def spaced (leading : List Char) (lexemes gaps : List (List Char)) : List Char :=
  leading ++ (List.zipWith (· ++ ·) lexemes gaps).flatten

theorem spaced_cons (leading lexeme gap : List Char) (lexemes gaps : List (List Char)) :
    spaced leading (lexeme :: lexemes) (gap :: gaps) =
      leading ++ (lexeme ++ spaced gap lexemes gaps) := by
  simp [spaced]

/-- Gaps for so many lexemes: they consist of blanks, and only the first and the last of
    them may be empty. -/
structure IsSpacing (count : Nat) (leading : List Char) (gaps : List (List Char)) : Prop where
  length_eq : gaps.length = count
  blank : ∀ gap ∈ leading :: gaps, ∀ c ∈ gap, isBlank c
  separates : ∀ gap ∈ gaps.dropLast, gap ≠ []

theorem IsSpacing.tail {count : Nat} {leading gap : List Char} {gaps : List (List Char)}
    (h : IsSpacing (count + 1) leading (gap :: gaps)) : IsSpacing count gap gaps where
  length_eq := Nat.succ.inj h.length_eq
  blank := (List.forall_mem_cons.1 h.blank).2
  separates other hother := by
    refine h.separates other ?_
    rw [List.dropLast_cons_of_ne_nil]
    · exact List.mem_cons_of_mem gap hother
    · rintro rfl
      cases hother

/-- No lexeme goes on with the gap behind it and the lexemes that follow. -/
theorem IsSpacing.closes {leading gap : List Char} {lexemes gaps : List (List Char)}
    (h : IsSpacing (lexemes.length + 1) leading (gap :: gaps)) :
    Closes (spaced gap lexemes gaps) := by
  cases gap with
  | cons c gap => exact closes_of_isBlank (h.tail.blank _ List.mem_cons_self c List.mem_cons_self) _
  | nil =>
    -- only the last gap is empty, so that no lexemes follow
    have hgaps : gaps = [] := by
      by_contra hne
      refine h.separates [] ?_ rfl
      rw [List.dropLast_cons_of_ne_nil hne]
      exact List.mem_cons_self
    have hlexemes : lexemes = [] := by
      rw [← List.length_eq_zero_iff, ← h.tail.length_eq, hgaps]
      rfl
    rw [hgaps, hlexemes]
    exact nofun

/-- Lexemes with gaps are split into the tokens that they denote. -/
theorem scansTo_spaced {all : List TokenKind} {lexemes : List (List Char)}
    (hlexemes : List.Forall₂ (fun kind lexeme => Denotes lexeme kind) all lexemes)
    {leading : List Char} {gaps : List (List Char)}
    (hspacing : IsSpacing lexemes.length leading gaps) :
    ScansTo (spaced leading lexemes gaps) all := by
  induction hlexemes generalizing leading gaps with
  | nil =>
    exact scansTo_nil.blanks (hspacing.blank _ List.mem_cons_self)
  | @cons kind lexeme all lexemes hdenotes _ ih =>
    obtain ⟨gap, gaps, rfl⟩ := List.exists_cons_of_length_eq_add_one hspacing.length_eq
    have hrest : ScansTo (spaced gap lexemes gaps) all := ih hspacing.tail
    rw [spaced_cons]
    exact (hrest.lexeme hdenotes (hspacing.closes.endsBefore kind)).blanks
      (hspacing.blank _ List.mem_cons_self)

/-! ## Positions -/

/-- Where positions do not repeat, any others are a function of them. -/
theorem exists_map_eq {positions others : List Nat} (h : positions.Nodup)
    (hlength : positions.length = others.length) : ∃ move, positions.map move = others := by
  refine ⟨fun position => others.getD (positions.idxOf position) 0, ?_⟩
  refine List.ext_getElem (by rw [List.length_map, hlength]) fun i hi hi' => ?_
  rw [List.getElem_map, h.idxOf_getElem, List.getD_eq_getElem?_getD, List.getElem?_eq_getElem hi',
    Option.getD_some]

/-- Tokens are given by their kinds and their positions. -/
theorem eq_of_kinds_of_positions {list list' : List Token} (hkinds : kinds list = kinds list')
    (hpositions : list.map Token.position = list'.map Token.position) : list = list' := by
  have hzip (list : List Token) :
      List.zipWith Token.mk (kinds list) (list.map Token.position) = list := by
    simp [kinds, List.zipWith_map]
  rw [← hzip list, hkinds, hpositions, hzip]

theorem positions_moved (move : Nat → Nat) (tokens : Tokens) :
    (tokens.moved move).positions = tokens.positions.map move := by
  simp [positions, moved, Token.moved, Function.comp_def]

theorem kinds_moved (move : Nat → Nat) (tokens : Tokens) :
    kinds (tokens.moved move).list = kinds tokens.list := by
  simp [kinds, moved, Token.moved, Function.comp_def]

/-- Tokens of the same kinds are the same ones at moved positions. -/
theorem exists_moved {tokens tokens' : Tokens} (h : tokens.positions.Pairwise (· < ·))
    (hkinds : kinds tokens'.list = kinds tokens.list) : ∃ move, tokens' = tokens.moved move := by
  have hlength : tokens.list.length = tokens'.list.length := by
    simpa [kinds] using (congrArg List.length hkinds).symm
  obtain ⟨move, hmove⟩ := @exists_map_eq tokens.positions tokens'.positions
    (h.imp Nat.ne_of_lt) (by simp [positions, hlength])
  rw [← positions_moved] at hmove
  obtain ⟨hlist, hstop⟩ := List.append_inj' hmove rfl
  have hlist' : (tokens.moved move).list = tokens'.list :=
    eq_of_kinds_of_positions ((kinds_moved move tokens).trans hkinds.symm) hlist
  obtain ⟨list', stop'⟩ := tokens'
  obtain rfl : move tokens.stop = stop' := by simpa [moved] using hstop
  subst hlist'
  exact ⟨move, rfl⟩

/-- The token behind some others, or the end, has the position of that index. -/
theorem getElem?_positions {tokens : Tokens} {before rest : List Token}
    (h : tokens.list = before ++ rest) :
    tokens.positions[before.length]? = some (nextPosition tokens.stop rest) := by
  cases rest with
  | nil => simp [positions, h, nextPosition]
  | cons token rest => simp [positions, h, nextPosition]

end Tokens

namespace Expression

open Grammar Precedence Tokens

/-! ## Reading -/

/-- What two lists of tokens are read as: the same tree, or the same fault at the same
    index, where the end has the last one. -/
inductive ReadAlike (tokens tokens' : Tokens) : Compiled → Compiled → Prop
  | tree (tree : Expression) : ReadAlike tokens tokens' (.ok tree) (.ok tree)
  | misplaced {index position position' : Nat} (what : Misplacement)
      (h : tokens.positions[index]? = some position)
      (h' : tokens'.positions[index]? = some position') :
      ReadAlike tokens tokens' (.error (.misplaced what position))
        (.error (.misplaced what position'))
  | tooDeep {index position position' : Nat} (limit : Nat)
      (h : tokens.positions[index]? = some position)
      (h' : tokens'.positions[index]? = some position') :
      ReadAlike tokens tokens' (.error (.tooDeep limit position))
        (.error (.tooDeep limit position'))

/-- Tokens at moved positions are read alike. -/
theorem ofTokens_readAlike (move : Nat → Nat) (limit : Nat) (tokens : Tokens) :
    ReadAlike tokens (tokens.moved move) (ofTokens limit tokens)
      (ofTokens limit (tokens.moved move)) := by
  rw [ofTokens_moved]
  cases hread : ofTokens limit tokens with
  | ok tree => exact .tree tree
  | error fault =>
    have hindex {before rest : List Token} (hlist : tokens.list = before ++ rest) :
        (tokens.moved move).positions[before.length]? =
          some (move (nextPosition tokens.stop rest)) := by
      rw [positions_moved, List.getElem?_map, getElem?_positions hlist, Option.map_some]
    -- only tokens and the limit are at fault
    have hpoints := ofTokens_points hread
    cases fault with
    | misplaced what position =>
      obtain ⟨before, rest, hlist, rfl, -⟩ := hpoints
      exact .misplaced what (getElem?_positions hlist) (hindex hlist)
    | tooDeep bound position =>
      obtain ⟨-, before, rest, hlist, rfl⟩ := hpoints
      exact .tooDeep bound (getElem?_positions hlist) (hindex hlist)
    | unterminatedString | unexpectedCharacter | invalidNumber | unknownFunction =>
      exact hpoints.elim

/-- Sources with tokens of the same kinds are read alike, whatever the limit. -/
theorem parse_readAlike (limit : Nat) {source source' : String} {tokens tokens' : Tokens}
    (hscan : scan source = .ok tokens) (hscan' : scan source' = .ok tokens')
    (hkinds : kinds tokens'.list = kinds tokens.list) :
    ReadAlike tokens tokens' (parse limit source) (parse limit source') := by
  have hincrease : tokens.positions.Pairwise (· < ·) :=
    (splits_of_scanFrom hscan).positions_increase
  obtain ⟨move, rfl⟩ := exists_moved hincrease hkinds
  rw [parse_of_tokens hscan, parse_of_tokens hscan', hkinds]
  split
  · exact .tree always
  · exact ofTokens_readAlike move limit tokens

end Expression

namespace Engine

open Expression Grammar Tokens

/-! ## Answers -/

section Alike

variable {tokens tokens' : Tokens} {compiled compiled' : Compiled}
  (h : ReadAlike tokens tokens' compiled compiled')
include h

theorem dependenciesOf_readAlike : dependenciesOf compiled' = dependenciesOf compiled := by
  cases h <;> rfl

theorem verdictOf_readAlike : (verdictOf compiled').valid = (verdictOf compiled).valid := by
  cases h <;> rfl

/-- The values are the same. If there are none, only the positions in the messages may
    differ. -/
theorem outcomeOf_readAlike (context : Context) :
    (outcomeOf (compiled'.bind (·.evaluate context))).success =
        (outcomeOf (compiled.bind (·.evaluate context))).success ∧
      (outcomeOf (compiled'.bind (·.evaluate context))).value =
        (outcomeOf (compiled.bind (·.evaluate context))).value := by
  cases h <;> exact ⟨rfl, rfl⟩

theorem bind_evaluate_readAlike (context : Context) (value : Value) :
    compiled'.bind (·.evaluate context) = .ok value ↔
      compiled.bind (·.evaluate context) = .ok value := by
  cases h with
  | tree => exact Iff.rfl
  | misplaced | tooDeep => exact ⟨nofun, nofun⟩

end Alike

/-- The lexemes of a source, put together again with blanks in front of them, between any
    two of them and behind them, are split into tokens of the same kinds. So whatever the
    limit, the source is read as the same tree, or with the same fault at the token of the
    same index, and an engine in any state answers alike: the dependencies, the validity
    and the value in every context stay. -/
theorem answers_spaced {source : String} {tokens : Tokens} (hscan : scan source = .ok tokens) :
    (∃! lexemes, List.Forall₂ (IsLexemeOf source.toList) tokens.list lexemes) ∧
    ∀ lexemes leading gaps, List.Forall₂ (IsLexemeOf source.toList) tokens.list lexemes →
      IsSpacing lexemes.length leading gaps →
      let source' := String.ofList (spaced leading lexemes gaps)
      ∃ tokens', scan source' = .ok tokens' ∧ kinds tokens'.list = kinds tokens.list ∧
        (∀ limit, ReadAlike tokens tokens' (parse limit source) (parse limit source')) ∧
        ∀ settings operations,
          let engine := (new settings).after operations
          (engine.dependencies source').answer = (engine.dependencies source).answer ∧
          (engine.validate source').answer.valid = (engine.validate source).answer.valid ∧
          ∀ context,
            (engine.evaluate source' context).answer.success =
              (engine.evaluate source context).answer.success ∧
            (engine.evaluate source' context).answer.value =
              (engine.evaluate source context).answer.value ∧
            ∀ value, (engine.tryEvaluate source' context).answer = .ok value ↔
              (engine.tryEvaluate source context).answer = .ok value := by
  constructor
  · obtain ⟨lexemes, hlexemes⟩ := exists_lexemes hscan
    refine ⟨lexemes, hlexemes, fun others hothers => ?_⟩
    exact Relator.RightUnique.forall₂ (fun _ _ _ h h' => h.unique h') hothers hlexemes
  · intro lexemes leading gaps hlexemes hspacing source'
    obtain ⟨tokens', hscan', hkinds⟩ :=
      scansTo_spaced (denotes_of_isLexemeOf hscan hlexemes) hspacing 0
    have hsource' : scan source' = .ok tokens' := by
      rw [scan, String.toList_ofList, hscan']
    have halike (limit : Nat) := parse_readAlike limit hscan hsource' hkinds
    refine ⟨tokens', hsource', hkinds, halike, ?_⟩
    intro settings operations engine
    have hcompiled := halike settings.maxDepth
    refine ⟨?_, ?_, fun context => ⟨?_, ?_, fun value => ?_⟩⟩
    · rw [dependencies_after, dependencies_after, dependenciesOf_readAlike hcompiled]
    · rw [validate_after, validate_after, verdictOf_readAlike hcompiled]
    · rw [evaluate_after, evaluate_after, (outcomeOf_readAlike hcompiled context).1]
    · rw [evaluate_after, evaluate_after, (outcomeOf_readAlike hcompiled context).2]
    · rw [tryEvaluate_after, tryEvaluate_after, bind_evaluate_readAlike hcompiled]

/-- A comparison without blanks, and with some, one of which takes three bytes. -/
theorem answers_spaced_comparison :
    let tokens : Tokens :=
      ⟨[⟨.name "ctx.a", 0⟩, ⟨.comparison .greaterOrEqual, 5⟩, ⟨.number (.integer (-1)), 7⟩], 9⟩
    let lexemes := ["ctx.a".toList, ">=".toList, "-1".toList]
    let gaps := [['\n'], ['\u3000', ' '], []]
    scan "ctx.a>=-1" = .ok tokens ∧
      List.Forall₂ (IsLexemeOf "ctx.a>=-1".toList) tokens.list lexemes ∧
      IsSpacing lexemes.length [] gaps ∧
      ∃ tokens', scan "ctx.a\n>=\u3000 -1" = .ok tokens' ∧
        kinds tokens'.list = kinds tokens.list ∧
        ∀ operations,
          (((new {}).after operations).dependencies "ctx.a\n>=\u3000 -1").answer =
            (((new {}).after operations).dependencies "ctx.a>=-1").answer := by
  intro tokens lexemes gaps
  have hscan : scan "ctx.a>=-1" = .ok tokens := by with_unfolding_all rfl
  have hname : IsLongest "ctx.a".toList "ctx.a>=-1".toList :=
    @isLongest_of_next 0 _ _ ⟨_, .name "ctx.a"⟩ (by with_unfolding_all rfl)
  have hsymbol : IsLongest ">=".toList ">=-1".toList :=
    @isLongest_of_next 0 _ _ ⟨_, .comparison .greaterOrEqual⟩ (by with_unfolding_all rfl)
  have hnumber : IsLongest "-1".toList "-1".toList :=
    @isLongest_of_next 0 _ _ ⟨_, .number (.integer (-1))⟩ (by with_unfolding_all rfl)
  have hlexemes : List.Forall₂ (IsLexemeOf "ctx.a>=-1".toList) tokens.list lexemes :=
    .cons ⟨[], _, by decide, rfl, hname⟩ <| .cons ⟨"ctx.a".toList, _, by decide, rfl, hsymbol⟩ <|
      .cons ⟨"ctx.a>=".toList, _, by decide, rfl, hnumber⟩ .nil
  have hspacing : IsSpacing lexemes.length [] gaps :=
    ⟨rfl, by simp [gaps, isBlank, blankRanges, inRanges], by simp [gaps]⟩
  obtain ⟨tokens', hscan', hkinds, -, hanswers⟩ :=
    (answers_spaced hscan).2 lexemes [] gaps hlexemes hspacing
  exact ⟨hscan, hlexemes, hspacing, tokens', hscan', hkinds,
    fun operations => (hanswers {} operations).1⟩

end Engine

end FormRules
