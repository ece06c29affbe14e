/-
  FormRules.Proofs.FirstFault

  The fault of a source that cannot be split into tokens. Blanks and longest lexemes are
  taken from the left to the right (`Munched`), up to the first place where this does not go
  on, and there the fault shows.

  A lexeme that is the longest one in front of a text stays so if the text behind it is cut
  short (`IsLongest.shorten`). So what stands before the fault is split into the same tokens
  without it, and the proofs are by induction on what is taken before a place.

  Main statement: `scan_fails_iff`.
-/

import FormRules.Proofs.LexicalFaults

namespace FormRules

namespace Tokens

open Lexeme

/-! ## What is taken before a place -/

/-- The front part of a text, in front of the rest of it, is blanks and lexemes, each of which
    is the longest one at its place. -/
inductive Munched : List Char → List Char → Prop
  | nil {rest : List Char} : Munched [] rest
  | blank {c : Char} {before rest : List Char} (hc : isBlank c) (h : Munched before rest) :
      Munched (c :: before) rest
  | lexeme {lexeme before rest : List Char}
      (hlongest : IsLongest lexeme (lexeme ++ (before ++ rest))) (h : Munched before rest) :
      Munched (lexeme ++ before) rest

/-- A longest lexeme stays so if the text behind it is cut short. -/
theorem IsLongest.shorten {lexeme before rest : List Char}
    (h : IsLongest lexeme (lexeme ++ (before ++ rest))) : IsLongest lexeme (lexeme ++ before) where
  isPrefix := List.prefix_append _ _
  isLexeme := h.isLexeme
  length_le other hother hbegins := by
    refine h.length_le other hother (hbegins.trans ?_)
    rw [← List.append_assoc]
    exact List.prefix_append _ _

/-- Tokens in front of those that a text is split into, if it can be. -/
def inFront (tokens : List Token) (outcome : Except Fault Tokens) : Except Fault Tokens :=
  outcome.map fun others => ⟨tokens ++ others.list, others.stop⟩

theorem inFront_nil (outcome : Except Fault Tokens) : inFront [] outcome = outcome := by
  cases outcome <;> rfl

theorem inFront_inFront (tokens others : List Token) (outcome : Except Fault Tokens) :
    inFront tokens (inFront others outcome) = inFront (tokens ++ others) outcome := by
  cases outcome with
  | error => rfl
  | ok last => simp [inFront, Except.map]

theorem inFront_eq_ok_iff {tokens : List Token} {outcome : Except Fault Tokens} :
    (∃ all, inFront tokens outcome = .ok all) ↔ ∃ others, outcome = .ok others := by
  cases outcome with
  | error => exact iff_of_false nofun nofun
  | ok others => exact iff_of_true ⟨_, rfl⟩ ⟨_, rfl⟩

theorem inFront_eq_error_iff {tokens : List Token} {outcome : Except Fault Tokens}
    {fault : Fault} : inFront tokens outcome = .error fault ↔ outcome = .error fault := by
  cases outcome with
  | error => exact Iff.rfl
  | ok => exact iff_of_false nofun nofun

/-- Behind a lexeme the scan goes on with the rest of the text. -/
theorem scanFrom_append {position : Nat} {lexeme : Lexeme} {first : Char} {tail rest : List Char}
    (hfirst : isBlank first = false) (htext : first :: tail = lexeme.text ++ rest)
    (h : next position first tail = .ok lexeme) :
    scanFrom position (lexeme.text ++ rest) =
      inFront [⟨lexeme.kind, position⟩] (scanFrom (position + utf8Length lexeme.text) rest) := by
  rw [← htext, scanFrom_lexeme hfirst h, htext, List.drop_left]
  cases scanFrom (position + utf8Length lexeme.text) rest <;> rfl

/-- What holds of a text as soon as it holds behind the blank or the lexeme at its front holds of
    every text. Each step leaves a shorter text. -/
@[elab_as_elim]
theorem byLexemes {motive : Nat → List Char → Prop} (nil : ∀ position, motive position [])
    (blank : ∀ position c rest, isBlank c → motive (position + c.utf8Size) rest →
      motive position (c :: rest))
    (fault : ∀ position first rest fault, isBlank first = false →
      next position first rest = .error fault → motive position (first :: rest))
    (lexeme : ∀ position first tail rest kind, isBlank first = false →
      next position first (tail ++ rest) = .ok ⟨first :: tail, kind⟩ →
      motive (position + utf8Length (first :: tail)) rest →
      motive position (first :: tail ++ rest))
    (position : Nat) (text : List Char) : motive position text := by
  induction hn : text.length using Nat.strong_induction_on generalizing position text with
  | _ n ih =>
    subst hn
    cases text with
    | nil => exact nil position
    | cons first rest =>
      cases hfirst : isBlank first with
      | true => exact blank position first rest hfirst (ih rest.length (Nat.lt_succ_self _) _ _ rfl)
      | false =>
        cases hnext : next position first rest with
        | error found => exact fault position first rest found hfirst hnext
        | ok found =>
          obtain ⟨text, kind⟩ := found
          obtain ⟨behind, hbehind⟩ := (next_isPrefix hnext).2
          obtain ⟨c, tail, rfl⟩ := List.exists_cons_of_ne_nil (next_isPrefix hnext).1
          have hsplit : c :: (tail ++ behind) = first :: rest := hbehind
          obtain ⟨rfl, rfl⟩ := List.cons.inj hsplit
          have hshorter : behind.length < (c :: (tail ++ behind)).length := by
            rw [List.length_cons, List.length_append]
            omega
          exact lexeme position c tail behind kind hfirst hnext
            (ih behind.length hshorter _ behind rfl)

/-- A text that begins with its longest lexeme and is split into tokens has that lexeme for
    its first token. -/
theorem exists_next_of_scanFrom {position : Nat} {lexeme rest : List Char} {tokens : Tokens}
    (hlongest : IsLongest lexeme (lexeme ++ rest))
    (h : scanFrom position (lexeme ++ rest) = .ok tokens) :
    ∃ first tail kind, lexeme = first :: tail ∧ isBlank first = false ∧
      next position first (tail ++ rest) = .ok ⟨lexeme, kind⟩ := by
  obtain ⟨first, tail, rfl, hfirst⟩ := hlongest.isLexeme.exists_eq_cons
  refine ⟨first, tail, ?_⟩
  cases hnext : next position first (tail ++ rest) with
  | error fault =>
    rw [List.cons_append, scanFrom_fault hfirst hnext] at h
    cases h
  | ok found =>
    have htext : found.text = first :: tail := (isLongest_of_next hnext).unique hlongest
    exact ⟨found.kind, rfl, hfirst, by rw [← htext]⟩

/-- Behind a front part that is split into tokens on its own, the scan goes on with the rest
    of the text. -/
theorem Munched.scanFrom_append {before rest : List Char} (h : Munched before rest)
    {position : Nat} {tokens : Tokens} (hbefore : scanFrom position before = .ok tokens) :
    scanFrom position (before ++ rest) =
      inFront tokens.list (scanFrom (position + utf8Length before) rest) := by
  -- both scans take the same steps, and the one of the front part alone ends with it
  induction h generalizing position tokens with
  | nil =>
    rw [scanFrom_nil] at hbefore
    cases hbefore
    rw [inFront_nil, List.nil_append, utf8Length_nil, Nat.add_zero]
  | @blank c before rest hc _ ih =>
    rw [scanFrom_blank hc] at hbefore
    rw [List.cons_append, scanFrom_blank hc, ih hbefore, utf8Length_cons, Nat.add_assoc]
  | @lexeme lexeme before rest hlongest _ ih =>
    obtain ⟨first, tail, kind, rfl, hfirst, hnext⟩ :=
      exists_next_of_scanFrom hlongest.shorten hbefore
    -- the same lexeme is found with the rest of the text behind it
    have hnext' : next position first (tail ++ (before ++ rest)) = .ok ⟨first :: tail, kind⟩ :=
      next_of_isLongest hnext hlongest position
    have hscan := Tokens.scanFrom_append hfirst rfl hnext
    have hscan' := Tokens.scanFrom_append hfirst rfl hnext'
    rw [hscan] at hbefore
    obtain ⟨others, hothers⟩ := inFront_eq_ok_iff.1 ⟨_, hbefore⟩
    rw [hothers] at hbefore
    cases hbefore
    rw [List.append_assoc, hscan', ih hothers, inFront_inFront, utf8Length_append, Nat.add_assoc]

/-- If a text is split into tokens, so is each front part of it that is blanks and longest
    lexemes. -/
theorem Munched.exists_scanFrom {before rest : List Char} (h : Munched before rest)
    {position : Nat} {tokens : Tokens} (hall : scanFrom position (before ++ rest) = .ok tokens) :
    ∃ others, scanFrom position before = .ok others := by
  -- here the steps of the whole text are known, and those of the front part follow
  induction h generalizing position tokens with
  | nil => exact ⟨_, scanFrom_nil position⟩
  | blank hc _ ih =>
    rw [List.cons_append, scanFrom_blank hc] at hall
    rw [scanFrom_blank hc]
    exact ih hall
  | @lexeme lexeme before rest hlongest _ ih =>
    rw [List.append_assoc] at hall
    obtain ⟨first, tail, kind, rfl, hfirst, hnext⟩ := exists_next_of_scanFrom hlongest hall
    have hnext' : next position first (tail ++ before) = .ok ⟨first :: tail, kind⟩ :=
      next_of_isLongest hnext hlongest.shorten position
    rw [Tokens.scanFrom_append hfirst rfl hnext] at hall
    rw [Tokens.scanFrom_append hfirst rfl hnext']
    obtain ⟨others, hothers⟩ := inFront_eq_ok_iff.1 ⟨_, hall⟩
    exact inFront_eq_ok_iff.2 (ih hothers)

/-! ## The first fault -/

/-- A text is a part that is split into tokens on its own, in blanks and longest lexemes, and
    a rest at whose front a fault shows. -/
def ReachesFault (position : Nat) (text : List Char) (fault : Fault) : Prop :=
  ∃ before first rest, text = before ++ first :: rest ∧ isBlank first = false ∧
    Munched before (first :: rest) ∧ (∃ tokens, scanFrom position before = .ok tokens) ∧
    FaultAt (position + utf8Length before) (first :: rest) fault

section Step

variable {position : Nat} {text : List Char} {fault : Fault}

theorem ReachesFault.blank {c : Char} (hc : isBlank c)
    (h : ReachesFault (position + c.utf8Size) text fault) :
    ReachesFault position (c :: text) fault := by
  obtain ⟨before, first, rest, rfl, hfirst, hmunched, ⟨tokens, htokens⟩, hfault⟩ := h
  refine ⟨c :: before, first, rest, rfl, hfirst, .blank hc hmunched, ⟨tokens, ?_⟩, ?_⟩
  · rw [scanFrom_blank hc, htokens]
  · rwa [utf8Length_cons, ← Nat.add_assoc]

theorem ReachesFault.lexeme {c : Char} {tail : List Char} {kind : TokenKind}
    (hc : isBlank c = false) (hnext : next position c (tail ++ text) = .ok ⟨c :: tail, kind⟩)
    (h : ReachesFault (position + utf8Length (c :: tail)) text fault) :
    ReachesFault position (c :: tail ++ text) fault := by
  obtain ⟨before, first, rest, rfl, hfirst, hmunched, hscan, hfault⟩ := h
  have hlongest := isLongest_of_next hnext
  refine ⟨c :: tail ++ before, first, rest, ?_, hfirst, .lexeme hlongest hmunched, ?_, ?_⟩
  · rw [List.append_assoc]
  · -- the lexeme is found without the fault behind it
    have hnext' : next position c (tail ++ before) = .ok ⟨c :: tail, kind⟩ :=
      next_of_isLongest hnext hlongest.shorten position
    rw [scanFrom_append hc rfl hnext']
    exact inFront_eq_ok_iff.2 hscan
  · rwa [utf8Length_append, ← Nat.add_assoc]

/-- A scan that fails has taken blanks and longest lexemes up to a place where a fault
    shows. -/
theorem reachesFault_of_scanFrom (h : scanFrom position text = .error fault) :
    ReachesFault position text fault := by
  induction position, text using byLexemes with
  | nil position =>
    rw [scanFrom_nil] at h
    cases h
  | blank position c rest hc ih =>
    rw [scanFrom_blank hc] at h
    exact (ih h).blank hc
  | fault position first rest fault' hfirst hnext =>
    rw [scanFrom_fault hfirst hnext] at h
    cases h
    exact ⟨[], first, rest, rfl, hfirst, .nil, ⟨_, scanFrom_nil position⟩,
      faultAt_of_next hfirst hnext⟩
  | lexeme position first tail rest kind hfirst hnext ih =>
    rw [scanFrom_append hfirst rfl hnext, inFront_eq_error_iff] at h
    exact (ih h).lexeme hfirst hnext

end Step

/-- The position of a fault is that of the place where it shows. -/
theorem FaultAt.position?_eq {position : Nat} {text : List Char} {fault : Fault}
    (h : FaultAt position text fault) : fault.position? = some position := by
  cases h <;> rfl

/-- A fault shows behind what is split into tokens. -/
theorem Munched.scanFrom_eq_error {before : List Char} {first : Char} {rest : List Char}
    (h : Munched before (first :: rest)) (hfirst : isBlank first = false) {position : Nat}
    (hbefore : ∃ tokens, scanFrom position before = .ok tokens) {fault : Fault}
    (hfault : FaultAt (position + utf8Length before) (first :: rest) fault) :
    scanFrom position (before ++ first :: rest) = .error fault := by
  obtain ⟨tokens, htokens⟩ := hbefore
  rw [h.scanFrom_append htokens, inFront_eq_error_iff]
  exact scanFrom_fault hfirst (next_of_faultAt hfault)

/-- A fault does not show at a blank or at the end. -/
theorem FaultAt.exists_eq_cons {position : Nat} {text : List Char} {fault : Fault}
    (h : FaultAt position text fault) :
    ∃ first rest, text = first :: rest ∧ isBlank first = false := by
  cases h with
  | unexpected hblank => exact ⟨_, _, rfl, hblank⟩
  | unterminated hquote => exact ⟨_, _, rfl, (not_blank_of_quote hquote).1⟩
  | invalid hlongest =>
    obtain ⟨first, tail, rfl, hfirst⟩ := hlongest.isLexeme.exists_eq_cons
    obtain ⟨rest, rfl⟩ := hlongest.isPrefix
    exact ⟨first, tail ++ rest, rfl, hfirst⟩

/-- A scan fails with a fault exactly if the source is a part that is split into tokens on its
    own, in blanks and longest lexemes, and a rest at whose front the fault shows: no lexeme
    begins there, or a string that does not end, or a number that overflows. The position of
    the fault is that of the rest, which does not begin with a blank. And a scan succeeds
    exactly if no fault shows at any place that is reached by blanks and longest lexemes. -/
theorem scan_fails_iff (source : String) :
    (∀ fault, scan source = .error fault ↔
      ∃ before first rest, source.toList = before ++ first :: rest ∧ isBlank first = false ∧
        fault.position? = some (utf8Length before) ∧
        utf8Length before < source.utf8ByteSize ∧
        Munched before (first :: rest) ∧
        (∃ tokens, scan (String.ofList before) = .ok tokens) ∧
        FaultAt (utf8Length before) (first :: rest) fault) ∧
    ((∃ tokens, scan source = .ok tokens) ↔
      ∀ before rest fault, source.toList = before ++ rest → Munched before rest →
        ¬FaultAt (utf8Length before) rest fault) := by
  have hfails (fault : Fault) (h : scan source = .error fault) :
      ∃ before first rest, source.toList = before ++ first :: rest ∧ isBlank first = false ∧
        Munched before (first :: rest) ∧ (∃ tokens, scanFrom 0 before = .ok tokens) ∧
        FaultAt (utf8Length before) (first :: rest) fault := by
    have hplace := reachesFault_of_scanFrom h
    simpa only [ReachesFault, Nat.zero_add] using hplace
  refine ⟨fun fault => ⟨fun h => ?_, ?_⟩, ?_, fun hnone => ?_⟩
  · obtain ⟨before, first, rest, hsource, hfirst, hmunched, hscan, hfault⟩ := hfails fault h
    have hinside : utf8Length before < source.utf8ByteSize := by
      have hpos := first.utf8Size_pos
      rw [← utf8Length_toList, hsource, utf8Length_append, utf8Length_cons]
      omega
    rw [← String.toList_ofList (l := before)] at hscan
    exact ⟨before, first, rest, hsource, hfirst, hfault.position?_eq, hinside, hmunched, hscan,
      hfault⟩
  · rintro ⟨before, first, rest, hsource, hfirst, -, -, hmunched, hscan, hfault⟩
    rw [← Nat.zero_add (utf8Length before)] at hfault
    rw [scan, hsource]
    rw [scan, String.toList_ofList] at hscan
    exact hmunched.scanFrom_eq_error hfirst hscan hfault
  · rintro ⟨tokens, hscan⟩ before rest fault hsource hmunched hfault
    obtain ⟨first, tail, rfl, hfirst⟩ := hfault.exists_eq_cons
    rw [scan, hsource] at hscan
    rw [← Nat.zero_add (utf8Length before)] at hfault
    have herror := hmunched.scanFrom_eq_error hfirst (hmunched.exists_scanFrom hscan) hfault
    rw [hscan] at herror
    cases herror
  · cases hscan : scan source with
    | ok tokens => exact ⟨tokens, rfl⟩
    | error fault =>
      obtain ⟨before, first, rest, hsource, -, hmunched, -, hfault⟩ := hfails fault hscan
      exact absurd hfault (hnone _ _ _ hsource hmunched)

/-- The last quote is escaped, so that the second string does not end. It begins behind eight
    bytes, two of which are one character. -/
theorem scan_fails_at_escaped_quote :
    scan "'é' == 'a\\'" = .error (.unterminatedString 8) ∧
      ∃ before rest, "'é' == 'a\\'".toList = before ++ rest ∧ utf8Length before = 8 ∧
        Munched before rest ∧ FaultAt 8 rest (.unterminatedString 8) := by
  have hscan : scan "'é' == 'a\\'" = .error (.unterminatedString 8) := by
    with_unfolding_all rfl
  obtain ⟨before, first, rest, hsource, -, hposition, -, hmunched, -, hfault⟩ :=
    ((scan_fails_iff _).1 _).1 hscan
  have hlength : utf8Length before = 8 := (Option.some.inj hposition).symm
  exact ⟨hscan, before, first :: rest, hsource, hlength, hmunched, hlength ▸ hfault⟩

end Tokens

end FormRules
