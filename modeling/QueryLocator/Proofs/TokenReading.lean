import QueryLocator.Proofs.DefinitionSpans

/-! # Which tokens a rule takes

A rule that is read without errors takes a stretch of lexemes, and what counts of them are the
tokens that are no trivia.  `Reading.Takes` keeps these only.  A step over a token takes that token
and nothing else that counts (`Reading.On.bump`), so the tokens of a rule are those of its steps one
after the other.

The readings of a document end at the mark of its end, which no rule gets past without an error.  A
reading that stands in front of it always has a current token (`Reading.On`).
-/
namespace QueryLocator.Syntax

open Reading Rule

/-- Whether a lexeme is a token of a text that is neither white space nor a comma nor a comment. -/
def Lexeme.isSignificant (lexeme : Lexeme) : Bool :=
  match lexeme.kind with
  | .ok kind => !kind.isTrivia && kind != .endOfText
  | .error _ => false

/-- The significant tokens among some lexemes. -/
def significant (run : List Lexeme) : List Lexeme :=
  run.filter Lexeme.isSignificant

theorem Lexeme.isSignificant_of_kind {lexeme : Lexeme} {kind : TokenKind}
    (h : lexeme.kind = .ok kind) :
    lexeme.isSignificant = (!kind.isTrivia && kind != .endOfText) := by
  rw [Lexeme.isSignificant, h]

theorem significant_append (a b : List Lexeme) :
    significant (a ++ b) = significant a ++ significant b :=
  List.filter_append ..

/-- Trivia do not count. -/
theorem significant_of_trivia {trivia : List Lexeme}
    (h : ∀ lexeme ∈ trivia, ∃ kind, lexeme.kind = .ok kind ∧ kind.isTrivia = true) :
    significant trivia = [] := by
  refine List.filter_eq_nil_iff.mpr fun lexeme hmem => ?_
  obtain ⟨kind, hkind, htrivia⟩ := h lexeme hmem
  simp [Lexeme.isSignificant_of_kind hkind, htrivia]

/-! ## Readings of a document -/

/-- A reading of a text that has found no error and stands in front of the end. -/
structure Reading.On (s : Reading) (text : List Char) : Prop where
  ready : s.Ready
  ahead : s.ahead <:+ markedLexemes text
  goesOn : s.ahead ≠ []

/-- From one reading to a later one some tokens have been taken, and trivia between them. -/
def Reading.Takes (s : Reading) (tokens : List Lexeme) (t : Reading) : Prop :=
  ∃ run, s.Reads run t ∧ significant run = tokens

theorem Reading.Takes.trans {s t u : Reading} {first next : List Lexeme} (h : s.Takes first t)
    (h' : t.Takes next u) : s.Takes (first ++ next) u := by
  obtain ⟨run, hreads, rfl⟩ := h
  obtain ⟨run', hreads', rfl⟩ := h'
  exact ⟨run ++ run', hreads.trans hreads', significant_append run run'⟩

/-- The lexemes between two readings are told by what they have taken. -/
theorem Reading.Takes.eq_significant {s t : Reading} {tokens run : List Lexeme}
    (h : s.Takes tokens t) (hrun : s.Reads run t) : tokens = significant run := by
  obtain ⟨run', hreads, rfl⟩ := h
  rw [← takenSince_eq hreads, takenSince_eq hrun]

/-- A rule that is read without errors takes some tokens. -/
theorem Rule.Formed.takes {rule : Rule} (hrule : Formed rule) {s : Reading} (hs : s.Ready)
    (herrors : (rule s).errors = []) : (rule s).Ready ∧ ∃ tokens, s.Takes tokens (rule s) := by
  obtain ⟨hready, run, hreads⟩ := hrule.reads hs herrors
  exact ⟨hready, _, run, hreads, rfl⟩

section On
variable {text : List Char} {s t : Reading}

/-- Where a fault is reported there are errors. -/
theorem Reading.On.report_errors (h : s.On text) (fault : GrammarFault) :
    (s.report fault).errors ≠ [] :=
  fun herrors => h.goesOn (h.ready.report_eq_self herrors).2

/-- A step over a token takes that token, and a token is left. -/
theorem Reading.On.bump (h : s.On text) {lexeme : Lexeme} (hcurrent : s.current? = some lexeme)
    (hsignificant : lexeme.isSignificant = true) (herrors : s.bump.errors = []) :
    s.bump.On text ∧ s.Takes [lexeme] s.bump := by
  obtain ⟨rest, hahead⟩ := List.head?_eq_some_iff.mp hcurrent
  obtain ⟨hready, trivia, hreads, htrivia⟩ := bump_reads_cons h.ready hahead herrors
  refine ⟨⟨hready, ?_, fun hnone => ?_⟩, lexeme :: trivia, hreads, ?_⟩
  · exact (hreads.ahead ▸ List.suffix_append ..).trans h.ahead
  · -- the mark of the end would be the token or one of the trivia behind it
    have hlast : (lexeme :: trivia).getLast? = some (endMark text) := by
      obtain ⟨front, hfront⟩ := h.ahead
      rw [hreads.ahead, hnone, List.append_nil, markedLexemes_eq] at hfront
      have hgetLast := congrArg List.getLast? hfront
      rw [List.getLast?_append, List.getLast?_concat, List.getLast?_cons] at hgetLast
      rw [List.getLast?_cons]
      exact hgetLast
    rcases List.mem_cons.mp (List.mem_of_getLast? hlast) with heq | hmem
    · rw [← heq] at hsignificant
      exact absurd hsignificant (by simp [Lexeme.isSignificant, endMark])
    · obtain ⟨kind, hkind, hkindTrivia⟩ := htrivia _ hmem
      obtain rfl := Except.ok.inj hkind
      exact absurd hkindTrivia (by decide)
  · rw [significant, List.filter_cons_of_pos hsignificant]
    exact congrArg _ (significant_of_trivia htrivia)

/-- A current lexeme at which the text ends is the last one. -/
theorem Reading.On.ahead_eq_endMark (h : s.On text) {lexeme : Lexeme}
    (hcurrent : s.current? = some lexeme) (hkind : lexeme.kind = .ok .endOfText) :
    s.ahead = [endMark text] := by
  obtain ⟨front, hfront⟩ := h.ahead
  exact eq_endMark_of_suffix hfront.symm hcurrent hkind

/-- The first of the tokens that are taken is the current one. -/
theorem Reading.On.head?_of_takes (h : s.On text) {tokens : List Lexeme}
    (htakes : s.Takes tokens t) : tokens = [] ∨ tokens.head? = s.current? := by
  obtain ⟨run, hreads, rfl⟩ := htakes
  cases run with
  | nil => exact Or.inl rfl
  | cons lexeme run =>
    have hcurrent : s.current? = some lexeme := by rw [current?, hreads.ahead]; rfl
    obtain ⟨kind, hkind, htrivia⟩ := h.ready.settled lexeme hcurrent
    by_cases hend : kind = .endOfText
    · have hmark := h.ahead_eq_endMark hcurrent (hend ▸ hkind)
      rw [hreads.ahead] at hmark
      obtain ⟨-, hrest⟩ := List.cons.inj hmark
      obtain ⟨rfl, -⟩ := List.append_eq_nil_iff.mp hrest
      simp [significant, Lexeme.isSignificant_of_kind hkind, hend]
    · have hsignificant : lexeme.isSignificant = true := by
        simp [Lexeme.isSignificant_of_kind hkind, htrivia, hend]
      rw [significant, List.filter_cons_of_pos hsignificant, hcurrent]
      exact Or.inr rfl

/-- What is ahead comes from the text, up to the mark of its end. -/
theorem Reading.On.exists_form (h : s.On text) {lexeme : Lexeme} (hmem : lexeme ∈ s.ahead)
    {kind : TokenKind} (hkind : lexeme.kind = .ok kind) (hend : kind ≠ .endOfText) :
    ∃ tail, TokenForm kind lexeme.text tail := by
  have hmarked := h.ahead.subset hmem
  rw [markedLexemes_eq, List.mem_append, List.mem_singleton] at hmarked
  rcases hmarked with hlexeme | rfl
  · exact exists_form_of_mem hlexeme hkind
  · exact absurd (Except.ok.inj hkind).symm hend

theorem Reading.current?_mem {lexeme : Lexeme} (h : s.current? = some lexeme) : lexeme ∈ s.ahead :=
  List.mem_of_head? h

/-- A current token with a text counts. -/
theorem Reading.On.isSignificant_of_text (h : s.On text) {lexeme : Lexeme}
    (hcurrent : s.current? = some lexeme) (htext : lexeme.text ≠ []) :
    lexeme.isSignificant = true := by
  obtain ⟨kind, hkind, htrivia⟩ := h.ready.settled lexeme hcurrent
  have hend : kind ≠ .endOfText := by
    rintro rfl
    rw [current?, h.ahead_eq_endMark hcurrent hkind] at hcurrent
    obtain rfl := Option.some.inj hcurrent
    exact htext rfl
  simp [Lexeme.isSignificant_of_kind hkind, htrivia, hend]

/-- Behind a step stands the token that was seen there before, unless it is a comma. -/
theorem Reading.On.current?_bump (h : s.On text) {lexeme second : Lexeme}
    (hcurrent : s.current? = some lexeme) (hsignificant : lexeme.isSignificant = true)
    (hsecond : s.second? = some second) (hcomma : second.text ≠ [','])
    (herrors : s.bump.errors = []) : s.bump.current? = some second := by
  obtain ⟨rest, hahead⟩ := List.head?_eq_some_iff.mp hcurrent
  obtain ⟨-, trivia, hreads, htrivia⟩ := bump_reads_cons h.ready hahead herrors
  obtain ⟨hon, -⟩ := h.bump hcurrent hsignificant herrors
  obtain ⟨next, more, hnext⟩ := List.exists_cons_of_ne_nil hon.goesOn
  have hcurrent' : s.bump.current? = some next := by rw [current?, hnext]; rfl
  have hsplit := hreads.ahead
  rw [second?, hsplit, hnext, List.cons_append, List.tail_cons, List.find?_append,
    Option.or_eq_some_iff] at hsecond
  rcases hsecond with hfound | ⟨-, hfound⟩
  · -- of the trivia only a comma can be seen there
    have hmem := List.mem_of_find?_eq_some hfound
    obtain ⟨kind, hkind, hkindTrivia⟩ := htrivia second hmem
    have hcounts := List.find?_some hfound
    rw [hkind] at hcounts
    obtain rfl : kind = .comma := by cases kind <;> simp_all [TokenKind.isTrivia]
    obtain ⟨tail, hform⟩ := h.exists_form (hsplit ▸ by simp [hmem]) hkind (by simp)
    exact absurd hform.comma_text hcomma
  · obtain ⟨kind, hkind, hkindTrivia⟩ := hon.ready.settled next hcurrent'
    rw [List.find?_cons_of_pos] at hfound
    · rw [hcurrent', hfound]
    · rw [hkind]
      cases kind <;> simp_all [TokenKind.isTrivia]

/-- What begins as definitions do takes its first lexeme as a token. -/
theorem Reading.takes_of_opens {first : Lexeme} {rest : List Lexeme}
    (hreads : s.Reads (first :: rest) t) (hopens : first.Opens) :
    s.current? = some first ∧ s.Takes (first :: significant rest) t := by
  have hsignificant : first.isSignificant = true := by
    rcases hopens with hkind | hkind | hkind <;> exact Lexeme.isSignificant_of_kind hkind
  refine ⟨by rw [current?, hreads.ahead]; rfl, first :: rest, hreads, ?_⟩
  rw [significant, List.filter_cons_of_pos hsignificant]
  rfl

end On

end QueryLocator.Syntax
