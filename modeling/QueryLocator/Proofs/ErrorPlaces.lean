import QueryLocator.Proofs.CursorSpan

/-! # Where the errors of a text stand

An error of the grammar is reported at the current token, a faulty piece at itself, so every error
stands where a lexeme begins or where the text ends (`errors_at_lexemes`).

A lexeme begins between two characters, and only one of white space may begin between the two halves of
a terminator.  White space is passed before a token becomes current, with one exception: behind a token
that was dropped from a list type the next lexeme is current whatever it is.  So without an error that
tells of such a token all errors stand where a cursor can stand.
-/
namespace QueryLocator.Syntax

open Text Reading Rule

/-! ## Which lexemes an error can stand at -/

/-- A reading that has reported a token dropped from a list type. -/
def Reading.Dropped (s : Reading) : Prop :=
  ∃ error ∈ s.errors, error.message = "expected item type"

/-- Errors are found at lexemes of a run; at white space only once a token was dropped. -/
structure Reading.Within (run : List Lexeme) (s : Reading) : Prop where
  ahead : s.ahead <:+ run
  errors : ∀ error ∈ s.errors, ∃ lexeme ∈ run, lexeme.offset = error.offset ∧
    (lexeme.kind = .ok .whitespace → s.Dropped)

/-- White space is current only once a token was dropped, or where nothing more is reported. -/
structure Reading.Placing (run : List Lexeme) (s : Reading) : Prop extends s.Within run where
  current : ∀ lexeme, s.current? = some lexeme → lexeme.kind = .ok .whitespace →
    s.silenced = true ∨ s.Dropped

theorem message_expected_itemType :
    (GrammarFault.expected "item type").message = "expected item type" := by
  decide

section Places
variable {run : List Lexeme} {s t : Reading}

theorem Reading.Dropped.grow (h : s.Dropped) (hgrow : s.ErrorsGrow t) : t.Dropped :=
  hgrow.exists_mem h

/-- Passing lexemes finds errors at faulty ones only, and stops in front of a token. -/
theorem passing_places (skipped : TokenKind → Bool) (taken : List Lexeme) (errors : List SyntaxError)
    (silenced : Bool) (ahead : List Lexeme) :
    (passing skipped taken errors silenced ahead).ahead <:+ ahead ∧
      (∀ error ∈ (passing skipped taken errors silenced ahead).errors, error ∈ errors ∨
        ∃ lexeme ∈ ahead, lexeme.offset = error.offset ∧ lexeme.kind ≠ .ok .whitespace) ∧
      ∀ lexeme, (passing skipped taken errors silenced ahead).current? = some lexeme →
        ∃ kind, lexeme.kind = .ok kind ∧ skipped kind = false := by
  induction ahead generalizing taken errors with
  | nil => exact ⟨List.suffix_rfl, fun error h => Or.inl h, by simp [passing, current?]⟩
  | cons lexeme rest ih =>
    rw [passing]
    split
    · -- the error of a faulty lexeme stands at that lexeme
      rename_i fault hkind
      obtain ⟨hsuffix, herrors, hcurrent⟩ := ih (lexeme :: taken)
        (⟨fault.message, lexeme.offset⟩ :: errors)
      refine ⟨hsuffix.trans (List.suffix_cons ..), fun error herror => ?_, hcurrent⟩
      rcases herrors error herror with hmem | ⟨other, hother, hplace⟩
      · rcases List.mem_cons.mp hmem with rfl | hmem
        · exact Or.inr ⟨lexeme, List.mem_cons_self .., rfl, by simp [hkind]⟩
        · exact Or.inl hmem
      · exact Or.inr ⟨other, List.mem_cons_of_mem _ hother, hplace⟩
    · rename_i kind hkind
      split
      · obtain ⟨hsuffix, herrors, hcurrent⟩ := ih (lexeme :: taken) errors
        refine ⟨hsuffix.trans (List.suffix_cons ..), fun error herror => ?_, hcurrent⟩
        rcases herrors error herror with hmem | ⟨other, hother, hplace⟩
        · exact Or.inl hmem
        · exact Or.inr ⟨other, List.mem_cons_of_mem _ hother, hplace⟩
      · rename_i hskipped
        refine ⟨List.suffix_rfl, fun error h => Or.inl h, fun other hother => ?_⟩
        obtain rfl : lexeme = other := Option.some.inj hother
        exact ⟨kind, hkind, Bool.eq_false_iff.mpr hskipped⟩

/-- Passing lexemes leaves the errors where they can stand, if white space is passed or may be
current. -/
theorem Reading.Within.passing (h : s.Within run) {skipped : TokenKind → Bool}
    (hspace : skipped .whitespace = true ∨ s.silenced = true ∨ s.Dropped) :
    (passing skipped s.taken s.errors s.silenced s.ahead).Placing run := by
  have hgrow : s.ErrorsGrow (Reading.passing skipped s.taken s.errors s.silenced s.ahead) :=
    passing_errors ..
  obtain ⟨hsuffix, herrors, hcurrent⟩ :=
    passing_places skipped s.taken s.errors s.silenced s.ahead
  refine ⟨⟨hsuffix.trans h.ahead, fun error herror => ?_⟩, fun lexeme hlexeme hkind => ?_⟩
  · rcases herrors error herror with hold | ⟨lexeme, hmem, hplace, hkind⟩
    · obtain ⟨lexeme, hmem, hplace, hdropped⟩ := h.errors error hold
      exact ⟨lexeme, hmem, hplace, fun hkind => (hdropped hkind).grow hgrow⟩
    · exact ⟨lexeme, h.ahead.subset hmem, hplace, fun hspace => absurd hspace hkind⟩
  · obtain ⟨kind, hfound, hskipped⟩ := hcurrent lexeme hlexeme
    obtain rfl : kind = .whitespace := Except.ok.inj (hfound.symm.trans hkind)
    rw [passing_silenced]
    rcases hspace with hpassed | hsilent | hdropped
    · exact absurd hpassed (Bool.eq_false_iff.mp hskipped)
    · exact Or.inl hsilent
    · exact Or.inr (hdropped.grow hgrow)

theorem Reading.Within.take (h : s.Within run) : s.take.Within run := by
  unfold Reading.take
  split
  · exact h
  · rename_i lexeme rest hahead
    refine ⟨?_, h.errors⟩
    have hsuffix := h.ahead
    rw [hahead] at hsuffix
    exact (List.suffix_cons lexeme rest).trans hsuffix

/-- An error may be reported at a lexeme of the run, unless it is white space where nothing was
dropped. -/
theorem Reading.Within.reportAt (h : s.Within run) {lexeme : Lexeme} (hmem : lexeme ∈ run)
    {fault : GrammarFault} (hkind : lexeme.kind = .ok .whitespace → s.silenced = true ∨ s.Dropped ∨
      fault.message = "expected item type") : (s.reportAt lexeme.offset fault).Within run := by
  have hgrow := reportAt_errors lexeme.offset fault s
  unfold Reading.reportAt at hgrow ⊢
  split
  · exact h
  · rename_i hloud
    rw [if_neg hloud] at hgrow
    refine ⟨h.ahead, fun error herror => ?_⟩
    rcases List.mem_cons.mp herror with rfl | hold
    · refine ⟨lexeme, hmem, rfl, fun hspace => ?_⟩
      rcases hkind hspace with hsilent | hdropped | hmessage
      · exact absurd hsilent hloud
      · exact hdropped.grow hgrow
      · exact ⟨_, List.mem_cons_self .., hmessage⟩
    · obtain ⟨other, hother, hplace, hdropped⟩ := h.errors error hold
      exact ⟨other, hother, hplace, fun hspace => (hdropped hspace).grow hgrow⟩

theorem reportAt_ahead (offset : Nat) (fault : GrammarFault) (s : Reading) :
    (s.reportAt offset fault).ahead = s.ahead := by
  unfold reportAt
  split <;> rfl

theorem reportAt_silenced (offset : Nat) (fault : GrammarFault) (s : Reading) :
    (s.reportAt offset fault).silenced = s.silenced := by
  unfold reportAt
  split <;> rfl

theorem Reading.Placing.report (h : s.Placing run) (fault : GrammarFault) :
    (s.report fault).Placing run := by
  unfold Reading.report
  split
  · rename_i lexeme hlexeme
    have hmem : lexeme ∈ run := h.ahead.subset (List.mem_of_head? hlexeme)
    have hwithin : (s.reportAt lexeme.offset fault).Within run :=
      h.toWithin.reportAt hmem fun hspace => (h.current lexeme hlexeme hspace).imp_right Or.inl
    refine ⟨hwithin, fun other hother hspace => ?_⟩
    rw [current?, reportAt_ahead] at hother
    rw [reportAt_silenced]
    exact (h.current other hother hspace).imp_right fun hdropped =>
      hdropped.grow (reportAt_errors ..)
  · exact h

theorem Reading.Placing.overLimit (h : s.Placing run) : s.overLimit.Placing run := by
  have hreport := h.report .nestingLimit
  exact ⟨⟨hreport.ahead, hreport.errors⟩, fun _ _ _ => Or.inl rfl⟩

/-- Behind a token that was dropped white space may be current: either the drop was reported, or nothing
is reported any more. -/
theorem Reading.Placing.discard (h : s.Placing run) :
    (Reading.discard (.expected "item type") s).Placing run := by
  unfold Reading.discard
  split
  · exact h
  · rename_i lexeme rest hahead
    have hsuffix := h.ahead
    rw [hahead] at hsuffix
    have hrest : Reading.Within run { s with ahead := rest } :=
      ⟨(List.suffix_cons lexeme rest).trans hsuffix, h.errors⟩
    have hwithin : (Reading.reportAt lexeme.offset (.expected "item type")
        { s with ahead := rest }).Within run :=
      hrest.reportAt (hsuffix.subset (List.mem_cons_self ..)) fun _ =>
        Or.inr (Or.inr message_expected_itemType)
    refine hwithin.passing (Or.inr ?_)
    unfold reportAt
    split
    · rename_i hsilent
      exact Or.inl hsilent
    · exact Or.inr ⟨_, List.mem_cons_self .., message_expected_itemType⟩

/-- **A rule reports at the lexemes of the run**, at white space only once a token was dropped. -/
theorem Rule.Formed.placing {rule : Rule} (h : Formed rule) (hs : s.Placing run) :
    (rule s).Placing run := by
  induction h generalizing s with
  | pass => exact hs
  | bump => exact hs.take.passing (Or.inl rfl)
  | skip => exact hs.passing (Or.inl rfl)
  | report fault => exact hs.report _
  | overLimit => exact hs.overLimit
  | discard => exact hs.discard
  | follow _ _ ih ih' => exact ih' (ih hs)
  | choose _ _ ih => exact ih s hs

end Places

/-! ## The errors of a text -/

/-- **Every error of a text stands at a lexeme or at the end of the text**, and at white space only if
an error tells of a token that was dropped from a list type. -/
theorem errors_at_lexemes (text : List Char) :
    ∀ error ∈ (readDocument text).errors, ∃ lexeme ∈ markedLexemes text,
      lexeme.offset = error.offset ∧ (lexeme.kind = .ok .whitespace →
        ∃ other ∈ (readDocument text).errors, other.message = "expected item type") := by
  have hstart : Reading.Within (markedLexemes text) ⟨markedLexemes text, [], [], false⟩ :=
    ⟨List.suffix_rfl, by simp⟩
  obtain ⟨s, hs, -, herrors⟩ := readDocument_invariant (fun _ hrule _ h => hrule.placing h)
    (hstart.passing (Or.inl rfl))
  intro error herror
  rw [herrors, List.mem_reverse] at herror
  obtain ⟨lexeme, hmem, hplace, hdropped⟩ := hs.errors error herror
  refine ⟨lexeme, hmem, hplace, fun hspace => ?_⟩
  obtain ⟨other, hother, hmessage⟩ := hdropped hspace
  exact ⟨other, by rw [herrors]; exact List.mem_reverse.mpr hother, hmessage⟩

/-- A lexeme begins between two characters, and if it is not white space not between the two halves of
a terminator. -/
theorem exists_cut_of_mem_markedLexemes {text : List Char} {lexeme : Lexeme}
    (h : lexeme ∈ markedLexemes text) :
    ∃ pre suf, text = pre ++ suf ∧ byteSize pre = lexeme.offset ∧
      (lexeme.kind ≠ .ok .whitespace → CleanCut pre suf) := by
  rw [markedLexemes_eq, List.mem_append, List.mem_singleton] at h
  rcases h with hmem | rfl
  · obtain ⟨front, back, htext, hstart⟩ := exists_of_mem_lexemes hmem
    refine ⟨front, lexeme.text ++ back, htext, hstart.symm, fun hkind => ?_⟩
    apply Classical.byContradiction
    intro hcut
    obtain ⟨before, after, -, hbehind⟩ := exists_of_not_cleanCut hcut
    obtain ⟨c, body, hc⟩ := List.exists_cons_of_ne_nil (text_ne_nil_of_mem_lexemes hmem)
    rw [hc, List.cons_append] at hbehind
    obtain ⟨rfl, -⟩ := List.cons.inj hbehind
    exact hkind (kind_of_head_isSpace hmem (by rw [hc]; rfl) rfl)
  · exact ⟨text, [], (List.append_nil _).symm, rfl, fun _ => cleanCut_nil_right text⟩

end QueryLocator.Syntax
