import QueryLocator.Proofs.RuleForms

/-! # Readings without errors

Errors only accumulate, so a reading that ends without errors never had any.  Such a reading is
lossless: what it has taken is a stretch of what was ahead, in order, and holds no faulty piece
(`Rule.Formed.reads`).
-/
namespace QueryLocator.Syntax

open Reading Rule

/-- Errors are only ever added. -/
def Reading.ErrorsGrow (s t : Reading) : Prop :=
  ∃ more, t.errors = more ++ s.errors

/-- A reading that has found no error and can go on. -/
structure Reading.Ready (s : Reading) : Prop where
  /-- The current token is a token, and no trivia. -/
  settled : ∀ lexeme, s.current? = some lexeme →
    ∃ kind, lexeme.kind = .ok kind ∧ kind.isTrivia = false
  /-- The grammar is silent only where there is nothing left to report. -/
  attentive : s.silenced = true → s.ahead = []

/-- From one reading to a later one some lexemes have been taken, in order and without a faulty
piece among them. -/
structure Reading.Reads (s : Reading) (lexemes : List Lexeme) (t : Reading) : Prop where
  ahead : s.ahead = lexemes ++ t.ahead
  taken : t.taken = lexemes.reverse ++ s.taken
  sound : ∀ lexeme ∈ lexemes, ∃ kind, lexeme.kind = .ok kind

theorem Reading.Reads.refl (s : Reading) : s.Reads [] s :=
  ⟨rfl, rfl, by simp⟩

theorem Reading.Reads.trans {s t u : Reading} {first next : List Lexeme} (h : s.Reads first t)
    (h' : t.Reads next u) : s.Reads (first ++ next) u where
  ahead := by rw [h.ahead, h'.ahead, List.append_assoc]
  taken := by rw [h'.taken, h.taken, List.reverse_append, List.append_assoc]
  sound := by
    intro lexeme hmem
    rcases List.mem_append.mp hmem with hmem | hmem
    · exact h.sound lexeme hmem
    · exact h'.sound lexeme hmem

/-! ## Errors grow -/

theorem Reading.ErrorsGrow.refl (s : Reading) : s.ErrorsGrow s :=
  ⟨[], rfl⟩

theorem Reading.ErrorsGrow.trans {s t u : Reading} (h : s.ErrorsGrow t) (h' : t.ErrorsGrow u) :
    s.ErrorsGrow u := by
  obtain ⟨more, hmore⟩ := h
  obtain ⟨more', hmore'⟩ := h'
  exact ⟨more' ++ more, by rw [hmore', hmore, List.append_assoc]⟩

theorem Reading.ErrorsGrow.errors_eq_nil {s t : Reading} (h : s.ErrorsGrow t) (ht : t.errors = []) :
    s.errors = [] := by
  obtain ⟨more, hmore⟩ := h
  rw [ht] at hmore
  exact (List.append_eq_nil_iff.mp hmore.symm).2

/-- An error that was found stays. -/
theorem Reading.ErrorsGrow.exists_mem {s t : Reading} (h : s.ErrorsGrow t) {p : SyntaxError → Prop}
    (hfound : ∃ error ∈ s.errors, p error) : ∃ error ∈ t.errors, p error := by
  obtain ⟨error, hmem, herror⟩ := hfound
  obtain ⟨more, hmore⟩ := h
  exact ⟨error, by rw [hmore]; exact List.mem_append_right more hmem, herror⟩

theorem passing_errors (skipped : TokenKind → Bool) (taken : List Lexeme) (errors : List SyntaxError)
    (silenced : Bool) (ahead : List Lexeme) :
    ∃ more, (passing skipped taken errors silenced ahead).errors = more ++ errors := by
  induction ahead generalizing taken errors with
  | nil => exact ⟨[], rfl⟩
  | cons lexeme rest ih =>
    rw [passing]
    split
    · rename_i fault _
      obtain ⟨more, hmore⟩ := ih (lexeme :: taken) (⟨fault.message, lexeme.offset⟩ :: errors)
      exact ⟨more ++ [⟨fault.message, lexeme.offset⟩], by rw [hmore]; simp⟩
    · split
      · exact ih (lexeme :: taken) errors
      · exact ⟨[], rfl⟩

theorem passing_silenced (skipped : TokenKind → Bool) (taken : List Lexeme)
    (errors : List SyntaxError) (silenced : Bool) (ahead : List Lexeme) :
    (passing skipped taken errors silenced ahead).silenced = silenced := by
  induction ahead generalizing taken errors with
  | nil => rfl
  | cons lexeme rest ih =>
    rw [passing]
    split
    · exact ih ..
    · split
      · exact ih ..
      · rfl

theorem reportAt_errors (offset : Nat) (fault : GrammarFault) (s : Reading) :
    s.ErrorsGrow (s.reportAt offset fault) := by
  unfold reportAt
  split
  · exact .refl s
  · exact ⟨[⟨fault.message, offset⟩], rfl⟩

theorem report_errors (fault : GrammarFault) (s : Reading) : s.ErrorsGrow (s.report fault) := by
  unfold report
  split
  · exact reportAt_errors ..
  · exact .refl s

theorem skip_errors (s : Reading) : s.ErrorsGrow s.skip :=
  passing_errors ..

theorem settle_errors (s : Reading) : s.ErrorsGrow s.settle :=
  passing_errors ..

theorem take_errors (s : Reading) : s.ErrorsGrow s.take := by
  unfold take
  split
  · exact .refl s
  · exact ⟨[], rfl⟩

theorem discard_errors (fault : GrammarFault) (s : Reading) :
    s.ErrorsGrow (Reading.discard fault s) := by
  unfold Reading.discard
  split
  · exact .refl s
  · rename_i lexeme rest _
    exact (reportAt_errors lexeme.offset fault { s with ahead := rest }).trans (settle_errors _)

/-- **Errors only accumulate.** -/
theorem Rule.Formed.errors_grow {rule : Rule} (h : Formed rule) (s : Reading) :
    s.ErrorsGrow (rule s) := by
  induction h generalizing s with
  | pass => exact .refl s
  | bump => exact (take_errors s).trans (skip_errors _)
  | skip => exact skip_errors s
  | report => exact report_errors ..
  | overLimit => exact report_errors .nestingLimit s
  | discard => exact discard_errors _ s
  | follow _ _ ih ih' => exact (ih s).trans (ih' _)
  | choose _ _ ih => exact ih s s

/-- Where a rule leaves no errors, there were none before it. -/
theorem Rule.Formed.errors_eq_nil {rule : Rule} (h : Formed rule) {s : Reading}
    (herrors : (rule s).errors = []) : s.errors = [] :=
  (h.errors_grow s).errors_eq_nil herrors

/-! ## Readings that stay without errors -/

/-- Passing lexemes without finding an error splits off the front of what was ahead. -/
theorem passing_reads {skipped : TokenKind → Bool} {taken : List Lexeme} {errors : List SyntaxError}
    {silenced : Bool} {ahead : List Lexeme}
    (h : (passing skipped taken errors silenced ahead).errors = []) :
    ∃ front rest, ahead = front ++ rest ∧
      passing skipped taken errors silenced ahead = ⟨rest, front.reverse ++ taken, errors, silenced⟩ ∧
      (∀ lexeme ∈ front, ∃ kind, lexeme.kind = .ok kind ∧ skipped kind = true) ∧
      ∀ lexeme, rest.head? = some lexeme → ∃ kind, lexeme.kind = .ok kind ∧ skipped kind = false := by
  induction ahead generalizing taken errors with
  | nil => exact ⟨[], [], rfl, rfl, by simp, by simp⟩
  | cons lexeme rest ih =>
    rw [passing] at h ⊢
    cases hkind : lexeme.kind with
    | error fault =>
      rw [hkind] at h
      obtain ⟨more, hmore⟩ := passing_errors skipped (lexeme :: taken)
        (⟨fault.message, lexeme.offset⟩ :: errors) silenced rest
      simp only [hmore] at h
      simp at h
    | ok kind =>
      rw [hkind] at h
      simp only at h ⊢
      by_cases hskip : skipped kind = true
      · rw [if_pos hskip] at h ⊢
        obtain ⟨front, rest, rfl, hpassing, hfront, hrest⟩ := ih h
        refine ⟨lexeme :: front, rest, rfl, by simp [hpassing], ?_, hrest⟩
        intro x hx
        rcases List.mem_cons.mp hx with rfl | hx
        · exact ⟨kind, hkind, hskip⟩
        · exact hfront x hx
      · rw [if_neg hskip]
        refine ⟨[], lexeme :: rest, rfl, rfl, by simp, ?_⟩
        rintro x ⟨⟩
        exact ⟨kind, hkind, Bool.eq_false_iff.mpr hskip⟩

/-- A fault that is reported without effect leaves the reading as it was. -/
theorem report_eq_self {fault : GrammarFault} {s : Reading} (h : (s.report fault).errors = []) :
    s.report fault = s ∧ (s.ahead = [] ∨ s.silenced = true) := by
  unfold report current? at h ⊢
  cases hahead : s.ahead with
  | nil => simp
  | cons lexeme rest =>
    rw [hahead] at h
    simp only [List.head?_cons, reportAt] at h ⊢
    by_cases hsilent : s.silenced = true
    · rw [if_pos hsilent]
      exact ⟨rfl, Or.inr hsilent⟩
    · rw [if_neg hsilent] at h
      simp at h

theorem Reading.Ready.report_eq_self {fault : GrammarFault} {s : Reading} (hs : s.Ready)
    (h : (s.report fault).errors = []) : s.report fault = s ∧ s.ahead = [] := by
  obtain ⟨heq, hahead | hsilent⟩ := Syntax.report_eq_self h
  · exact ⟨heq, hahead⟩
  · exact ⟨heq, hs.attentive hsilent⟩

/-- Passing trivia makes a reading ready. -/
theorem skip_reads {s : Reading} (hquiet : s.silenced = true → s.ahead = [])
    (h : s.skip.errors = []) : s.skip.Ready ∧ ∃ trivia, s.Reads trivia s.skip ∧
      ∀ lexeme ∈ trivia, ∃ kind, lexeme.kind = .ok kind ∧ kind.isTrivia = true := by
  obtain ⟨front, rest, hahead, hskip, hfront, hrest⟩ := passing_reads h
  have hskip : s.skip = ⟨rest, front.reverse ++ s.taken, s.errors, s.silenced⟩ := hskip
  rw [hskip]
  refine ⟨⟨hrest, ?_⟩, front, ⟨hahead, rfl, ?_⟩, hfront⟩
  · intro hsilent
    rw [hquiet hsilent] at hahead
    exact (List.append_eq_nil_iff.mp hahead.symm).2
  · intro lexeme hmem
    obtain ⟨kind, hkind, -⟩ := hfront lexeme hmem
    exact ⟨kind, hkind⟩

/-- Taking a token of a reading that can go on does not silence it. -/
theorem Reading.Ready.take_attentive {s : Reading} (hs : s.Ready) :
    s.take.silenced = true → s.take.ahead = [] := by
  intro hsilent
  unfold take at hsilent ⊢
  split
  · assumption
  · rename_i lexeme rest hahead
    rw [hahead] at hsilent
    have := hs.attentive hsilent
    rw [hahead] at this
    simp at this

/-- Taking the current token takes that token and the trivia behind it. -/
theorem bump_reads_cons {s : Reading} {lexeme : Lexeme} {rest : List Lexeme} (hs : s.Ready)
    (hahead : s.ahead = lexeme :: rest) (h : s.bump.errors = []) :
    s.bump.Ready ∧ ∃ trivia, s.Reads (lexeme :: trivia) s.bump ∧
      ∀ lexeme ∈ trivia, ∃ kind, lexeme.kind = .ok kind ∧ kind.isTrivia = true := by
  obtain ⟨hready, trivia, hreads, htrivia⟩ := skip_reads hs.take_attentive h
  obtain ⟨kind, hkind, -⟩ := hs.settled lexeme (by rw [current?, hahead]; rfl)
  have hfirst : s.Reads [lexeme] s.take := by
    constructor <;> simp [take, hahead, hkind]
  exact ⟨hready, trivia, hfirst.trans hreads, htrivia⟩

theorem bump_reads {s : Reading} (hs : s.Ready) (h : s.bump.errors = []) :
    s.bump.Ready ∧ ∃ lexemes, s.Reads lexemes s.bump := by
  cases hahead : s.ahead with
  | nil =>
    obtain ⟨hready, trivia, hreads, -⟩ := skip_reads hs.take_attentive h
    have heq : s.take = s := by rw [take, hahead]
    have hreads : s.take.Reads trivia s.bump := hreads
    rw [heq] at hreads
    exact ⟨hready, trivia, hreads⟩
  | cons lexeme rest =>
    obtain ⟨hready, trivia, hreads, -⟩ := bump_reads_cons hs hahead h
    exact ⟨hready, lexeme :: trivia, hreads⟩

/-- **A reading without errors is lossless.** -/
theorem Rule.Formed.reads {rule : Rule} (h : Formed rule) {s : Reading} (hs : s.Ready)
    (herrors : (rule s).errors = []) : (rule s).Ready ∧ ∃ lexemes, s.Reads lexemes (rule s) := by
  induction h generalizing s with
  | pass => exact ⟨hs, [], .refl s⟩
  | bump => exact bump_reads hs herrors
  | skip =>
    obtain ⟨hready, trivia, hreads, -⟩ := skip_reads hs.attentive herrors
    exact ⟨hready, trivia, hreads⟩
  | report fault =>
    have heq := (hs.report_eq_self herrors).1
    simp only [heq]
    exact ⟨hs, [], .refl s⟩
  | overLimit =>
    obtain ⟨heq, hahead⟩ := hs.report_eq_self (s := s) herrors
    unfold Reading.overLimit
    rw [heq]
    exact ⟨⟨hs.settled, fun _ => hahead⟩, [], ⟨rfl, rfl, by simp⟩⟩
  | discard =>
    -- dropping a token always leaves an error behind
    unfold Reading.discard at herrors ⊢
    split
    · exact ⟨hs, [], .refl s⟩
    · rename_i lexeme rest hahead
      have hloud : s.silenced = false := by
        apply Bool.eq_false_iff.mpr
        intro hsilent
        rw [hs.attentive hsilent] at hahead
        simp at hahead
      have hsettled : (reportAt lexeme.offset (.expected "item type")
          { s with ahead := rest }).settle.errors = [] := by
        simpa only [hahead] using herrors
      have hreported := (settle_errors _).errors_eq_nil hsettled
      simp [reportAt, hloud] at hreported
  | follow _ hnext ih ih' =>
    have hfirst := hnext.errors_eq_nil herrors
    obtain ⟨hready, lexemes, hreads⟩ := ih hs hfirst
    obtain ⟨hready', lexemes', hreads'⟩ := ih' hready herrors
    exact ⟨hready', lexemes ++ lexemes', hreads.trans hreads'⟩
  | choose _ _ ih => exact ih s hs herrors

end QueryLocator.Syntax
