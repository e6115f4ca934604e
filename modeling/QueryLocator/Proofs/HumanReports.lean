import QueryLocator.Proofs.ArgumentNumbers
import QueryLocator.Proofs.ConsoleReports

/-! # Reports for people count from one

A failure is reported to people as its diagnostics, one behind the other, each with the line and the
column it is at counted from one.  The counts have 64 bits, so the largest of them has no successor.

The lines and columns of a text are less than that.  The line that arguments ask for may be the largest
count there is; if the text parses, the report that it has no such line traps, and nothing is written.
In every other failure the numbers are those of the diagnostics, increased by one
(`Console.counts_from_one_iff`).
-/
namespace QueryLocator

open Text Json

namespace Console

/-! ## Failures -/

/-- An action on a text fails; these are the diagnostics of the failure, and this is what is logged. -/
inductive Action.FailsWith (scope : Namespace) (text : String) :
    Action → List Diagnostic → List LogEntry → Prop where
  | inspect {line column : Nat} {failure : ResolveFailure}
      (h : resolve syntaxTokenizer scope text ⟨line, column⟩ = .error failure) :
      FailsWith scope text (.inspect line column) (failure.diagnostics text)
        [failure.logEntry ⟨line, column⟩]
  | outline {failure : ParseFailure} (h : Document.parse text = .error failure) :
      FailsWith scope text .outline (failure.diagnostics text) []

/-- The largest count is asked for as a line of a text that parses. -/
def Action.AsksForLargest (text : String) (action : Action) : Prop :=
  ∃ column document, action = .inspect maxUnsigned column ∧ Document.parse text = .ok document

section Failures
variable {scope : Namespace} {text : String} {action : Action} {diagnostics : List Diagnostic}
  {log : List LogEntry}

/-- **Every count of a diagnostic has a successor**, unless the largest count was asked for. -/
theorem Action.FailsWith.counted (h : action.FailsWith scope text diagnostics log)
    (hnumber : ∀ line column, action = .inspect line column → line ≤ maxUnsigned)
    (hsize : text.utf8ByteSize < maxUnsigned) (hlargest : ¬action.AsksForLargest text) :
    ∀ diagnostic ∈ diagnostics, diagnostic.range.start.Counted := by
  intro diagnostic hmem
  cases h with
  | outline h => exact ParseFailure.counted_of_mem_diagnostics hsize hmem
  | @inspect line column failure hresolve =>
    refine ResolveFailure.counted_of_mem_diagnostics hsize (fun document hparse => ?_) hresolve hmem
    refine Nat.lt_of_le_of_ne (hnumber line column rfl) ?_
    rintro rfl
    exact hlargest ⟨column, document, rfl, hparse⟩

/-- **Where the largest count was asked for, the report traps** in front of everything. -/
theorem Action.FailsWith.diagnosticLines_of_asksForLargest
    (h : action.FailsWith scope text diagnostics log) (hlargest : action.AsksForLargest text)
    (color : Bool) (file : Path) : diagnosticLines color file diagnostics = ("", some .line) := by
  obtain ⟨column, document, rfl, hparse⟩ := hlargest
  cases h with
  | inspect hresolve =>
    rcases (resolve_eq_error_iff syntaxTokenizer scope).mp hresolve with
      ⟨found, hfailure, -⟩ | ⟨-, -, -, rfl⟩
    · rw [hparse] at hfailure
      cases hfailure
    · rw [ResolveFailure.diagnostics, diagnosticLines, diagnosticLine_of_largest rfl]

end Failures

/-! ## Runs that fail -/

/-- Reporting logs nothing. -/
theorem Outcome.log_reported (report : String × Option Coordinate) : (reported report).log = [] := by
  rcases report with ⟨errors, _ | coordinate⟩ <;> rfl

/-- A run for people logs the failure and reports its diagnostics. -/
theorem Invocation.run_of_failsWith {invocation : Invocation} {files : FileSystem} {scope : Namespace}
    {text : String} {diagnostics : List Diagnostic} {log : List LogEntry}
    (hhuman : invocation.format = .human) (hscope : invocation.scope files = .ok scope)
    (hcontent : files.content invocation.file = .ok text.toUTF8)
    (hfails : invocation.action.FailsWith scope text diagnostics log) (color : Bool) :
    invocation.run color files =
      { Outcome.reported (diagnosticLines color invocation.file diagnostics) with log } := by
  have htext := FileSystem.readText_eq_ok_iff.mpr hcontent
  cases haction : invocation.action with
  | inspect line column =>
    rw [haction] at hfails
    cases hfails with
    | inspect h =>
      rw [run_of_inspect color hscope htext haction]
      delta inspect
      rw [h, hhuman]
      simp only [Outcome.logged, Outcome.log_reported, List.append_nil]
  | outline =>
    rw [haction] at hfails
    cases hfails with
    | outline h =>
      rw [run_of_outline color hscope htext haction]
      delta outline
      rw [h, hhuman]
      exact congrArg (fun log => { Outcome.reported _ with log }) (Outcome.log_reported _)

/-- **Reports for people count from one.**  Take a run for people in which the action fails.  It writes
nothing to the output, and it logs the failure: one entry for a position that could not be resolved, and
none for an outline.

It ends with code 1, and what it writes to the errors is one line for each diagnostic of the failure, in
order, with the line and the column of the diagnostic increased by one, if and only if it is not so that
the text parses and the largest count was asked for as a line.  In that case it traps at the line number
and has written nothing.

When it does not trap, all sums have 64 bits, the lines break only where the path or a message has line
feeds, and in front of them there is only what was logged.

The number of bytes of the file has to be a count with a successor, as it is of every file. -/
theorem counts_from_one_iff {arguments : List String} {invocation : Invocation}
    (haccepted : Invocation.ofArguments arguments = .ok invocation)
    (hhuman : invocation.format = .human) {files : FileSystem} {scope : Namespace} {text : String}
    (hscope : invocation.scope files = .ok scope)
    (hcontent : files.content invocation.file = .ok text.toUTF8)
    (hsize : text.utf8ByteSize < maxUnsigned) {diagnostics : List Diagnostic} {log : List LogEntry}
    (hfails : invocation.action.FailsWith scope text diagnostics log) (color : Bool) :
    (run arguments color files).output = "" ∧ (run arguments color files).log = log ∧
      ((run arguments color files).ending = .exited 1 ∧
          (run arguments color files).errors =
            String.join (diagnostics.map (exactLine color invocation.file)) ↔
        ¬invocation.action.AsksForLargest text) ∧
      ((run arguments color files).ending = .trapped .line ∧ (run arguments color files).errors = "" ↔
        invocation.action.AsksForLargest text) ∧
      (¬invocation.action.AsksForLargest text →
        (∀ diagnostic ∈ diagnostics, diagnostic.range.start.line + 1 ≤ maxUnsigned ∧
          diagnostic.range.start.character + 1 ≤ maxUnsigned) ∧
        (run arguments color files).errors.toList.count '\n' = (diagnostics.flatMap fun diagnostic =>
          invocation.file.text.toList ++ diagnostic.message.toList ++ ['\n']).count '\n' ∧
        ∀ entryText trapText, (run arguments color files).allErrors entryText trapText =
          String.join (log.map entryText) ++
            String.join (diagnostics.map (exactLine color invocation.file))) := by
  have hrun : run arguments color files =
      { Outcome.reported (diagnosticLines color invocation.file diagnostics) with log } := by
    delta run
    rw [haccepted]
    exact Invocation.run_of_failsWith hhuman hscope hcontent hfails color
  rw [hrun]
  by_cases hlargest : invocation.action.AsksForLargest text
  · rw [hfails.diagnosticLines_of_asksForLargest hlargest color invocation.file]
    refine ⟨rfl, rfl, iff_of_false ?_ (not_not_intro hlargest), iff_of_true ⟨rfl, rfl⟩ hlargest,
      fun h => absurd hlargest h⟩
    rintro ⟨hending, -⟩
    cases hending
  · have hnumber : ∀ line column, invocation.action = .inspect line column → line ≤ maxUnsigned :=
      fun _ _ haction => (numbers_le_of_arguments haccepted haction).1
    have hcounted := hfails.counted hnumber hsize hlargest
    rw [diagnosticLines_of_counted hcounted]
    refine ⟨rfl, rfl, iff_of_true ⟨rfl, rfl⟩ hlargest, iff_of_false ?_ hlargest,
      fun _ => ⟨?_, ?_, ?_⟩⟩
    · rintro ⟨hending, -⟩
      cases hending
    · intro diagnostic hmem
      exact ⟨(hcounted diagnostic hmem).line, (hcounted diagnostic hmem).character⟩
    · exact count_lineFeed_exactLines
    · intro entryText trapText
      exact String.append_empty

/-- The line in front of the largest one, in color, and a text with four errors, the message of the
first of which has a line feed. -/
theorem counts_from_one_iff_below_largest :
    let files : FileSystem := .ofObservations ⟨"/w"⟩ [⟨⟨"q"⟩, true, .ok "\x7ba\x7d".toUTF8⟩,
      ⟨⟨"r"⟩, true, .ok "\x7ba(b:1.\n".toUTF8⟩]
    let line := ["inspect", "-l18446744073709551614", "--column=18446744073709551615", "q"]
    ((run line true files).ending = .exited 1 ∧
      (run line true files).allErrors LogEntry.line (fun _ => trapMessage) =
        "ERROR Cursor position does not match the document error=Invalid position: line " ++
          "18446744073709551614 is out of range (document has 1 lines) position=Position \x7b line: " ++
          "18446744073709551614, character: 18446744073709551615 \x7d\n" ++
        "q:18446744073709551615:1: \x1b[1;31merror:\x1b[0m Invalid position: line " ++
          "18446744073709551614 is out of range (document has 1 lines)\n") ∧
      ∃ failure, Document.parse "\x7ba(b:1.\n" = .error failure ∧
        (run ["outline", "r"] false files).errors =
          String.join ((failure.diagnostics "\x7ba(b:1.\n").map (exactLine false ⟨"r"⟩)) ∧
        (run ["outline", "r"] false files).errors.toList.count '\n' = 5 := by
  intro files line
  have hline : Invocation.ofArguments line = .ok ⟨none, none, ⟨"q"⟩,
      .inspect 18446744073709551614 18446744073709551615, .human⟩ :=
    toOption_eq_some_iff.mp (by decide +kernel)
  have hscope : Invocation.scope ⟨none, none, ⟨"q"⟩,
      .inspect 18446744073709551614 18446744073709551615, .human⟩ files = .ok default :=
    toOption_eq_some_iff.mp (by decide +kernel)
  have hparse : Document.parse "\x7ba\x7d" = .ok _ := rfl
  have hfails : Action.FailsWith default "\x7ba\x7d"
      (.inspect 18446744073709551614 18446744073709551615) _ _ :=
    .inspect (resolve_of_lineCount_le hparse (by decide))
  have hbelow : ¬Action.AsksForLargest "\x7ba\x7d"
      (.inspect 18446744073709551614 18446744073709551615) := by
    rintro ⟨column, document, haction, -⟩
    exact absurd (Action.inspect.inj haction).1 (by decide)
  obtain ⟨-, -, hexact, -, hmore⟩ :=
    counts_from_one_iff hline rfl hscope (show files.content ⟨"q"⟩ = .ok "\x7ba\x7d".toUTF8 from rfl)
      (by decide) hfails true
  have houtline : Invocation.ofArguments ["outline", "r"] =
      .ok ⟨none, none, ⟨"r"⟩, .outline, .human⟩ := toOption_eq_some_iff.mp (by decide +kernel)
  have hscope' : Invocation.scope ⟨none, none, ⟨"r"⟩, .outline, .human⟩ files = .ok default :=
    toOption_eq_some_iff.mp (by decide +kernel)
  have hbroken : Document.parse "\x7ba(b:1.\n" = .error _ := rfl
  have houtlined : ¬Action.AsksForLargest "\x7ba(b:1.\n" .outline := by
    rintro ⟨column, document, haction, -⟩
    cases haction
  obtain ⟨-, -, hexact', -, hmore'⟩ :=
    counts_from_one_iff houtline rfl hscope'
      (show files.content ⟨"r"⟩ = .ok "\x7ba(b:1.\n".toUTF8 from rfl) (by decide)
      (.outline hbroken) false
  refine ⟨⟨(hexact.mpr hbelow).1, ((hmore hbelow).2.2 _ _).trans ?_⟩, _, hbroken,
    (hexact'.mpr houtlined).2, (hmore' houtlined).2.1.trans ?_⟩
  · decide +kernel
  · decide +kernel

/-- The largest count as a line of a text that parses: the run traps, and the line that people are to
read is not written. -/
theorem largest_count_traps :
    let files : FileSystem := .ofObservations ⟨"/w"⟩ [⟨⟨"q"⟩, true, .ok "\x7ba\x7d".toUTF8⟩]
    let arguments := ["inspect", "q", "-l", "18446744073709551615", "-C", "0"]
    ∃ invocation diagnostics log, Invocation.ofArguments arguments = .ok invocation ∧
      invocation.format = .human ∧ invocation.scope files = .ok default ∧
      files.content invocation.file = .ok "\x7ba\x7d".toUTF8 ∧
      invocation.action.FailsWith default "\x7ba\x7d" diagnostics log ∧
      (run arguments false files).ending = .trapped .line ∧ (run arguments false files).code = 101 ∧
      (run arguments false files).output = "" ∧ (run arguments false files).errors = "" ∧
      String.join (diagnostics.map (exactLine false invocation.file)) =
        "q:18446744073709551616:1: error: Invalid position: line " ++
          "18446744073709551615 is out of range (document has 1 lines)\n" := by
  intro files arguments
  have hparse : Document.parse "\x7ba\x7d" = .ok _ := rfl
  have haccepted : Invocation.ofArguments arguments =
      .ok ⟨none, none, ⟨"q"⟩, .inspect 18446744073709551615 0, .human⟩ :=
    toOption_eq_some_iff.mp (by decide +kernel)
  have hends : (run arguments false files).ending = .trapped .line := by decide +kernel
  exact ⟨_, _, _, haccepted, rfl, toOption_eq_some_iff.mp (by decide +kernel), rfl,
    .inspect (resolve_of_lineCount_le hparse (by decide)), hends, congrArg Ending.code hends,
    by decide +kernel, by decide +kernel, by decide +kernel⟩

end Console
end QueryLocator
