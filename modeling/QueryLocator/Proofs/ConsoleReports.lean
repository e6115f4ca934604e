import QueryLocator.Proofs.DiagnosticLines
import QueryLocator.Proofs.JsonPretty
import QueryLocator.Proofs.WireRoundTrip

/-! # What a run of the console reports

A run answers exactly when its scope is settled, its file is UTF-8, the text of the file parses and
the line to inspect is a line of it (`Console.Invocation.Answerable`).  Then it ends with code 0 and
writes to the output only, else it ends with code 1 and writes to the errors only, in either format.
Only a report that would have to count beyond 64 bits is left aside (`Console.Invocation.Countable`).
What is written as JSON stands for what resolving or outlining gives (`Console.run_settled`).
-/
namespace QueryLocator

open Json

/-! ## Files that are texts -/

theorem fromUTF8?_eq_some_iff {bytes : ByteArray} {text : String} :
    String.fromUTF8? bytes = some text ↔ bytes = text.toUTF8 := by
  unfold String.fromUTF8?
  constructor
  · intro h
    split at h
    next => exact congrArg String.toByteArray (Option.some.inj h)
    next => cases h
  · rintro rfl
    exact dif_pos text.isValidUTF8

/-- A file has a text when its content is the UTF-8 form of it. -/
theorem FileSystem.readText_eq_ok_iff {files : FileSystem} {path : Path} {text : String} :
    files.readText path = .ok text ↔ files.content path = .ok text.toUTF8 := by
  unfold readText
  constructor
  · intro h
    obtain ⟨bytes, hbytes, h⟩ := bind_eq_ok_iff.mp h
    split at h
    next found hfound =>
      obtain rfl := Except.ok.inj h
      rw [hbytes, fromUTF8?_eq_some_iff.mp hfound]
    next => cases h
  · intro h
    refine bind_eq_ok_iff.mpr ⟨text.toUTF8, h, ?_⟩
    rw [fromUTF8?_eq_some_iff.mpr rfl]
    rfl

/-! ## When resolving gives a result -/

section Resolve
variable {text : String} {document : Document} {scope : Namespace}

/-- Positions are resolved on the lines that a text has, and if the text parses. -/
theorem exists_resolve_iff {line column : Nat} :
    (∃ resolution, resolve syntaxTokenizer scope text ⟨line, column⟩ = .ok resolution) ↔
      ∃ document, Document.parse text = .ok document ∧ line < (LineIndex.ofText text).lineCount := by
  constructor
  · rintro ⟨resolution, h⟩
    cases hparse : Document.parse text with
    | error failure =>
      delta resolve at h
      rw [hparse] at h
      cases h
    | ok document =>
      refine ⟨document, rfl, Nat.lt_of_not_le fun hle => ?_⟩
      rw [resolve_of_lineCount_le hparse hle] at h
      cases h
  · rintro ⟨document, hparse, hline⟩
    obtain ⟨spans, hlaid⟩ := Document.exists_laidOut hparse
    obtain ⟨before, row, after, hrow, rfl⟩ := LineIndex.exists_line hline
    rcases resolve_at_column hlaid hparse scope hrow column rfl with
      ⟨hnone, -⟩ | ⟨_, _, _, _, _, hfound⟩
    · exact ⟨_, hnone⟩
    · exact ⟨_, hfound⟩

theorem ParseFailure.diagnostics_ne_nil {failure : ParseFailure}
    (h : Document.parse text = .error failure) : failure.diagnostics text ≠ [] := by
  unfold ParseFailure.diagnostics
  exact fun hnil => Document.errors_ne_nil_of_parse h (List.map_eq_nil_iff.mp hnil)

/-- Every failure is reported. -/
theorem ResolveFailure.diagnostics_ne_nil {position : Position} {failure : ResolveFailure}
    (h : resolve syntaxTokenizer scope text position = .error failure) :
    failure.diagnostics text ≠ [] := by
  rcases (resolve_eq_error_iff syntaxTokenizer scope).mp h with ⟨found, hparse, rfl⟩ | ⟨_, -, -, rfl⟩
  · exact ParseFailure.diagnostics_ne_nil hparse
  · exact List.cons_ne_nil _ _

end Resolve

/-! ## Spans of a text have 64 bits -/

section Ranges
variable {text : String} {document : Document} {scope : Namespace} {target : Target}
  (hparse : Document.parse text = .ok document) (hsize : text.utf8ByteSize ≤ maxUnsigned)
include hparse hsize

/-- No bound of a span is greater than the number of bytes of the text. -/
theorem Definition.inRange_target {definition : Definition} (hmem : definition ∈ document.definitions)
    {span : Span} (hplace : definition.span? = some span) :
    (definition.target scope span).InRange := by
  obtain ⟨spans, hlaid⟩ := Document.exists_laidOut hparse
  obtain ⟨-, hproper, hstop⟩ := hlaid.layout.bounds (hlaid.mem_iff.mpr ⟨definition, hmem, hplace⟩)
  rw [joinTexts_markedLexemes hlaid.lexed, Text.byteSize_toList, Nat.zero_add] at hstop
  have hstop := Nat.le_trans hstop hsize
  exact ⟨Nat.le_trans (Nat.le_of_lt hproper) hstop, hstop⟩

theorem Target.inRange_of_resolve {position : Position}
    (h : resolve syntaxTokenizer scope text position = .ok (.found target)) : target.InRange := by
  obtain ⟨definition, hmem, place, hplace, rfl⟩ := exists_of_resolve_found hparse h
  exact Definition.inRange_target hparse hsize hmem hplace

theorem Target.inRange_of_mem_outline (hmem : target ∈ document.outline scope) : target.InRange := by
  obtain ⟨definition, hdefinition, hspan⟩ := List.mem_filterMap.mp hmem
  obtain ⟨span, hplace, rfl⟩ := Option.map_eq_some_iff.mp hspan
  exact Definition.inRange_target hparse hsize hdefinition hplace

end Ranges

/-! ## Reports for programs -/

/-- The resolution that a JSON value stands for: whether a node was found, and if so the node. -/
def Resolution.presented? : Json → Option Resolution
  | .object members =>
    match member? "found" members with
    | some (.boolean true) => ((member? "target" members).bind Target.presented?).map .found
    | some (.boolean false) => some .notFound
    | _ => none
  | _ => none

/-- The outline that a JSON value stands for. -/
def Target.presentedAll? : Json → Option (List Target)
  | .array items => items.mapM presented?
  | _ => none

namespace Console

theorem presented?_resolutionJson (resolution : Resolution) :
    Resolution.presented? (resolutionJson resolution) = some resolution := by
  cases resolution with
  | found target =>
    have htarget : Target.presented? (Wire.toJson target) = some target :=
      Wire.presented?_toJson target
    simp [resolutionJson, Resolution.presented?, member?, htarget]
  | notFound => rfl

theorem presentedAll?_outlineJson (targets : List Target) :
    Target.presentedAll? (outlineJson targets) = some targets := by
  change (targets.map Wire.toJson).mapM Target.presented? = some targets
  induction targets with
  | nil => rfl
  | cons target targets ih =>
    have htarget : Target.presented? (Wire.toJson target) = some target :=
      Wire.presented?_toJson target
    rw [List.map_cons, List.mapM_cons, htarget, ih]
    rfl

/-- A resolution on a line of its own reads back. -/
theorem parse_resolution_line {resolution : Resolution}
    (h : ∀ target, resolution = .found target → target.InRange) :
    Json.parse ((resolutionJson resolution).render ++ "\n") = .ok (resolutionJson resolution) := by
  cases resolution with
  | found target =>
    have hintegral := Wire.Lawful.isIntegral_toJson target (h target rfl)
    refine parse_render_line ?_ (show 3 ≤ nestingLimit by decide)
    simp [resolutionJson, everywhere, membersEverywhere, isIntegral, hintegral]
  | notFound => exact parse_render_line rfl (by decide)

/-- An outline on lines of its own reads back. -/
theorem parse_outline_lines {targets : List Target} (h : ∀ target ∈ targets, target.InRange) :
    Json.parse ((outlineJson targets).renderPretty ++ "\n") = .ok (outlineJson targets) := by
  have hnesting : itemsNesting (targets.map Wire.toJson) ≤ 2 := by
    rw [itemsNesting_le_iff]
    rintro _ hmem
    obtain ⟨target, -, rfl⟩ := List.mem_map.mp hmem
    exact Nat.le_refl 2
  refine parse_renderPretty_line ?_ ?_
  · rw [outlineJson, everywhere, Bool.and_eq_true, itemsEverywhere_iff]
    refine ⟨rfl, ?_⟩
    rintro _ hmem
    obtain ⟨target, htarget, rfl⟩ := List.mem_map.mp hmem
    exact Wire.Lawful.isIntegral_toJson target (h target htarget)
  · exact Nat.le_trans (Nat.succ_le_succ hnesting) (by decide)

/-! ## Reports are never empty -/

theorem line_ne_empty (text : String) : text ++ "\n" ≠ "" := by
  intro h
  exact absurd (String.append_eq_empty_iff.mp h).2 (by decide)

theorem exactLines_ne_empty (color : Bool) (file : Path) {diagnostics : List Diagnostic}
    (h : diagnostics ≠ []) : String.join (diagnostics.map (exactLine color file)) ≠ "" := by
  obtain ⟨diagnostic, others, rfl⟩ := List.exists_cons_of_ne_nil h
  rw [List.map_cons, String.join_cons]
  intro h
  exact line_ne_empty _ (String.append_eq_empty_iff.mp h).1

theorem outlineLines_ne_empty (color : Bool) (targets : List Target) :
    outlineLines color targets ≠ "" := by
  intro h
  exact line_ne_empty _ (String.append_eq_empty_iff.mp h).2

theorem Failure.report_ne_empty (failure : Failure) : failure.report ≠ "" := by
  unfold report
  match failure.causes with
  | [] | [_] => exact line_ne_empty _
  | _ :: _ :: _ =>
    intro h
    have h := (String.append_eq_empty_iff.mp h).1
    exact absurd (String.append_eq_empty_iff.mp h).2 (by decide)

/-! ## Outcomes -/

/-- An outcome with a result: the result is written to the output and nothing to the errors. -/
structure Outcome.Succeeded (outcome : Outcome) : Prop where
  code : outcome.code = 0
  output : outcome.output ≠ ""
  errors : outcome.errors = ""

/-- An outcome without a result: the reason is written to the errors and nothing to the output. -/
structure Outcome.Failed (outcome : Outcome) : Prop where
  code : outcome.code = 1
  output : outcome.output = ""
  errors : outcome.errors ≠ ""

/-- Whatever becomes of a report, the run does not end as one with a result does. -/
theorem Outcome.code_reported_ne_zero (report : String × Option Coordinate) :
    (reported report).code ≠ 0 := by
  rcases report with ⟨errors, _ | coordinate⟩
  · exact Nat.one_ne_zero
  · exact (by decide : 101 ≠ 0)

/-- A report that is complete makes a failure. -/
theorem Outcome.failed_reported {color : Bool} {file : Path} {diagnostics : List Diagnostic}
    (hne : diagnostics ≠ []) (h : ∀ diagnostic ∈ diagnostics, diagnostic.range.start.Counted) :
    (reported (diagnosticLines color file diagnostics)).Failed := by
  rw [diagnosticLines_of_counted h]
  exact ⟨rfl, rfl, exactLines_ne_empty color file hne⟩

section Actions
variable {color : Bool} {format : OutputFormat} {scope : Namespace} {file : Path} {text : String}
  {position : Position}

theorem inspect_of_ok {resolution : Resolution}
    (h : resolve syntaxTokenizer scope text position = .ok resolution) :
    (inspect color format scope file text position).Succeeded ∧
      (format = .json → (inspect color format scope file text position).output =
        (resolutionJson resolution).render ++ "\n") := by
  delta inspect
  rw [h]
  cases format with
  | json => cases resolution <;> exact ⟨⟨rfl, line_ne_empty _, rfl⟩, fun _ => rfl⟩
  | human => cases resolution <;> exact ⟨⟨rfl, line_ne_empty _, rfl⟩, nofun⟩

theorem inspect_of_error {failure : ResolveFailure}
    (h : resolve syntaxTokenizer scope text position = .error failure) :
    (inspect color format scope file text position).code ≠ 0 ∧
      ((∀ diagnostic ∈ failure.diagnostics text, diagnostic.range.start.Counted) →
        (inspect color format scope file text position).Failed) := by
  have hdiagnostics := ResolveFailure.diagnostics_ne_nil h
  delta inspect
  rw [h]
  cases format with
  | json => exact ⟨Nat.one_ne_zero, fun _ => ⟨rfl, rfl, line_ne_empty _⟩⟩
  | human =>
    refine ⟨Outcome.code_reported_ne_zero _, fun hcounted => ?_⟩
    obtain ⟨hcode, houtput, herrors⟩ := Outcome.failed_reported hdiagnostics hcounted
    exact ⟨hcode, houtput, herrors⟩

theorem outline_of_ok {document : Document} (h : Document.parse text = .ok document) :
    (outline color format scope file text).Succeeded ∧
      (format = .json → (outline color format scope file text).output =
        (outlineJson (document.outline scope)).renderPretty ++ "\n") := by
  delta outline
  rw [h]
  cases format with
  | json => exact ⟨⟨rfl, line_ne_empty _, rfl⟩, fun _ => rfl⟩
  | human => exact ⟨⟨rfl, outlineLines_ne_empty color _, rfl⟩, nofun⟩

theorem outline_of_error {failure : ParseFailure} (h : Document.parse text = .error failure) :
    (outline color format scope file text).code ≠ 0 ∧
      ((∀ diagnostic ∈ failure.diagnostics text, diagnostic.range.start.Counted) →
        (outline color format scope file text).Failed) := by
  have hdiagnostics := ParseFailure.diagnostics_ne_nil h
  delta outline
  rw [h]
  cases format with
  | json => exact ⟨Nat.one_ne_zero, fun _ => ⟨rfl, rfl, line_ne_empty _⟩⟩
  | human => exact ⟨Outcome.code_reported_ne_zero _, Outcome.failed_reported hdiagnostics⟩

end Actions

/-! ## Runs -/

/-- Whether a JSON value stands for what the action gives on a text. -/
def Action.Presents (scope : Namespace) (text : String) (json : Json) : Action → Prop
  | .inspect line column => ∃ resolution,
      resolve syntaxTokenizer scope text ⟨line, column⟩ = .ok resolution ∧
        Resolution.presented? json = some resolution
  | .outline => ∃ document,
      Document.parse text = .ok document ∧ Target.presentedAll? json = some (document.outline scope)

namespace Invocation

/-- Whether there is everything that an answer takes: the scope is settled, the file is UTF-8, its text
parses, and the line to inspect is a line of it. -/
def Answerable (invocation : Invocation) (files : FileSystem) : Prop :=
  ∃ scope text document, invocation.scope files = .ok scope ∧
    files.content invocation.file = .ok text.toUTF8 ∧ Document.parse text = .ok document ∧
    ∀ line column, invocation.action = .inspect line column →
      line < (LineIndex.ofText text).lineCount

/-- Whether all counts of a report have a successor: the line to inspect, and the number of bytes of the
file, which no line or column of its text is greater than. -/
structure Countable (invocation : Invocation) (files : FileSystem) : Prop where
  line : ∀ line column, invocation.action = .inspect line column → line < maxUnsigned
  size : ∀ bytes, files.content invocation.file = .ok bytes → bytes.size < maxUnsigned

variable {invocation : Invocation} {files : FileSystem} {scope : Namespace} {text : String}
  (color : Bool)

theorem run_of_inspect (hscope : invocation.scope files = .ok scope)
    (htext : files.readText invocation.file = .ok text) {line column : Nat}
    (haction : invocation.action = .inspect line column) :
    invocation.run color files =
      inspect color invocation.format scope invocation.file text ⟨line, column⟩ := by
  delta run
  rw [hscope]
  dsimp only
  rw [htext]
  dsimp only
  rw [haction]

theorem run_of_outline (hscope : invocation.scope files = .ok scope)
    (htext : files.readText invocation.file = .ok text) (haction : invocation.action = .outline) :
    invocation.run color files =
      outline color invocation.format scope invocation.file text := by
  delta run
  rw [hscope]
  dsimp only
  rw [htext]
  dsimp only
  rw [haction]

/-- Without everything that an answer takes a run gives none.  It fails, if its report can be
counted. -/
theorem run_failed (h : ¬invocation.Answerable files) :
    (invocation.run color files).code ≠ 0 ∧
      (invocation.Countable files → (invocation.run color files).Failed) := by
  -- the first stage that gives nothing ends the run; if all of them gave something, the run had all
  -- that an answer takes
  cases hscope : invocation.scope files with
  | error failure =>
    delta run
    rw [hscope]
    exact ⟨Nat.one_ne_zero, fun _ => ⟨rfl, rfl, failure.report_ne_empty⟩⟩
  | ok scope =>
    cases htext : files.readText invocation.file with
    | error fault =>
      delta run
      rw [hscope]
      dsimp only
      rw [htext]
      exact ⟨Nat.one_ne_zero,
        fun _ => ⟨rfl, rfl, (Failure.document invocation.file fault).report_ne_empty⟩⟩
    | ok text =>
      have hcontent := FileSystem.readText_eq_ok_iff.mp htext
      have hsize (hcountable : invocation.Countable files) : text.utf8ByteSize < maxUnsigned :=
        hcountable.size text.toUTF8 hcontent
      cases haction : invocation.action with
      | inspect line column =>
        rw [run_of_inspect color hscope htext haction]
        cases hresolve : resolve syntaxTokenizer scope text ⟨line, column⟩ with
        | error failure =>
          obtain ⟨hcode, hfailed⟩ := @inspect_of_error color invocation.format scope invocation.file
            _ _ _ hresolve
          refine ⟨hcode, fun hcountable => hfailed fun diagnostic hmem => ?_⟩
          exact ResolveFailure.counted_of_mem_diagnostics (hsize hcountable)
            (fun _ _ => hcountable.line line column haction) hresolve hmem
        | ok resolution =>
          obtain ⟨document, hparse, hline⟩ := exists_resolve_iff.mp ⟨resolution, hresolve⟩
          refine absurd ⟨scope, text, document, hscope, hcontent, hparse, ?_⟩ h
          intro row _ hrow
          obtain ⟨rfl, -⟩ := Action.inspect.inj (haction.symm.trans hrow)
          exact hline
      | outline =>
        rw [run_of_outline color hscope htext haction]
        cases hparse : Document.parse text with
        | error failure =>
          obtain ⟨hcode, hfailed⟩ := @outline_of_error color invocation.format scope invocation.file
            _ _ hparse
          refine ⟨hcode, fun hcountable => hfailed fun diagnostic hmem => ?_⟩
          exact ParseFailure.counted_of_mem_diagnostics (hsize hcountable) hmem
        | ok document =>
          refine absurd ⟨scope, text, document, hscope, hcontent, hparse, ?_⟩ h
          intro row _ hrow
          cases haction.symm.trans hrow

/-- With everything that an answer takes a run gives the answer.  As JSON it reads back. -/
theorem run_succeeded (h : invocation.Answerable files) :
    (invocation.run color files).Succeeded ∧
      (invocation.format = .json → ∃ scope text, invocation.scope files = .ok scope ∧
        files.content invocation.file = .ok text.toUTF8 ∧
        (text.utf8ByteSize ≤ maxUnsigned → ∃ json,
          Json.parse (invocation.run color files).output = .ok json ∧
            invocation.action.Presents scope text json)) := by
  obtain ⟨scope, text, document, hscope, hcontent, hparse, hline⟩ := h
  have htext := FileSystem.readText_eq_ok_iff.mpr hcontent
  cases haction : invocation.action with
  | inspect line column =>
    obtain ⟨resolution, hresolve⟩ :=
      exists_resolve_iff.mpr ⟨document, hparse, hline line column haction⟩
    obtain ⟨hsucceeded, houtput⟩ := @inspect_of_ok color invocation.format scope invocation.file _ _ _
      hresolve
    rw [run_of_inspect color hscope htext haction]
    refine ⟨hsucceeded, fun hformat => ⟨scope, text, hscope, hcontent, fun hsize => ?_⟩⟩
    rw [houtput hformat]
    refine ⟨_, parse_resolution_line ?_, resolution, hresolve, presented?_resolutionJson resolution⟩
    rintro target rfl
    exact Target.inRange_of_resolve hparse hsize hresolve
  | outline =>
    obtain ⟨hsucceeded, houtput⟩ := @outline_of_ok color invocation.format scope invocation.file _ _
      hparse
    rw [run_of_outline color hscope htext haction]
    refine ⟨hsucceeded, fun hformat => ⟨scope, text, hscope, hcontent, fun hsize => ?_⟩⟩
    rw [houtput hformat]
    exact ⟨_, parse_outline_lines fun _ => Target.inRange_of_mem_outline hparse hsize,
      document, hparse, presentedAll?_outlineJson _⟩

end Invocation

/-- **The format of the results decides nothing else.**  Runs of accepted arguments that differ in the
format only end with the same code.  With code 0 there is something in the output and nothing in the
errors, with code 1 it is the other way round, and there is no other code.  For this the line to inspect
has to have a successor of 64 bits, and so has the number of bytes of the file.

In any case a run ends with code 0 exactly when there is everything that an answer takes.  The JSON text
in the output then stands for what resolving or outlining gives; the number of bytes of the file has to
be one of 64 bits, as offsets into it are. -/
theorem run_settled {arguments : List String} {invocation : Invocation}
    (haccepted : Invocation.ofArguments arguments = .ok invocation) (color : Bool)
    (files : FileSystem) :
    (invocation.Countable files →
      (∀ arguments' format color',
        Invocation.ofArguments arguments' = .ok { invocation with format } →
          (run arguments' color' files).code = (run arguments color files).code) ∧
      ((run arguments color files).Succeeded ∨ (run arguments color files).Failed)) ∧
    ((run arguments color files).code = 0 ↔ invocation.Answerable files) ∧
    ((run arguments color files).code = 0 → invocation.format = .json →
      ∃ scope text, invocation.scope files = .ok scope ∧
        files.content invocation.file = .ok text.toUTF8 ∧
        (text.utf8ByteSize ≤ maxUnsigned → ∃ json,
          Json.parse (run arguments color files).output = .ok json ∧
            invocation.action.Presents scope text json)) := by
  have hrun {arguments : List String} {invocation : Invocation} (color : Bool)
      (h : Invocation.ofArguments arguments = .ok invocation) :
      run arguments color files = invocation.run color files := by
    delta run
    rw [h]
  rw [hrun color haccepted]
  by_cases h : invocation.Answerable files
  · obtain ⟨hsucceeded, hjson⟩ := Invocation.run_succeeded color h
    refine ⟨fun _ => ⟨?_, .inl hsucceeded⟩, iff_of_true hsucceeded.code h, fun _ => hjson⟩
    intro arguments' format color' h'
    -- the format is not among what an answer takes
    have hsame : { invocation with format }.Answerable files := h
    rw [hrun color' h', (Invocation.run_succeeded color' hsame).1.code, hsucceeded.code]
  · obtain ⟨hcode, hfailed⟩ := Invocation.run_failed color h
    refine ⟨fun hcountable => ⟨?_, .inr (hfailed hcountable)⟩, iff_of_false hcode h,
      fun hzero => absurd hzero hcode⟩
    intro arguments' format color' h'
    have hsame : ¬{ invocation with format }.Answerable files := h
    have hsame' : { invocation with format }.Countable files := ⟨hcountable.line, hcountable.size⟩
    rw [hrun color' h', ((Invocation.run_failed color' hsame).2 hsame').code,
      (hfailed hcountable).code]

/-- A root selector that needs escapes in JSON.  The position is inspected once for a program and once
for people. -/
theorem run_settled_of_escaped_scope :
    let files : FileSystem := .ofObservations ⟨"/w"⟩ [⟨⟨"/w/.graphqlrc.json"⟩, true,
      .ok "\x7b\"schema\": \"s\", \"explorer\": \x7b\"rootSelector\": \"\\\"\\u0001\"\x7d\x7d".toUTF8⟩,
      ⟨⟨"q"⟩, true, .ok "\x7ba\x7d".toUTF8⟩]
    let forProgram := ["inspect", "q", "--format=json", "-l0", "-C", "1"]
    let forPeople := ["inspect", "-l", "0", "-C=1", "q"]
    (run forPeople true files).code = (run forProgram false files).code ∧
      (run forProgram false files).Succeeded ∧
      ∃ json, Json.parse (run forProgram false files).output = .ok json ∧
        Action.Presents ⟨"\"\x01"⟩ "\x7ba\x7d" json (.inspect 0 1) := by
  intro files forProgram forPeople
  have haccepted : Invocation.ofArguments forProgram =
      .ok ⟨none, none, ⟨"q"⟩, .inspect 0 1, .json⟩ := toOption_eq_some_iff.mp (by decide +kernel)
  have haccepted' : Invocation.ofArguments forPeople =
      .ok ⟨none, none, ⟨"q"⟩, .inspect 0 1, .human⟩ := toOption_eq_some_iff.mp (by decide +kernel)
  have hscope : Invocation.scope ⟨none, none, ⟨"q"⟩, .inspect 0 1, .json⟩ files = .ok ⟨"\"\x01"⟩ :=
    toOption_eq_some_iff.mp (by decide +kernel)
  have hcontent : files.content ⟨"q"⟩ = .ok "\x7ba\x7d".toUTF8 := rfl
  have hline : 0 < (LineIndex.ofText "\x7ba\x7d").lineCount := by decide
  have hcountable : Invocation.Countable ⟨none, none, ⟨"q"⟩, .inspect 0 1, .json⟩ files := by
    constructor
    · rintro line column ⟨⟩
      decide
    · intro bytes hbytes
      obtain rfl := Except.ok.inj (hcontent.symm.trans hbytes)
      decide
  obtain ⟨hsettled, hzero, hjson⟩ := run_settled haccepted false files
  obtain ⟨hcodes, hends⟩ := hsettled hcountable
  have hcode : (run forProgram false files).code = 0 := by
    refine hzero.mpr ⟨_, _, _, hscope, hcontent,
      (show Document.parse "\x7ba\x7d" = .ok _ from rfl), ?_⟩
    rintro line column ⟨⟩
    exact hline
  obtain ⟨scope, text, hscope', hcontent', hpresents⟩ := hjson hcode rfl
  obtain rfl := Except.ok.inj (hscope.symm.trans hscope')
  obtain rfl : "\x7ba\x7d" = text :=
    String.toByteArray_inj.mp (Except.ok.inj (hcontent.symm.trans hcontent'))
  refine ⟨hcodes forPeople .human true haccepted', hends.resolve_right fun hfailed => ?_,
    hpresents (by decide)⟩
  rw [hfailed.code] at hcode
  cases hcode

end Console

end QueryLocator
