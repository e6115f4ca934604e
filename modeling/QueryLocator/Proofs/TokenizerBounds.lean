import Mathlib.Order.MinMax
import QueryLocator.Proofs.Resolving

/-! # Resolving with any tokenizer

A tokenizer may be any function from texts and positions to columns.  Whatever it answers, resolving
in a document that is there fails for one reason only: the position is on a line that the text does
not have.  Otherwise the columns are put in order, those behind the end of the line are taken for
its end, and what stands between them is looked up, so that no tokenizer leads out of the line of
the cursor (`tokenSpanAt_of_lt_lineCount`).

A text that does not parse is refused before the position or the tokenizer is looked at, so of the
two failures it is the one that is reported (`resolve_by_any_tokenizer`).
-/
namespace QueryLocator

open Text

/-! ## Columns of a line -/

/-- Where a column of a line stands.  A column behind the end of the line stands for its end. -/
def columnOffset (lineStart : Nat) (content : List Char) (column : Nat) : Nat :=
  lineStart + byteSize (content.take (min column content.length))

/-- What is looked up for a cursor in a column of a line: the cursor itself where there is no token,
else what stands between the two columns of the token, whichever of them is the smaller. -/
def soughtSpan (lineStart : Nat) (content : List Char) (column : Nat) : Option ColumnBounds → Span
  | none => .point (columnOffset lineStart content column)
  | some bounds =>
    ⟨columnOffset lineStart content (min bounds.start bounds.stop),
      columnOffset lineStart content (max bounds.start bounds.stop)⟩

section Columns
variable {lineStart : Nat} {content : List Char}

theorem columnOffset_monotone : Monotone (columnOffset lineStart content) := by
  intro a b hab
  have hclamped : min a content.length ≤ min b content.length := by omega
  have hsize := byteSize_le_of_prefix (List.take_prefix_take_left hclamped (l := content))
  exact Nat.add_le_add_left hsize lineStart

/-- Two columns in either order have the smaller and the larger one for the ends of their span. -/
theorem between_columnOffset (a b : Nat) :
    Span.between (columnOffset lineStart content a) (columnOffset lineStart content b) =
      ⟨columnOffset lineStart content (min a b), columnOffset lineStart content (max a b)⟩ := by
  rw [Span.between, columnOffset_monotone.map_min, columnOffset_monotone.map_max]

end Columns

/-- On a line of the text every column has its place. -/
theorem LineIndex.exists_columnOffset {index : LineIndex} {line : Nat}
    (h : line < index.lineCount) :
    ∃ lineStart content,
      index.lineStart line = some lineStart ∧ index.lineText line = some content ∧
      ∀ column, index.offset ⟨line, column⟩ = .ok (columnOffset lineStart content column) := by
  have hstart : index.lineStart line = some index.starts[line] := List.getElem?_eq_getElem h
  obtain ⟨content, hcontent⟩ : ∃ content, index.lineText line = some content := by
    rw [lineText, hstart]
    exact ⟨_, rfl⟩
  refine ⟨_, content, hstart, hcontent, fun column => ?_⟩
  rw [offset, offset?, hstart, hcontent, columnOffset, ← List.take_eq_take_min]

/-! ## What is looked up -/

section Sought
variable {text : String} {position : Position}

/-- **No tokenizer leads out of the line of the cursor.** -/
theorem tokenSpanAt_of_lt_lineCount (tokenizer : Tokenizer)
    (h : position.line < (LineIndex.ofText text).lineCount) :
    ∃ lineStart content, (LineIndex.ofText text).lineStart position.line = some lineStart ∧
      (LineIndex.ofText text).lineText position.line = some content ∧
      (LineIndex.ofText text).offset position =
        .ok (columnOffset lineStart content position.character) ∧
      tokenSpanAt tokenizer text position =
        .ok (soughtSpan lineStart content position.character (tokenizer text position)) := by
  obtain ⟨lineStart, content, hstart, hcontent, hoffset⟩ := LineIndex.exists_columnOffset h
  have hcursor : (LineIndex.ofText text).offset position =
      .ok (columnOffset lineStart content position.character) := hoffset position.character
  refine ⟨lineStart, content, hstart, hcontent, hcursor, ?_⟩
  simp only [tokenSpanAt, hcursor, bind, Except.bind]
  cases tokenizer text position with
  | none => rfl
  | some bounds => simp only [hoffset, pure, Except.pure, between_columnOffset, soughtSpan]

end Sought

/-! ## Resolving -/

/-- What a document gives for a span that is looked up in it. -/
def Document.lookUp (document : Document) (scope : Namespace) (span : Span) : Resolution :=
  (document.locate span).elim .notFound fun definition =>
    .found (definition.target scope (definition.span?.getD span))

section Resolve
variable {text : String} {position : Position} (document : Document) (tokenizer : Tokenizer)
  (scope : Namespace)

/-- Resolving looks up the span that the cursor is widened to. -/
theorem Document.resolve_eq_map :
    document.resolve tokenizer scope text position =
      (tokenSpanAt tokenizer text position).map (document.lookUp scope) := by
  unfold Document.resolve
  cases tokenSpanAt tokenizer text position with
  | error failure => rfl
  | ok span =>
    simp only [bind, Except.bind, Except.map, Document.lookUp]
    cases document.locate span <;> rfl

/-- In a document that is there, nothing but a line that the text does not have is refused. -/
theorem Document.resolve_eq_error_iff {failure : ResolveFailure} :
    document.resolve tokenizer scope text position = .error failure ↔
      (LineIndex.ofText text).lineCount ≤ position.line ∧
        failure = .invalidPosition position.line (LineIndex.ofText text).lineCount := by
  rw [Document.resolve_eq_map]
  rcases Nat.lt_or_ge position.line (LineIndex.ofText text).lineCount with hlt | hge
  · obtain ⟨_, _, -, -, -, hspan⟩ := tokenSpanAt_of_lt_lineCount tokenizer hlt
    rw [hspan]
    simp only [Except.map, reduceCtorEq, false_iff]
    omega
  · rw [tokenSpanAt_of_lineCount_le tokenizer hge]
    simp only [Except.map, Except.error.injEq, hge, true_and]
    exact eq_comm

/-- A text fails to parse exactly when resolving in it fails for that reason. -/
theorem resolve_eq_parse_failure_iff {failure : ParseFailure} :
    resolve tokenizer scope text position = .error (.parse failure) ↔
      Document.parse text = .error failure := by
  unfold resolve
  cases hparse : Document.parse text with
  | error found => simp
  | ok document => simp [Document.resolve_eq_error_iff]

/-- Resolving fails because the text does not parse, or because it does not have the line. -/
theorem resolve_eq_error_iff {failure : ResolveFailure} :
    resolve tokenizer scope text position = .error failure ↔
      (∃ found, Document.parse text = .error found ∧ failure = .parse found) ∨
        ∃ document, Document.parse text = .ok document ∧
          (LineIndex.ofText text).lineCount ≤ position.line ∧
          failure = .invalidPosition position.line (LineIndex.ofText text).lineCount := by
  unfold resolve
  cases hparse : Document.parse text with
  | error found => simp [eq_comm]
  | ok document => simp [Document.resolve_eq_error_iff]

end Resolve

/-- **Whatever the tokenizer, resolving fails for two reasons only.**  In a document that is there,
a position is refused exactly when the text does not have its line, and the failure tells that line
and how many lines there are; otherwise the columns that the tokenizer gives settle which span is
looked up.  A text that does not parse is refused with the same failure, which holds an error, for
every position, tokenizer and scope. -/
theorem resolve_by_any_tokenizer (text : String) :
    (∀ (document : Document) (tokenizer : Tokenizer) (scope : Namespace) (position : Position),
      (∀ failure, document.resolve tokenizer scope text position = .error failure ↔
        (LineIndex.ofText text).lineCount ≤ position.line ∧
          failure = .invalidPosition position.line (LineIndex.ofText text).lineCount) ∧
      (position.line < (LineIndex.ofText text).lineCount → ∃ lineStart content span,
        (LineIndex.ofText text).lineStart position.line = some lineStart ∧
        (LineIndex.ofText text).lineText position.line = some content ∧
        (LineIndex.ofText text).offset position =
          .ok (columnOffset lineStart content position.character) ∧
        span = soughtSpan lineStart content position.character (tokenizer text position) ∧
        tokenSpanAt tokenizer text position = .ok span ∧
        document.resolve tokenizer scope text position = .ok (document.lookUp scope span))) ∧
    ∀ failure,
      (Document.parse text = .error failure → failure.errors ≠ []) ∧
      ∀ (tokenizer : Tokenizer) (scope : Namespace) (position : Position),
        resolve tokenizer scope text position = .error (.parse failure) ↔
          Document.parse text = .error failure := by
  refine ⟨fun document tokenizer scope position => ⟨fun failure => ?_, fun hline => ?_⟩,
    fun failure => ⟨Document.errors_ne_nil_of_parse, fun tokenizer scope position => ?_⟩⟩
  · exact document.resolve_eq_error_iff tokenizer scope
  · obtain ⟨lineStart, content, hstart, hcontent, hcursor, hspan⟩ :=
      tokenSpanAt_of_lt_lineCount tokenizer hline
    refine ⟨lineStart, content, _, hstart, hcontent, hcursor, rfl, hspan, ?_⟩
    rw [Document.resolve_eq_map, hspan]
    rfl
  · exact resolve_eq_parse_failure_iff tokenizer scope

/-- Columns the wrong way round, one of them far behind the end of the line, lead to the whole line;
in a text that does not parse a line that it does not have is not what is reported. -/
theorem resolve_by_any_tokenizer_of_reversed_columns :
    let wide : Tokenizer := fun _ _ => some ⟨18446744073709551615, 0⟩
    (∃ document lineStart content span,
      Document.parse "# é\r\n\x7ba\x7d" = .ok document ∧
      1 < (LineIndex.ofText "# é\r\n\x7ba\x7d").lineCount ∧
      (LineIndex.ofText "# é\r\n\x7ba\x7d").lineStart 1 = some lineStart ∧
      (LineIndex.ofText "# é\r\n\x7ba\x7d").lineText 1 = some content ∧
      span = soughtSpan lineStart content 9 (some ⟨18446744073709551615, 0⟩) ∧ span = ⟨6, 9⟩ ∧
      tokenSpanAt wide "# é\r\n\x7ba\x7d" ⟨1, 9⟩ = .ok span ∧
      document.resolve wide default "# é\r\n\x7ba\x7d" ⟨1, 9⟩ =
        .ok (document.lookUp default span)) ∧
      ∃ failure, Document.parse "\x7b" = .error failure ∧ failure.errors ≠ [] ∧
        resolve wide default "\x7b" ⟨18446744073709551615, 0⟩ = .error (.parse failure) := by
  intro wide
  constructor
  · have hparse : Document.parse "# é\r\n\x7ba\x7d" = .ok _ := rfl
    have hline : 1 < (LineIndex.ofText "# é\r\n\x7ba\x7d").lineCount := by decide
    obtain ⟨lineStart, content, span, hstart, hcontent, -, hsought, hspan, hresolve⟩ :=
      ((resolve_by_any_tokenizer "# é\r\n\x7ba\x7d").1 _ wide default ⟨1, 9⟩).2 hline
    have hvalue : span = ⟨6, 9⟩ := Except.ok.inj (hspan.symm.trans rfl)
    exact ⟨_, lineStart, content, span, hparse, hline, hstart, hcontent, hsought, hvalue, hspan,
      hresolve⟩
  · have hparse : Document.parse "\x7b" = .error _ := rfl
    obtain ⟨herrors, hresolve⟩ := (resolve_by_any_tokenizer "\x7b").2 _
    exact ⟨_, hparse, herrors hparse, (hresolve wide default _).mpr hparse⟩

end QueryLocator
