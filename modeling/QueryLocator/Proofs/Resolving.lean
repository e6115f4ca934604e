import QueryLocator.Resolution
import QueryLocator.Proofs.CursorSpan

/-! # Which definition a cursor resolves to

A cursor that stands at an offset reaches a definition when it stands behind the first character of
its span and not behind the end, or in front of the span at the start of a line (`Span.ReachedFrom`).
Resolving finds the definition that the cursor reaches, of which there is at most one
(`resolve_iff_reached`).

The nodes that resolving can find are those of the outline, and each of them is found from the end of
its span (`resolve_agrees_with_outline`).
-/
namespace QueryLocator

open Text Syntax

/-- A cursor at an offset reaches a span when it stands behind the first character of the span and not
behind its end, or in front of the span at the start of a line. -/
def Span.ReachedFrom (span : Span) (lineStart offset : Nat) : Prop :=
  (span.start < offset ∧ offset ≤ span.stop) ∨ (offset = span.start ∧ offset = lineStart)

/-! ## What is found is found in the outline -/

/-- The definition that is located has a span that contains the one looked up. -/
theorem Document.of_locate {document : Document} {span : Span} {definition : Definition}
    (h : document.locate span = some definition) :
    definition ∈ document.definitions ∧
      ∃ place, definition.span? = some place ∧ place.contains span = true := by
  refine ⟨List.mem_of_find?_eq_some h, ?_⟩
  unfold Document.locate at h
  have hfound := List.find?_some h
  simpa only [Option.any_eq_true] using hfound

/-- A line that the text does not have is refused with its number. -/
theorem LineIndex.offset_of_lineCount_le {index : LineIndex} {position : Position}
    (h : index.lineCount ≤ position.line) :
    index.offset position = .error (.invalidPosition position.line index.lineCount) := by
  rw [offset, offset?_eq_none h]

section Resolve
variable {document : Document} {text : String} {scope : Namespace} {position : Position}

/-- Resolving in a text that parses is resolving in its document. -/
theorem resolve_of_parse (hparse : Document.parse text = .ok document) :
    resolve syntaxTokenizer scope text position =
      document.resolve syntaxTokenizer scope text position := by
  delta resolve
  rw [hparse]

/-- On a line that the text does not have there is nothing to look up. -/
theorem tokenSpanAt_of_lineCount_le (tokenizer : Tokenizer)
    (h : (LineIndex.ofText text).lineCount ≤ position.line) :
    tokenSpanAt tokenizer text position =
      .error (.invalidPosition position.line (LineIndex.ofText text).lineCount) := by
  rw [tokenSpanAt, LineIndex.offset_of_lineCount_le h]
  rfl

/-- A position on a line that the text does not have is refused. -/
theorem resolve_of_lineCount_le (hparse : Document.parse text = .ok document)
    (h : (LineIndex.ofText text).lineCount ≤ position.line) :
    resolve syntaxTokenizer scope text position =
      .error (.invalidPosition position.line (LineIndex.ofText text).lineCount) := by
  rw [resolve_of_parse hparse, Document.resolve, tokenSpanAt_of_lineCount_le syntaxTokenizer h]
  rfl

/-- What resolving gives for a span that is looked up. -/
theorem resolve_of_tokenSpanAt (hparse : Document.parse text = .ok document) {span : Span}
    (hspan : tokenSpanAt syntaxTokenizer text position = .ok span) :
    (document.locate span = none ∧
        resolve syntaxTokenizer scope text position = .ok .notFound) ∨
      ∃ definition ∈ document.definitions, ∃ place, definition.span? = some place ∧
        place.contains span = true ∧ document.locate span = some definition ∧
        resolve syntaxTokenizer scope text position = .ok (.found (definition.target scope place)) := by
  have hresolve := @resolve_of_parse document text scope position hparse
  rw [Document.resolve, hspan] at hresolve
  cases hlocate : document.locate span with
  | none =>
    simp only [bind, Except.bind, hlocate] at hresolve
    exact Or.inl ⟨rfl, hresolve⟩
  | some definition =>
    obtain ⟨hmem, place, hplace, hcontains⟩ := Document.of_locate hlocate
    simp only [bind, Except.bind, hlocate, hplace, Option.getD_some] at hresolve
    exact Or.inr ⟨definition, hmem, place, hplace, hcontains, rfl, hresolve⟩

/-- Resolving finds definitions only. -/
theorem exists_of_resolve_found (hparse : Document.parse text = .ok document) {target : Target}
    (h : resolve syntaxTokenizer scope text position = .ok (.found target)) :
    ∃ definition ∈ document.definitions, ∃ place, definition.span? = some place ∧
      target = definition.target scope place := by
  cases hspan : tokenSpanAt syntaxTokenizer text position with
  | error failure =>
    rw [resolve_of_parse hparse, Document.resolve, hspan] at h
    simp only [bind, Except.bind, reduceCtorEq] at h
  | ok span =>
    rcases @resolve_of_tokenSpanAt document text scope position hparse span hspan with
      ⟨-, hnone⟩ | ⟨definition, hmem, place, hplace, -, -, hfound⟩
    · simp [hnone] at h
    · rw [hfound, Except.ok.injEq, Resolution.found.injEq] at h
      exact ⟨definition, hmem, place, hplace, h.symm⟩

end Resolve

/-! ## Which definition is found -/

section Reaching
variable {document : Document} {text : String} {spans : List Span} {before after : List Line}
  {line : Line}

/-- No definition ends where a line starts. -/
theorem Document.LaidOut.stop_ne_lineStart (h : document.LaidOut text spans)
    (hline : splitLines text.toList = before ++ line :: after) {span : Span} (hmem : span ∈ spans) :
    span.stop ≠ byteSize (before.flatMap Line.chars) := by
  intro hsame
  obtain ⟨pre, suf, htext, hsize, hlast⟩ := h.exists_cut_stop hmem
  have hpre : pre = before.flatMap Line.chars :=
    @eq_of_byteSize_eq _ _ text.toList ⟨suf, htext.symm⟩ ⟨_, (LineIndex.text_eq hline).symm⟩
      (hsize.trans hsame)
  -- the line before ends in a terminator, the definition in another character
  have hne : pre ≠ [] := by
    rintro rfl
    have := (h.layout.bounds hmem).2.1
    rw [← hsize, byteSize_nil] at this
    omega
  have hgetLast := List.getLast?_eq_some_getLast hne
  have hcontent := hlast _ hgetLast
  have hends : endsLine (pre.getLast hne) = true :=
    endsLine_getLast_before hline (by rw [← hpre]; exact hgetLast)
  rw [hcontent] at hends
  exact Bool.false_ne_true hends

/-- **Definitions that touch are told apart**: a cursor reaches at most one. -/
theorem Document.LaidOut.reachedFrom_pairwise (h : document.LaidOut text spans)
    (hline : splitLines text.toList = before ++ line :: after) (offset : Nat) :
    spans.Pairwise fun a b =>
      ¬(a.ReachedFrom (byteSize (before.flatMap Line.chars)) offset ∧
        b.ReachedFrom (byteSize (before.flatMap Line.chars)) offset) := by
  refine h.layout.pairwise.imp_of_mem ?_
  rintro a b ha hb horder ⟨hreachA, hreachB⟩
  -- a cursor that reached both would stand where the first ends and the second begins
  have := h.stop_ne_lineStart hline ha
  have := h.layout.bounds ha
  unfold Span.ReachedFrom at hreachA hreachB
  omega

/-- A definition contains the part of the token under the cursor on its line exactly when the cursor
reaches it. -/
theorem Document.LaidOut.contains_iff (h : document.LaidOut text spans) {token span : Span}
    (htoken : token ∈ consecutiveSpans 0 ((markedLexemes text.toList).map Lexeme.text))
    (hspan : span ∈ spans) {lineStart lineStop offset : Nat} (hproper : token.start < token.stop)
    (htouch : (token.start < offset ∧ offset ≤ token.stop) ∨ (token.start = 0 ∧ offset = 0))
    (hlow : lineStart ≤ offset) (hhigh : offset ≤ lineStop) :
    span.contains ⟨max token.start lineStart, min token.stop lineStop⟩ = true ↔
      span.ReachedFrom lineStart offset := by
  have := h.layout.bounds hspan
  simp only [Span.contains_iff, Span.ReachedFrom]
  -- a token in front of the definition meets it in a point at most, where the line starts; one behind
  -- it never does
  rcases h.layout.apart htoken hspan with hinside | hbefore | hbehind
  · omega
  · omega
  · omega

/-- What resolving gives at a column of a line. -/
theorem resolve_at_column (h : document.LaidOut text spans)
    (hparse : Document.parse text = .ok document) (scope : Namespace)
    (hline : splitLines text.toList = before ++ line :: after) (column : Nat) {offset : Nat}
    (hoffset : offset = byteSize (before.flatMap Line.chars ++ line.content.take column)) :
    (resolve syntaxTokenizer scope text ⟨before.length, column⟩ = .ok .notFound ∧
        ∀ span ∈ spans, ¬span.ReachedFrom (byteSize (before.flatMap Line.chars)) offset) ∨
      ∃ definition ∈ document.definitions, ∃ span, definition.span? = some span ∧
        span.ReachedFrom (byteSize (before.flatMap Line.chars)) offset ∧
        resolve syntaxTokenizer scope text ⟨before.length, column⟩ =
          .ok (.found (definition.target scope span)) := by
  have hne : text.toList ≠ [] := Document.text_ne_nil hparse
  obtain ⟨hlow, hhigh⟩ := LineIndex.byteSize_upTo_bounds before line column
  rw [← hoffset] at hlow hhigh
  obtain ⟨token, htoken, hproper, htouch, hspan⟩ := h.exists_tokenSpanAt hne hline column hoffset
  have hcontains {span : Span} (hmem : span ∈ spans) :=
    h.contains_iff htoken hmem hproper htouch hlow hhigh
  rcases @resolve_of_tokenSpanAt document text scope _ hparse _ hspan with
    ⟨hnone, hresolve⟩ | ⟨definition, hdefinition, span, hplace, hinside, -, hresolve⟩
  · refine Or.inl ⟨hresolve, ?_⟩
    intro span hmem hreached
    obtain ⟨definition, hdefinition, hplace⟩ := h.mem_iff.mp hmem
    apply List.find?_eq_none.mp hnone definition hdefinition
    rw [hplace]
    exact (hcontains hmem).mpr hreached
  · have hmem : span ∈ spans := h.mem_iff.mpr ⟨definition, hdefinition, hplace⟩
    exact Or.inr ⟨definition, hdefinition, span, hplace, (hcontains hmem).mp hinside, hresolve⟩

/-- A cursor that reaches two definitions reaches one definition twice. -/
theorem Document.LaidOut.eq_of_reached (h : document.LaidOut text spans)
    (hline : splitLines text.toList = before ++ line :: after) {offset : Nat} {a b : Definition}
    (ha : a ∈ document.definitions) (hb : b ∈ document.definitions) {s t : Span}
    (hs : a.span? = some s) (ht : b.span? = some t)
    (hreachS : s.ReachedFrom (byteSize (before.flatMap Line.chars)) offset)
    (hreachT : t.ReachedFrom (byteSize (before.flatMap Line.chars)) offset) : a = b := by
  obtain ⟨i, hai, hsi⟩ := h.exists_index ha hs
  obtain ⟨j, hbj, htj⟩ := h.exists_index hb ht
  obtain ⟨hi, rfl⟩ := List.getElem?_eq_some_iff.mp hsi
  obtain ⟨hj, rfl⟩ := List.getElem?_eq_some_iff.mp htj
  have horder := List.pairwise_iff_getElem.mp (h.reachedFrom_pairwise hline offset)
  rcases Nat.lt_trichotomy i j with hlt | rfl | hlt
  · exact absurd ⟨hreachS, hreachT⟩ (horder i j hi hj hlt)
  · exact Option.some.inj (hai.symm.trans hbj)
  · exact absurd ⟨hreachT, hreachS⟩ (horder j i hj hi hlt)

/-- A definition is found exactly when the cursor reaches it. -/
theorem resolve_found_iff (h : document.LaidOut text spans)
    (hparse : Document.parse text = .ok document) (scope : Namespace)
    (hline : splitLines text.toList = before ++ line :: after) (column : Nat) {offset : Nat}
    (hoffset : offset = byteSize (before.flatMap Line.chars ++ line.content.take column))
    {definition : Definition} (hmem : definition ∈ document.definitions) {span : Span}
    (hplace : definition.span? = some span) :
    resolve syntaxTokenizer scope text ⟨before.length, column⟩ =
        .ok (.found (definition.target scope span)) ↔
      span.ReachedFrom (byteSize (before.flatMap Line.chars)) offset := by
  rcases resolve_at_column h hparse scope hline column hoffset with
    ⟨hnone, hfar⟩ | ⟨other, hother, place, hotherPlace, hreached, hfound⟩
  · rw [hnone]
    constructor
    · intro hsame
      simp at hsame
    · intro hreached
      exact absurd hreached (hfar span (h.mem_iff.mpr ⟨definition, hmem, hplace⟩))
  · rw [hfound]
    constructor
    · intro hsame
      rw [Except.ok.injEq, Resolution.found.injEq] at hsame
      obtain rfl : place = span := congrArg Target.span hsame
      exact hreached
    · intro hreached'
      obtain rfl := h.eq_of_reached hline hmem hother hplace hotherPlace hreached' hreached
      obtain rfl := Option.some.inj (hplace.symm.trans hotherPlace)
      rfl

/-- **Every definition is found from its end.** -/
theorem resolve_at_stop (h : document.LaidOut text spans)
    (hparse : Document.parse text = .ok document) (scope : Namespace) {definition : Definition}
    (hmem : definition ∈ document.definitions) {span : Span} (hplace : definition.span? = some span) :
    resolve syntaxTokenizer scope text ((LineIndex.ofText text).position span.stop) =
      .ok (.found (definition.target scope span)) := by
  have hspan : span ∈ spans := h.mem_iff.mpr ⟨definition, hmem, hplace⟩
  obtain ⟨pre, suf, htext, hsize, hlast⟩ := h.exists_cut_stop hspan
  -- a definition does not end in a terminator, so its end is a place for a cursor
  have hcut : CleanCut pre suf := fun hcr => absurd (hlast '\r' hcr) (by decide)
  obtain ⟨before, line, after, column, hline, hposition, hpre⟩ :=
    LineIndex.exists_position_of_cleanCut hcut
  rw [← htext] at hline hposition
  rw [LineIndex.ofText, ← hsize, hposition,
    resolve_found_iff h hparse scope hline column rfl hmem hplace, hpre, hsize]
  exact Or.inl ⟨(h.layout.bounds hspan).2.1, Nat.le_refl _⟩

end Reaching

/-! ## Resolving as a whole -/

/-- **What a cursor resolves to.**  In a document that parses every position on a line of it has an
offset, and from there the cursor reaches at most one definition.  Resolving finds the definition it
reaches, and nothing when it reaches none. -/
theorem resolve_iff_reached {text : String} {document : Document}
    (hparse : Document.parse text = .ok document) (scope : Namespace) {position : Position}
    (hposition : position.line < (LineIndex.ofText text).lineCount) :
    ∃ offset lineStart, (LineIndex.ofText text).offset? position = some offset ∧
      (LineIndex.ofText text).lineStart position.line = some lineStart ∧
      (∀ definition ∈ document.definitions, ∃ span, definition.span? = some span ∧
        (resolve syntaxTokenizer scope text position =
            .ok (.found (definition.target scope span)) ↔ span.ReachedFrom lineStart offset)) ∧
      (document.definitions.Pairwise fun a b => ∀ s t, a.span? = some s → b.span? = some t →
        ¬(s.ReachedFrom lineStart offset ∧ t.ReachedFrom lineStart offset)) ∧
      ((∀ definition ∈ document.definitions, ∀ span, definition.span? = some span →
          ¬span.ReachedFrom lineStart offset) →
        resolve syntaxTokenizer scope text position = .ok .notFound) := by
  obtain ⟨spans, hlaid⟩ := Document.exists_laidOut hparse
  obtain ⟨before, line, after, column, hline, rfl⟩ := LineIndex.exists_line_of_position hposition
  refine ⟨_, _, LineIndex.offset?_eq hline column, LineIndex.lineStart_eq hline, ?_, ?_, ?_⟩
  · intro definition hmem
    obtain ⟨span, -, hplace⟩ := hlaid.exists_span hmem
    exact ⟨span, hplace, resolve_found_iff hlaid hparse scope hline column rfl hmem hplace⟩
  · exact hlaid.definitions_pairwise (hlaid.reachedFrom_pairwise hline _)
  · intro hfar
    rcases resolve_at_column hlaid hparse scope hline column rfl with
      ⟨hnone, -⟩ | ⟨definition, hmem, span, hplace, hreached, -⟩
    · exact hnone
    · exact absurd hreached (hfar definition hmem span hplace)

/-- A block string over three lines ended by carriage returns describes the second definition, which
touches the first. -/
theorem resolve_iff_reached_in_block_string :
    ∃ document offset lineStart,
      Document.parse "\x7ba\x7d\"\"\"\rb\r\r\n\"\"\"type T\x7bb:C\x7d\rquery A\x7ba\x7d" =
        .ok document ∧
      document.definitions.map Definition.span? =
        [some ⟨0, 3⟩, some ⟨3, 25⟩, some ⟨26, 36⟩] ∧
      1 < (LineIndex.ofText
        "\x7ba\x7d\"\"\"\rb\r\r\n\"\"\"type T\x7bb:C\x7d\rquery A\x7ba\x7d").lineCount ∧
      (LineIndex.ofText
        "\x7ba\x7d\"\"\"\rb\r\r\n\"\"\"type T\x7bb:C\x7d\rquery A\x7ba\x7d").offset? ⟨1, 7⟩ =
          some offset ∧
      ∀ definition ∈ document.definitions, ∃ span, definition.span? = some span ∧
        (resolve syntaxTokenizer default
            "\x7ba\x7d\"\"\"\rb\r\r\n\"\"\"type T\x7bb:C\x7d\rquery A\x7ba\x7d" ⟨1, 7⟩ =
            .ok (.found (definition.target default span)) ↔ span.ReachedFrom lineStart offset) := by
  obtain ⟨offset, lineStart, hoffset, -, hfound, -, -⟩ := resolve_iff_reached
    (show Document.parse "\x7ba\x7d\"\"\"\rb\r\r\n\"\"\"type T\x7bb:C\x7d\rquery A\x7ba\x7d" =
      .ok _ from rfl)
    default (show (Position.mk 1 7).line < _ by decide)
  exact ⟨_, offset, lineStart, rfl, rfl, by decide, hoffset, hfound⟩

/-! ## Resolving and the outline -/

section Outline
variable {document : Document} {text : String} {spans : List Span}

/-- Every definition has its node in the outline, at the same place. -/
theorem Document.LaidOut.map_outline (h : document.LaidOut text spans) (scope : Namespace) :
    document.definitions.map (fun definition => definition.span?.map (definition.target scope)) =
      (document.outline scope).map some := by
  rw [Document.outline, List.map_filterMap_some_eq_filter_map_isSome, eq_comm, List.filter_eq_self]
  intro node hnode
  obtain ⟨definition, hmem, rfl⟩ := List.mem_map.mp hnode
  obtain ⟨span, -, hplace⟩ := h.exists_span hmem
  rw [hplace]
  rfl

/-- The nodes of the outline stand where the definitions do. -/
theorem Document.LaidOut.outline_spans (h : document.LaidOut text spans) (scope : Namespace) :
    (document.outline scope).map Target.span = spans := by
  have hsome : ((document.outline scope).map Target.span).map some = spans.map some := by
    have hmap := congrArg (List.map (Option.map Target.span)) (h.map_outline scope)
    rw [List.map_map, List.map_map] at hmap
    rw [List.map_map, ← h.agree]
    refine hmap.symm.trans ?_
    apply List.map_congr_left
    intro definition _
    cases hplace : definition.span? <;> simp [hplace, Definition.target]
  exact (List.map_inj_right fun _ _ => Option.some.inj).mp hsome

/-- No two definitions have the same span. -/
theorem Document.LaidOut.spans_nodup (h : document.LaidOut text spans) : spans.Nodup := by
  refine h.layout.pairwise.imp_of_mem ?_
  rintro a b ha - horder rfl
  have := h.layout.bounds ha
  omega

end Outline

/-- **Resolving and the outline agree.**  What resolving finds is a node of the outline; the outline
has one node for each definition, in the same order, and no two of them have the same span; and every
node is found from the position where its definition ends. -/
theorem resolve_agrees_with_outline {text : String} {document : Document}
    (hparse : Document.parse text = .ok document) (scope : Namespace) :
    (∀ position target, resolve syntaxTokenizer scope text position = .ok (.found target) →
        target ∈ document.outline scope) ∧
      document.definitions.map (fun definition => definition.span?.map (definition.target scope)) =
        (document.outline scope).map some ∧
      ((document.outline scope).map Target.span).Nodup ∧
      ∀ node ∈ document.outline scope, resolve syntaxTokenizer scope text
        ((LineIndex.ofText text).position node.span.stop) = .ok (.found node) := by
  obtain ⟨spans, hlaid⟩ := Document.exists_laidOut hparse
  refine ⟨?_, hlaid.map_outline scope, ?_, ?_⟩
  · intro position target hfound
    obtain ⟨definition, hmem, place, hplace, rfl⟩ := exists_of_resolve_found hparse hfound
    exact List.mem_filterMap.mpr ⟨definition, hmem, by rw [hplace]; rfl⟩
  · rw [hlaid.outline_spans]
    exact hlaid.spans_nodup
  · intro node hnode
    obtain ⟨definition, hmem, hmap⟩ := List.mem_filterMap.mp hnode
    obtain ⟨span, hplace, rfl⟩ := Option.map_eq_some_iff.mp hmap
    exact resolve_at_stop hlaid hparse scope hmem hplace

/-- Two operations without a name, one right behind the other, are told apart. -/
theorem resolve_agrees_with_outline_of_equal_names :
    ∃ document, Document.parse "query\x7ba\x7dquery\x7ba\x7d\r\n" = .ok document ∧
      (document.outline default).map Target.name = ["unknown", "unknown"] ∧
      ((document.outline default).map Target.span).Nodup ∧
      ∀ node ∈ document.outline default,
        resolve syntaxTokenizer default "query\x7ba\x7dquery\x7ba\x7d\r\n"
        ((LineIndex.ofText "query\x7ba\x7dquery\x7ba\x7d\r\n").position node.span.stop) =
          .ok (.found node) := by
  obtain ⟨-, -, hnodup, hfound⟩ := resolve_agrees_with_outline
    (show Document.parse "query\x7ba\x7dquery\x7ba\x7d\r\n" = .ok _ from rfl) default
  exact ⟨_, rfl, rfl, hnodup, hfound⟩

end QueryLocator
