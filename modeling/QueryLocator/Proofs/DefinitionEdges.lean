import QueryLocator.Proofs.Resolving

/-! # The edges of a definition

Where a definition ends it is found.  Where it starts, the token to the left of the cursor is looked up
rather than the one that begins there.  So a definition is found from its start when it starts its
line, as there is nothing on the line to its left; otherwise the definition that ends there is found,
or none (`resolve_at_definition_edges`).
-/
namespace QueryLocator

open Text Syntax

section Edges
variable {document : Document} {text : String} {spans : List Span}

/-- No definition starts between the two halves of a line terminator. -/
theorem Document.LaidOut.exists_cut_start (h : document.LaidOut text spans) {span : Span}
    (hmem : span ∈ spans) :
    ∃ pre suf, text.toList = pre ++ suf ∧ byteSize pre = span.start ∧ CleanCut pre suf := by
  obtain ⟨front, core, back, hrun, hcore, hstart, -⟩ := h.layout.core_of_mem hmem
  -- what follows the front is not empty, so the front is in front of the mark of the end
  have hfront : ∃ rest, lexemes text.toList = front ++ rest := by
    rcases List.eq_nil_or_concat (core ++ back) with hnil | ⟨rest, last, hlast⟩
    · obtain ⟨first, rest, hfirst, -⟩ := hcore.first
      simp [hfirst] at hnil
    · rw [markedLexemes_eq, hlast, List.concat_eq_append, ← List.append_assoc] at hrun
      exact ⟨rest, (List.append_inj' hrun rfl).1⟩
  obtain ⟨rest, hrest⟩ := hfront
  have hlexed := h.lexed
  rw [hrest] at hlexed
  obtain ⟨tail, htext, hcut, -⟩ := hlexed.of_append
  exact ⟨joinTexts front, tail, htext, by rw [hstart, Nat.zero_add], hcut⟩

/-- The position where a definition starts is a place for a cursor, and the cursor stands in front of
its line exactly when it is in the first column. -/
theorem Document.LaidOut.exists_line_of_start (h : document.LaidOut text spans) {span : Span}
    (hmem : span ∈ spans) :
    ∃ before line after column, splitLines text.toList = before ++ line :: after ∧
      (LineIndex.ofText text).position span.start = ⟨before.length, column⟩ ∧
      span.start = byteSize (before.flatMap Line.chars ++ line.content.take column) ∧
      (span.start = byteSize (before.flatMap Line.chars) ↔ column = 0) := by
  obtain ⟨pre, suf, htext, hsize, hcut⟩ := h.exists_cut_start hmem
  obtain ⟨before, line, after, column, hline, hposition, hpre⟩ :=
    LineIndex.exists_position_of_cleanCut hcut
  rw [← htext] at hline hposition
  have hcolumn := LineIndex.position_upTo hline column
  rw [hpre, hposition, Position.mk.injEq] at hcolumn
  refine ⟨before, line, after, column, hline, by rw [← hsize]; exact hposition, by rw [hpre, hsize], ?_⟩
  rw [← hsize, ← hpre, byteSize_append, Nat.add_eq_left, byteSize_eq_zero_iff, List.take_eq_nil_iff]
  constructor
  · rintro (hzero | hnil)
    · exact hzero
    · rw [hnil, List.length_nil] at hcolumn
      omega
  · exact Or.inl

/-- A definition whose span holds the place where another one starts ends there. -/
theorem Document.LaidOut.stop_eq_start (h : document.LaidOut text spans) {a b : Span} (ha : a ∈ spans)
    (hb : b ∈ spans) (hlow : a.start < b.start) (hhigh : b.start ≤ a.stop) : a.stop = b.start := by
  have := h.layout.bounds hb
  rcases eq_or_rel_of_pairwise h.layout.pairwise ha hb with rfl | horder | horder
  · omega
  · omega
  · omega

end Edges

/-- **The edges of a definition.**  In a text that parses every definition is found from the position
where it ends.  From the position where it starts it is found exactly if that is the start of a line; a
definition that ends there is found in its place, which is never at the start of a line; and otherwise
nothing is found. -/
theorem resolve_at_definition_edges {text : String} {document : Document}
    (hparse : Document.parse text = .ok document) (scope : Namespace) :
    ∀ definition ∈ document.definitions, ∃ span position, definition.span? = some span ∧
      (LineIndex.ofText text).position span.start = position ∧
      (LineIndex.ofText text).offset? position = some span.start ∧
      (resolve syntaxTokenizer scope text position = .ok (.found (definition.target scope span)) ↔
        position.character = 0) ∧
      (∀ other ∈ document.definitions, ∀ place, other.span? = some place → place.stop = span.start →
        position.character ≠ 0 ∧
          resolve syntaxTokenizer scope text position = .ok (.found (other.target scope place))) ∧
      (position.character ≠ 0 →
        (∀ other ∈ document.definitions, ∀ place, other.span? = some place →
          place.stop ≠ span.start) →
        resolve syntaxTokenizer scope text position = .ok .notFound) ∧
      resolve syntaxTokenizer scope text ((LineIndex.ofText text).position span.stop) =
        .ok (.found (definition.target scope span)) := by
  obtain ⟨spans, hlaid⟩ := Document.exists_laidOut hparse
  intro definition hmem
  obtain ⟨span, hspan, hplace⟩ := hlaid.exists_span hmem
  obtain ⟨before, line, after, column, hline, hposition, hstart, hcolumn⟩ :=
    hlaid.exists_line_of_start hspan
  have hfound {other : Definition} (hother : other ∈ document.definitions) {place : Span}
      (hotherPlace : other.span? = some place) :=
    resolve_found_iff hlaid hparse scope hline column hstart hother hotherPlace
  have hinside {other : Definition} (hother : other ∈ document.definitions) {place : Span}
      (hotherPlace : other.span? = some place) : place ∈ spans :=
    hlaid.mem_iff.mpr ⟨other, hother, hotherPlace⟩
  refine ⟨span, ⟨before.length, column⟩, hplace, hposition, ?_, ?_, ?_, ?_,
    resolve_at_stop hlaid hparse scope hmem hplace⟩
  · rw [hstart]
    exact LineIndex.offset?_eq hline column
  · rw [hfound hmem hplace, ← hcolumn]
    simp [Span.ReachedFrom]
  · intro other hother place hotherPlace hstop
    have hplaceMem := hinside hother hotherPlace
    constructor
    · intro hzero
      have hlineStart := hlaid.stop_ne_lineStart hline hplaceMem
      rw [hstop] at hlineStart
      exact hlineStart (hcolumn.mpr hzero)
    · rw [hfound hother hotherPlace]
      have := (hlaid.layout.bounds hplaceMem).2.1
      exact Or.inl ⟨by omega, by omega⟩
  · intro hnonzero hnone
    rcases resolve_at_column hlaid hparse scope hline column hstart with
      ⟨hresolve, -⟩ | ⟨other, hother, place, hotherPlace, hreached, -⟩
    · exact hresolve
    · -- a definition that is found there would end there or start the line
      rcases hreached with ⟨hlow, hhigh⟩ | ⟨-, hsame⟩
      · have hstop := hlaid.stop_eq_start (hinside hother hotherPlace) hspan hlow hhigh
        exact absurd hstop (hnone other hother place hotherPlace)
      · exact absurd (hcolumn.mp hsame) hnonzero

/-- Four operations: the second one touches the first, a space and a comma stand in front of the third,
and the last one starts its line. -/
theorem resolve_at_definition_edges_of_four :
    ∃ document, Document.parse "query A\x7ba\x7d\x7bb\x7d\n ,\x7bc\x7d\r\x7bd\x7d" = .ok document ∧
      document.definitions.map Definition.span? =
        [some ⟨0, 10⟩, some ⟨10, 13⟩, some ⟨16, 19⟩, some ⟨20, 23⟩] ∧
      ∀ definition ∈ document.definitions, ∃ span position, definition.span? = some span ∧
        (LineIndex.ofText "query A\x7ba\x7d\x7bb\x7d\n ,\x7bc\x7d\r\x7bd\x7d").position span.start =
          position ∧
        (resolve syntaxTokenizer default "query A\x7ba\x7d\x7bb\x7d\n ,\x7bc\x7d\r\x7bd\x7d" position =
          .ok (.found (definition.target default span)) ↔ position.character = 0) ∧
        resolve syntaxTokenizer default "query A\x7ba\x7d\x7bb\x7d\n ,\x7bc\x7d\r\x7bd\x7d"
          ((LineIndex.ofText "query A\x7ba\x7d\x7bb\x7d\n ,\x7bc\x7d\r\x7bd\x7d").position span.stop) =
            .ok (.found (definition.target default span)) := by
  have hedges := resolve_at_definition_edges
    (show Document.parse "query A\x7ba\x7d\x7bb\x7d\n ,\x7bc\x7d\r\x7bd\x7d" = .ok _ from rfl) default
  refine ⟨_, rfl, rfl, ?_⟩
  intro definition hmem
  obtain ⟨span, position, hplace, hposition, -, hstart, -, -, hstop⟩ := hedges definition hmem
  exact ⟨span, position, hplace, hposition, hstart, hstop⟩

/-- Behind a space at the start of the text the only definition is not found from where it starts. -/
theorem start_behind_space_not_found :
    ∃ document definition, Document.parse " \x7ba\x7d" = .ok document ∧
      document.definitions = [definition] ∧ definition.span? = some ⟨1, 4⟩ ∧
      (LineIndex.ofText " \x7ba\x7d").position 1 = ⟨0, 1⟩ ∧
      resolve syntaxTokenizer default " \x7ba\x7d" ⟨0, 1⟩ = .ok .notFound :=
  ⟨_, _, rfl, rfl, rfl, rfl, rfl⟩

end QueryLocator
