import QueryLocator.Proofs.CursorSpan

/-! # Widening a cursor to a token

Whatever the text, the span that is looked up for a cursor stays around the cursor and on its line
(`tokenSpanAt_around_cursor`).  That is so even where reading a text that is not well formed has dropped
a token, so that the tokens behind it are placed too early and may end inside a character.

In a text that parses the span is known exactly: it is the part, on the line of the cursor, of the
lexeme that the cursor is at (`tokenSpanAt_cuts_lexeme`).
-/
namespace QueryLocator

open Text Syntax

/-! ## In any text -/

/-- Where no token is chosen for a cursor, what is looked up is the cursor itself. -/
theorem tokenSpanAt_of_chooseSpan_none {text : String} {position : Position} {offset : Nat}
    (hoffset : (LineIndex.ofText text).offset? position = some offset)
    (hchoose : chooseSpan (tokenSpans text.toList) offset = none) :
    tokenSpanAt syntaxTokenizer text position = .ok (.point offset) := by
  have htokenizer : syntaxTokenizer text position = none := by
    simp only [syntaxTokenizer, hoffset, hchoose, Option.bind_none]
  simp only [tokenSpanAt, LineIndex.offset, hoffset, htokenizer, bind, Except.bind, pure, Except.pure]

/-- **Widening stays around the cursor and on its line.**  In any text every position on a line of it
is widened to a span that contains its offset, reaches out of the content of the line on neither side,
and begins and ends between two characters. -/
theorem tokenSpanAt_around_cursor (text : String) {position : Position}
    (hposition : position.line < (LineIndex.ofText text).lineCount) :
    ∃ offset lineStart content span, (LineIndex.ofText text).offset? position = some offset ∧
      (LineIndex.ofText text).lineStart position.line = some lineStart ∧
      (LineIndex.ofText text).lineText position.line = some content ∧
      tokenSpanAt syntaxTokenizer text position = .ok span ∧
      span.contains (.point offset) = true ∧
      lineStart ≤ span.start ∧ span.stop ≤ lineStart + byteSize content ∧
      IsBoundary span.start text.toList ∧ IsBoundary span.stop text.toList := by
  obtain ⟨before, line, after, column, hline, rfl⟩ := LineIndex.exists_line_of_position hposition
  have hoffset := LineIndex.offset?_eq hline column
  have hplace := LineIndex.isBoundary_upTo hline column
  obtain ⟨hlow, hhigh⟩ := LineIndex.byteSize_upTo_bounds before line column
  cases hchoose : chooseSpan (tokenSpans text.toList)
      (byteSize (before.flatMap Line.chars ++ line.content.take column)) with
  | none =>
    refine ⟨_, _, _, _, hoffset, LineIndex.lineStart_eq hline, LineIndex.lineText_eq hline,
      tokenSpanAt_of_chooseSpan_none hoffset hchoose,
      Span.point_contains_iff.mpr ⟨Nat.le_refl _, Nat.le_refl _⟩, hlow, ?_, hplace, hplace⟩
    rw [← byteSize_append]
    exact hhigh
  | some token =>
    obtain ⟨-, -, -, -, hspan⟩ := exists_bounds_of_chooseSpan hline column rfl hchoose
    obtain ⟨hstart, hstop⟩ := touches_of_chooseSpan hchoose
    have hbefore := snap_le token.start text.toList
    have hbehind := le_snap hplace hstop
    have hfront : IsBoundary (byteSize (before.flatMap Line.chars)) text.toList := by
      simpa using LineIndex.isBoundary_upTo hline 0
    have hback : IsBoundary (byteSize (before.flatMap Line.chars ++ line.content)) text.toList := by
      simpa using LineIndex.isBoundary_upTo hline line.content.length
    refine ⟨_, _, _, _, hoffset, LineIndex.lineStart_eq hline, LineIndex.lineText_eq hline, hspan, ?_,
      Nat.le_max_right .., ?_, (isBoundary_snap ..).max hfront, (isBoundary_snap ..).min hback⟩
    · rw [Span.point_contains_iff]
      simp only
      omega
    · rw [← byteSize_append]
      exact Nat.min_le_right ..

/-- The exclamation mark is dropped, so the comment behind it is placed one byte too early and ends
inside its last character. -/
theorem tokenSpanAt_around_cursor_inside_character :
    (⟨12, 15⟩ : Span) ∈ tokenSpans "type T\x7ba:[!]\x7d#é\r\n".toList ∧
      0 < (LineIndex.ofText "type T\x7ba:[!]\x7d#é\r\n").lineCount ∧
      ∃ offset lineStart content span,
        (LineIndex.ofText "type T\x7ba:[!]\x7d#é\r\n").offset? ⟨0, 14⟩ = some offset ∧
        (LineIndex.ofText "type T\x7ba:[!]\x7d#é\r\n").lineStart 0 = some lineStart ∧
        (LineIndex.ofText "type T\x7ba:[!]\x7d#é\r\n").lineText 0 = some content ∧
        tokenSpanAt syntaxTokenizer "type T\x7ba:[!]\x7d#é\r\n" ⟨0, 14⟩ = .ok span ∧
        span = ⟨12, 14⟩ ∧ span.contains (.point offset) = true ∧
        lineStart ≤ span.start ∧ span.stop ≤ lineStart + byteSize content := by
  obtain ⟨offset, lineStart, content, span, hoffset, hstart, hcontent, hspan, hcontains, hlow, hhigh,
      -, -⟩ :=
    tokenSpanAt_around_cursor "type T\x7ba:[!]\x7d#é\r\n"
      (show (Position.mk 0 14).line < _ by decide)
  have hvalue : span = ⟨12, 14⟩ := Except.ok.inj (hspan.symm.trans rfl)
  exact ⟨by decide, by decide, offset, lineStart, content, span, hoffset, hstart, hcontent, hspan,
    hvalue, hcontains, hlow, hhigh⟩

/-! ## In a text that parses -/

/-- **The token under the cursor, exactly.**  In a text that parses every position on a line of it is at
one lexeme, which is a token: the one that starts before the cursor and ends at it or behind it, or the
first one in front of the text.  What is looked up is the part of that token that stands on the line of
the cursor. -/
theorem tokenSpanAt_cuts_lexeme {text : String} {document : Document}
    (hparse : Document.parse text = .ok document) {position : Position}
    (hposition : position.line < (LineIndex.ofText text).lineCount) :
    ∃ offset lineStart content lexeme, (LineIndex.ofText text).offset? position = some offset ∧
      (LineIndex.ofText text).lineStart position.line = some lineStart ∧
      (LineIndex.ofText text).lineText position.line = some content ∧
      LexemeAt text.toList offset lexeme ∧
      (∀ other, LexemeAt text.toList offset other → other = lexeme) ∧
      (∃ kind, lexeme.kind = .ok kind) ∧
      slice lexeme.span.start lexeme.span.stop text.toList = lexeme.text ∧
      tokenSpanAt syntaxTokenizer text position =
        .ok ⟨max lexeme.span.start lineStart,
          min lexeme.span.stop (lineStart + byteSize content)⟩ := by
  obtain ⟨spans, hlaid⟩ := Document.exists_laidOut hparse
  obtain ⟨before, line, after, column, hline, rfl⟩ := LineIndex.exists_line_of_position hposition
  obtain ⟨lexeme, hat⟩ := exists_lexemeAt (Document.text_ne_nil hparse)
    (LineIndex.isBoundary_upTo hline column).le_byteSize
  obtain ⟨-, -, -, -, hspan⟩ := hat.exists_bounds hline column rfl (List.append_nil _).symm hat.mem
    (hlaid.texts.trans (List.map_append ..))
  obtain ⟨kind, -, hkind, -⟩ := hlaid.lexed.exists_of_mem hat.mem
  refine ⟨_, _, _, lexeme, LineIndex.offset?_eq hline column, LineIndex.lineStart_eq hline,
    LineIndex.lineText_eq hline, hat, fun other hother => hother.unique hat, ⟨kind, hkind⟩,
    slice_span hat.mem, ?_⟩
  rw [hspan, byteSize_append]

/-- A block string over three lines, cut to the line in its middle. -/
theorem tokenSpanAt_cuts_lexeme_of_block_string :
    ∃ document offset lineStart content lexeme,
      Document.parse "\x7ba\x7d\"\"\"\rb\r\r\n\"\"\"type T\x7bb:C\x7d" = .ok document ∧
      1 < (LineIndex.ofText "\x7ba\x7d\"\"\"\rb\r\r\n\"\"\"type T\x7bb:C\x7d").lineCount ∧
      offset = 8 ∧ lineStart = 7 ∧ content = ['b'] ∧
      LexemeAt "\x7ba\x7d\"\"\"\rb\r\r\n\"\"\"type T\x7bb:C\x7d".toList offset lexeme ∧
      lexeme.text = "\"\"\"\rb\r\r\n\"\"\"".toList ∧ lexeme.span = ⟨3, 14⟩ ∧
      tokenSpanAt syntaxTokenizer "\x7ba\x7d\"\"\"\rb\r\r\n\"\"\"type T\x7bb:C\x7d" ⟨1, 1⟩ =
        .ok ⟨max lexeme.span.start lineStart,
          min lexeme.span.stop (lineStart + byteSize content)⟩ := by
  obtain ⟨offset, lineStart, content, lexeme, hoffset, hstart, hcontent, hat, hunique, -, -, hspan⟩ :=
    tokenSpanAt_cuts_lexeme
      (show Document.parse "\x7ba\x7d\"\"\"\rb\r\r\n\"\"\"type T\x7bb:C\x7d" = .ok _ from rfl)
      (show (Position.mk 1 1).line < _ by decide)
  obtain rfl : offset = 8 := Option.some.inj (hoffset.symm.trans rfl)
  obtain rfl : lineStart = 7 := Option.some.inj (hstart.symm.trans rfl)
  obtain rfl : content = ['b'] := Option.some.inj (hcontent.symm.trans rfl)
  have hblock := hunique ⟨.ok .string, "\"\"\"\rb\r\r\n\"\"\"".toList, 3⟩
    ⟨List.mem_of_getElem? (i := 3) rfl, Or.inl (by decide), by decide⟩
  subst hblock
  exact ⟨_, 8, 7, ['b'], _, rfl, by decide, rfl, rfl, rfl, hat, rfl, rfl, hspan⟩

end QueryLocator
