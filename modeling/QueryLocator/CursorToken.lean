import QueryLocator.Failure

/-! # The token under the cursor

A cursor position is widened to the token it touches before it is looked up.  Between two tokens the
one that ends at the cursor is chosen.  White space, commas and comments are tokens too, and so are
the pieces of a text that are no token, so every position of a text that is not empty has one.
Only the part of the token on the line of the cursor counts.
-/
namespace QueryLocator

open Text Syntax

/-- The columns on one line between which a token lies. -/
structure ColumnBounds where
  start : Nat
  stop : Nat
  deriving DecidableEq, Repr

/-- A way to find the token under a position, cut to the line of the position. -/
abbrev Tokenizer := String → Position → Option ColumnBounds

/-- The spans of consecutive texts, of which the first starts at an offset. -/
def consecutiveSpans (offset : Nat) : List (List Char) → List Span
  | [] => []
  | text :: rest =>
    let stop := offset + byteSize text
    ⟨offset, stop⟩ :: consecutiveSpans stop rest

/-- The spans of the tokens of a text.  The token that marks the end is left out. -/
def tokenSpans (text : List Char) : List Span :=
  (consecutiveSpans 0 (readDocument text).texts).filter fun span => !span.isEmpty

/-- The span that ends at an offset or reaches over it, else the one that starts there. -/
def chooseSpan (spans : List Span) (offset : Nat) : Option Span :=
  (spans.find? fun span => span.start < offset && offset ≤ span.stop).or
    (spans.find? fun span => span.start == offset)

/-- The columns that a span covers on a line. -/
def LineIndex.columns (index : LineIndex) (line : Nat) (span : Span) : Option ColumnBounds :=
  match index.lineStart line, index.lineLength line with
  | some lineStart, some lineLength =>
    let stop := index.position span.stop
    some {
      start := if span.start < lineStart then 0 else (index.position span.start).character
      stop := if stop.line > line then lineLength else stop.character }
  | _, _ => none

/-- Finds tokens by reading the text as a document, whether or not it is well formed. -/
def syntaxTokenizer : Tokenizer := fun text position =>
  let index := LineIndex.ofText text
  match index.offset? position with
  | none => none
  | some offset =>
    (chooseSpan (tokenSpans text.toList) offset).bind (index.columns position.line)

/-- The span of the token under a position.  Without a token it is the position itself. -/
def tokenSpanAt (tokenizer : Tokenizer) (text : String) (position : Position) :
    Except ResolveFailure Span := do
  let index := LineIndex.ofText text
  let offset ← index.offset position
  match tokenizer text position with
  | none => return .point offset
  | some bounds =>
    let start ← index.offset ⟨position.line, bounds.start⟩
    let stop ← index.offset ⟨position.line, bounds.stop⟩
    return .between start stop

end QueryLocator
