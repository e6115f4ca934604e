import Mathlib.Data.List.Forall2
import QueryLocator.Proofs.ErrorPlaces
import QueryLocator.Proofs.PositionOrder

/-! # Diagnostics point at the errors

A parse failure has one diagnostic for each of its errors, in their order and with their messages.
Whatever the offset of an error is, its diagnostic is at a position of the text, and that position is
the last one in front of the offset or at it at which a cursor can stand.

For the errors that are found in a text this is the offset itself, unless the error stands between the
two halves of a terminator.  No error does so as long as no token was dropped from a list type
(`diagnostics_point_at_errors`).
-/
namespace QueryLocator

open Text Syntax

/-! ## Places for a cursor -/

/-- An offset where a cursor can stand: between two characters that are not the two halves of a
terminator. -/
def IsCursorPlace (offset : Nat) (text : List Char) : Prop :=
  ∃ pre suf, text = pre ++ suf ∧ byteSize pre = offset ∧ CleanCut pre suf

/-- The last place for a cursor that is not behind an offset. -/
structure IsLastPlace (place offset : Nat) (text : List Char) : Prop where
  isPlace : IsCursorPlace place text
  le : place ≤ offset
  last : ∀ other, IsCursorPlace other text → other ≤ offset → other ≤ place

/-- A place for a cursor is the last one that is not behind it. -/
theorem IsLastPlace.eq_iff {place offset : Nat} {text : List Char} (h : IsLastPlace place offset text) :
    place = offset ↔ IsCursorPlace offset text := by
  constructor
  · rintro rfl
    exact h.isPlace
  · intro hoffset
    exact Nat.le_antisymm h.le (h.last offset hoffset (Nat.le_refl _))

namespace LineIndex

/-- The offset of a position is a place for a cursor, whatever its column. -/
theorem isCursorPlace_of_offset? {text : List Char} {position : Position} {offset : Nat}
    (h : (ofChars text).offset? position = some offset) : IsCursorPlace offset text := by
  obtain ⟨before, line, after, column, hline, rfl⟩ :=
    exists_line_of_position (lt_lineCount_of_offset? h)
  rw [offset?_eq hline] at h
  obtain rfl := Option.some.inj h
  obtain ⟨suf, htext, hcut, -⟩ := splitLines_upTo hline column
  exact ⟨_, suf, htext, rfl, hcut⟩

/-- **The position of an offset** is one of the text, and it is the last place for a cursor that is not
behind the offset: the places in front come back to themselves, and the order is kept. -/
theorem exists_lastPlace (text : List Char) (offset : Nat) :
    (ofChars text).Holds ((ofChars text).position offset) ∧
      ∃ place, (ofChars text).offset? ((ofChars text).position offset) = some place ∧
        IsLastPlace place offset text := by
  obtain ⟨place, hholds, hplace, hle, -⟩ := exists_place text offset
  refine ⟨hholds, place, hplace, isCursorPlace_of_offset? hplace,
    Nat.le_trans hle (snap_le offset text), fun other hother hfront => ?_⟩
  obtain ⟨pre, suf, rfl, rfl, hcut⟩ := hother
  obtain ⟨line, column, length, hposition, -, -, hback⟩ := offset?_of_cleanCut hcut
  rw [← hposition] at hback
  exact offset?_mono (position_mono _ hfront) hback hplace

end LineIndex

/-! ## The errors of a text that does not parse -/

/-- **The errors of a text stand between two characters**, and where a cursor can stand unless an error
tells of a token that was dropped from a list type. -/
theorem Document.places_of_errors {text : String} {failure : ParseFailure}
    (h : Document.parse text = .error failure) {error : SyntaxError} (herror : error ∈ failure.errors) :
    IsBoundary error.offset text.toList ∧
      ((∀ other ∈ failure.errors, other.message ≠ "expected item type") →
        IsCursorPlace error.offset text.toList) := by
  obtain rfl | ⟨-, rfl⟩ := Document.of_parse_error h
  · -- the error of a text that defines nothing stands in front of it
    obtain rfl := List.mem_singleton.mp herror
    exact ⟨⟨[], List.nil_prefix, rfl⟩, fun _ => ⟨[], text.toList, rfl, rfl, cleanCut_nil_left _⟩⟩
  · obtain ⟨lexeme, hmem, hplace, hdropped⟩ := errors_at_lexemes text.toList error herror
    obtain ⟨pre, suf, htext, hpre, hcut⟩ := exists_cut_of_mem_markedLexemes hmem
    rw [hplace] at hpre
    refine ⟨⟨pre, ⟨suf, htext.symm⟩, hpre⟩, fun hnone => ⟨pre, suf, htext, hpre, hcut ?_⟩⟩
    intro hspace
    obtain ⟨other, hother, hmessage⟩ := hdropped hspace
    exact hnone other hother hmessage

/-! ## Diagnostics -/

/-- A diagnostic that shows an error of a text: it has the message of the error and no width, and it is
at a position of the text, which is the last one that is not behind the error. -/
structure Diagnostic.Shows (diagnostic : Diagnostic) (error : SyntaxError) (text : String) : Prop where
  message : diagnostic.message = error.message
  source : diagnostic.source = parserSource
  width : diagnostic.range.stop = diagnostic.range.start
  holds : (LineIndex.ofText text).Holds diagnostic.range.start
  place : ∃ place, (LineIndex.ofText text).offset diagnostic.range.start = .ok place ∧
    IsLastPlace place error.offset text.toList

theorem Diagnostic.shows_errorAt (error : SyntaxError) (text : String) :
    (errorAt ((LineIndex.ofText text).position error.offset) error.message parserSource).Shows
      error text := by
  obtain ⟨hholds, place, hplace, hlast⟩ := LineIndex.exists_lastPlace text.toList error.offset
  refine ⟨rfl, rfl, rfl, hholds, place, ?_, hlast⟩
  rw [errorAt, Range.caret, LineIndex.offset, LineIndex.ofText, hplace]

/-- The offset of a diagnostic is that of the error it shows if a cursor can stand there. -/
theorem Diagnostic.Shows.offset_iff {diagnostic : Diagnostic} {error : SyntaxError} {text : String}
    (h : diagnostic.Shows error text) :
    (LineIndex.ofText text).offset diagnostic.range.start = .ok error.offset ↔
      IsCursorPlace error.offset text.toList := by
  obtain ⟨place, hplace, hlast⟩ := h.place
  rw [hplace, Except.ok.injEq, hlast.eq_iff]

theorem ParseFailure.diagnostics_shows (failure : ParseFailure) (text : String) :
    List.Forall₂ (fun error diagnostic => diagnostic.Shows error text)
      failure.errors (failure.diagnostics text) := by
  rw [ParseFailure.diagnostics, List.forall₂_map_right_iff, List.forall₂_same]
  exact fun error _ => Diagnostic.shows_errorAt error text

/-- **Diagnostics point at the errors.**  Any failure has one diagnostic for each of its errors, in
their order and with their messages, without width and at a position of the text: the last place for
a cursor that is not behind the error.  Where the failure is that of the text, there is at least one
error and each stands between two characters; its diagnostic leads back to its very offset if that is
not between the two halves of a terminator, as is the case for all errors when none of them tells of
a token that was dropped from a list type. -/
theorem diagnostics_point_at_errors (text : String) :
    (∀ failure : ParseFailure, List.Forall₂ (fun error diagnostic => diagnostic.Shows error text)
      failure.errors (failure.diagnostics text)) ∧
    ∀ failure : ParseFailure, Document.parse text = .error failure →
      failure.errors ≠ [] ∧
      List.Forall₂ (fun error diagnostic => IsBoundary error.offset text.toList ∧
          ((LineIndex.ofText text).offset diagnostic.range.start = .ok error.offset ↔
            IsCursorPlace error.offset text.toList))
        failure.errors (failure.diagnostics text) ∧
      ((∀ error ∈ failure.errors, error.message ≠ "expected item type") →
        ∀ error ∈ failure.errors, IsCursorPlace error.offset text.toList) := by
  refine ⟨fun failure => failure.diagnostics_shows text, fun failure hparse =>
    ⟨Document.errors_ne_nil_of_parse hparse, ?_, fun hnone error herror =>
      (Document.places_of_errors hparse herror).2 hnone⟩⟩
  have hshows := failure.diagnostics_shows text
  rw [ParseFailure.diagnostics, List.forall₂_map_right_iff, List.forall₂_same] at hshows ⊢
  exact fun error herror =>
    ⟨(Document.places_of_errors hparse herror).1, (hshows error herror).offset_iff⟩

/-- A stray character, a selection that is missing behind a terminator of two characters and the end of
the text; and an error made up behind any text. -/
theorem diagnostics_point_at_errors_of_broken_text :
    (∃ failure, Document.parse "é\r\n\x7b\r\n" = .error failure ∧
      failure.errors.map SyntaxError.offset = [0, 7, 7] ∧
      failure.diagnostics "é\r\n\x7b\r\n" ≠ [] ∧
      List.Forall₂ (fun error diagnostic => IsBoundary error.offset "é\r\n\x7b\r\n".toList ∧
          ((LineIndex.ofText "é\r\n\x7b\r\n").offset diagnostic.range.start = .ok error.offset ↔
            IsCursorPlace error.offset "é\r\n\x7b\r\n".toList))
        failure.errors (failure.diagnostics "é\r\n\x7b\r\n") ∧
      ∀ error ∈ failure.errors, IsCursorPlace error.offset "é\r\n\x7b\r\n".toList) ∧
    List.Forall₂ (fun error diagnostic => diagnostic.Shows error "é\r\n\x7b\r\n")
      [⟨"made up", 18446744073709551615⟩]
      (ParseFailure.diagnostics ⟨[⟨"made up", 18446744073709551615⟩]⟩ "é\r\n\x7b\r\n") := by
  obtain ⟨hany, hown⟩ := diagnostics_point_at_errors "é\r\n\x7b\r\n"
  have hparse : Document.parse "é\r\n\x7b\r\n" = .error _ := rfl
  obtain ⟨-, hexact, hplaces⟩ := hown _ hparse
  exact ⟨⟨_, hparse, by decide, by decide, hexact, hplaces (by decide)⟩,
    hany ⟨[⟨"made up", 18446744073709551615⟩]⟩⟩

/-- Behind the exclamation mark that was dropped an error stands between the two halves of a terminator,
and its diagnostic is one byte in front. -/
example : ∃ failure, Document.parse "type T\x7ba:[!.\r\n]\x7d" = .error failure ∧
    ⟨"expected R_BRACK, got \n", 13⟩ ∈ failure.errors ∧
    (LineIndex.ofText "type T\x7ba:[!.\r\n]\x7d").offset
      ((LineIndex.ofText "type T\x7ba:[!.\r\n]\x7d").position 13) = .ok 12 :=
  ⟨_, rfl, by decide, rfl⟩

end QueryLocator
