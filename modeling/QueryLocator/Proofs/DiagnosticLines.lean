import QueryLocator.Console.Run
import QueryLocator.Proofs.PositionOrder
import QueryLocator.Proofs.TokenizerBounds

/-! # Lines for diagnostics

People read a diagnostic with its line and its column counted from one.  The line that is printed says
so as long as both counts have a successor (`Console.diagnosticLine_of_counted`), and the first
diagnostic without one cuts a report off (`Console.diagnosticLine_of_largest`).

The lines and columns of a text are no greater than its number of bytes.  So the largest count can only
come from the arguments: as the line to inspect, which the report that there is no such line repeats
(`ResolveFailure.counted_of_mem_diagnostics`).
-/
namespace QueryLocator

open Text Json

/-! ## Positions of a text are small -/

/-- The bytes of a text are those of its UTF-8 form. -/
theorem Text.byteSize_toList (text : String) : byteSize text.toList = text.utf8ByteSize := by
  suffices h : ∀ characters, byteSize characters = (String.ofList characters).utf8ByteSize by
    rw [h, String.ofList_toList]
  intro characters
  induction characters with
  | nil => rfl
  | cons c rest ih =>
    rw [String.ofList_cons, String.utf8ByteSize_append, String.utf8ByteSize_singleton, ← ih,
      byteSize_cons]

/-- Both counts of a position have a successor of 64 bits. -/
structure Position.Counted (position : Position) : Prop where
  line : position.line < maxUnsigned
  character : position.character < maxUnsigned

section Diagnostics
variable {text : String} {diagnostic : Diagnostic}

/-- Line and column of a diagnostic of a failure to parse are together no greater than the number of
bytes, wherever the error is said to be. -/
theorem ParseFailure.position_le_of_mem_diagnostics {failure : ParseFailure}
    (h : diagnostic ∈ failure.diagnostics text) :
    diagnostic.range.start.line + diagnostic.range.start.character ≤ text.utf8ByteSize := by
  obtain ⟨error, -, rfl⟩ := List.mem_map.mp h
  obtain ⟨place, hholds, hplace, hle, -⟩ := LineIndex.exists_place text.toList error.offset
  have hsum := LineIndex.line_add_character_le hholds hplace
  have hinside := (isBoundary_snap error.offset text.toList).le_byteSize
  rw [byteSize_toList] at hinside
  exact Nat.le_trans hsum (Nat.le_trans hle hinside)

variable (hsize : text.utf8ByteSize < maxUnsigned)
include hsize

theorem ParseFailure.counted_of_mem_diagnostics {failure : ParseFailure}
    (h : diagnostic ∈ failure.diagnostics text) : diagnostic.range.start.Counted := by
  have hsum := position_le_of_mem_diagnostics h
  constructor <;> omega

/-- **Only the line that was asked for** can be a count without a successor, and only if the text
parses. -/
theorem ResolveFailure.counted_of_mem_diagnostics {scope : Namespace} {line column : Nat}
    (hline : ∀ document, Document.parse text = .ok document → line < maxUnsigned)
    {failure : ResolveFailure}
    (hresolve : resolve syntaxTokenizer scope text ⟨line, column⟩ = .error failure)
    (h : diagnostic ∈ failure.diagnostics text) : diagnostic.range.start.Counted := by
  rcases (resolve_eq_error_iff syntaxTokenizer scope).mp hresolve with
    ⟨found, -, rfl⟩ | ⟨document, hparse, -, rfl⟩
  · exact ParseFailure.counted_of_mem_diagnostics hsize h
  · obtain rfl := List.mem_singleton.mp h
    exact ⟨hline document hparse, show 0 < maxUnsigned by decide⟩

end Diagnostics

namespace Console

/-! ## One line -/

/-- A diagnostic about a file as people are to read it: its line and its column are counted from one,
however large they are. -/
def exactLine (color : Bool) (file : Path) (diagnostic : Diagnostic) : String :=
  let mark := String.ofList (paint color .boldRed 0 "error:")
  let position := diagnostic.range.start
  s!"{file.text}:{position.line + 1}:{position.character + 1}: {mark} {diagnostic.message}\n"

section Lines
variable {color : Bool} {file : Path} {diagnostic : Diagnostic}

/-- Counts that have a successor are increased by one. -/
theorem diagnosticLine_of_counted (h : diagnostic.range.start.Counted) :
    diagnosticLine color file diagnostic = .ok (exactLine color file diagnostic) := by
  unfold diagnosticLine ordinal
  rw [if_pos h.line, if_pos h.character]
  rfl

/-- The largest count has no successor. -/
theorem diagnosticLine_of_largest (h : diagnostic.range.start.line = maxUnsigned) :
    diagnosticLine color file diagnostic = .error .line := by
  unfold diagnosticLine ordinal
  rw [if_neg (by omega)]
  rfl

/-- A line breaks where the path or the message has a line feed, and at its end. -/
theorem count_lineFeed_exactLine :
    (exactLine color file diagnostic).toList.count '\n' =
      file.text.toList.count '\n' + diagnostic.message.toList.count '\n' + 1 := by
  have hnumber : ∀ n : Nat, (toString n).toList.count '\n' = 0 := by
    intro n
    rw [List.count_eq_zero]
    intro hmem
    have hdigit := @Nat.isDigit_of_mem_toDigits 10 n '\n' (by decide) (by decide) (by simpa using hmem)
    exact absurd hdigit (by decide)
  have hmarks : ":".toList.count '\n' = 0 ∧ ": ".toList.count '\n' = 0 ∧ " ".toList.count '\n' = 0 ∧
      "\n".toList.count '\n' = 1 := by decide
  obtain ⟨hcolon, hcolons, hspace, hfeed⟩ := hmarks
  have hword : (String.ofList (paint color .boldRed 0 "error:")).toList.count '\n' = 0 := by
    rw [String.toList_ofList]
    cases color <;> decide
  simp only [exactLine, String.toList_append, List.count_append, hnumber]
  simp only [toString, hcolon, hcolons, hspace, hfeed, hword]
  omega

end Lines

/-! ## All lines -/

section Reports
variable {color : Bool} {file : Path} {diagnostics : List Diagnostic}

/-- **A report is complete and exact** when all its counts have a successor. -/
theorem diagnosticLines_of_counted
    (h : ∀ diagnostic ∈ diagnostics, diagnostic.range.start.Counted) :
    diagnosticLines color file diagnostics =
      (String.join (diagnostics.map (exactLine color file)), none) := by
  induction diagnostics with
  | nil => rfl
  | cons diagnostic rest ih =>
    obtain ⟨hfirst, hrest⟩ := List.forall_mem_cons.mp h
    rw [diagnosticLines, diagnosticLine_of_counted hfirst, ih hrest, List.map_cons, String.join_cons]

/-- Lines have the line feeds of the paths and messages in them, and one for each diagnostic. -/
theorem count_lineFeed_exactLines :
    (String.join (diagnostics.map (exactLine color file))).toList.count '\n' =
      (diagnostics.flatMap fun diagnostic =>
        file.text.toList ++ diagnostic.message.toList ++ ['\n']).count '\n' := by
  induction diagnostics with
  | nil => rfl
  | cons diagnostic rest ih =>
    rw [List.map_cons, String.join_cons, String.toList_append, List.count_append, ih,
      count_lineFeed_exactLine, List.flatMap_cons, List.count_append, List.count_append,
      List.count_append]
    rfl

end Reports

end Console
end QueryLocator
