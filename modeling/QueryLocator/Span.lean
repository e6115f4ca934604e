/-! # Spans

A span is a byte range `[start, stop)` of a document.  A span that is built from two bounds has them
in order; a span that is read from data keeps the bounds it was given.
-/
namespace QueryLocator

/-- A byte range of a document, from `start` up to and not including `stop`. -/
structure Span where
  start : Nat
  stop : Nat
  deriving DecidableEq, Repr, Inhabited

namespace Span

/-- The span between two offsets, given in either order. -/
def between (a b : Nat) : Span :=
  ⟨min a b, max a b⟩

/-- The zero-width span at an offset. -/
def point (offset : Nat) : Span :=
  ⟨offset, offset⟩

/-- A span contains another when neither end of the other lies outside it; both ends of the
containing span count as inside. -/
def contains (s other : Span) : Bool :=
  s.start ≤ other.start && other.stop ≤ s.stop

/-- Number of bytes in the span.  It is meant for spans whose bounds are in order; read backwards, a
span has no number of bytes, and zero stands for it here. -/
def length (s : Span) : Nat :=
  s.stop - s.start

/-- A span is empty when its ends coincide. -/
def isEmpty (s : Span) : Bool :=
  s.start == s.stop

/-- The two ends with two dots between them. -/
def display (s : Span) : String :=
  s!"{s.start}..{s.stop}"

@[simp] theorem between_start (a b : Nat) : (between a b).start = min a b := rfl

@[simp] theorem between_stop (a b : Nat) : (between a b).stop = max a b := rfl

theorem between_start_le_stop (a b : Nat) : (between a b).start ≤ (between a b).stop := by
  simp only [between_start, between_stop]
  omega

theorem contains_iff {s other : Span} :
    s.contains other = true ↔ s.start ≤ other.start ∧ other.stop ≤ s.stop := by
  simp only [contains, Bool.and_eq_true, decide_eq_true_eq]

@[simp] theorem point_contains_iff {s : Span} {o : Nat} :
    s.contains (point o) = true ↔ s.start ≤ o ∧ o ≤ s.stop :=
  contains_iff

end Span
end QueryLocator
