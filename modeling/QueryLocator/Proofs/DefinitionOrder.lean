import Mathlib.Data.List.Find
import Mathlib.Data.List.Pairwise
import QueryLocator.Proofs.Resolving

/-! # The order of the definitions does not matter

Locating takes the first definition that contains a span.  In a document that parses it is the only
one: definitions may touch, so a single point can lie in two of them, but what is looked up for a
cursor never is such a point.  So the definitions may be listed in any order and every position still
resolves to the same (`resolve_of_perm`).
-/
namespace QueryLocator

open Text Syntax

/-- A definition holds a span when its own span is known and contains it. -/
def Definition.Holds (definition : Definition) (span : Span) : Prop :=
  ∃ place, definition.span? = some place ∧ place.contains span = true

/-- No two definitions of a list hold a span. -/
def HeldAtMostOnce (definitions : List Definition) (span : Span) : Prop :=
  definitions.Pairwise fun a b => ¬(a.Holds span ∧ b.Holds span)

theorem Definition.holds_iff {definition : Definition} {span : Span} :
    definition.span?.any (·.contains span) = true ↔ definition.Holds span :=
  Option.any_eq_true ..

/-- What is held at most once is located whatever the order of the definitions. -/
theorem Document.locate_of_perm {definitions : List Definition} {document : Document} {span : Span}
    (hperm : definitions.Perm document.definitions)
    (honce : HeldAtMostOnce document.definitions span) :
    (Document.mk definitions).locate span = document.locate span := by
  refine (List.find?_eq_find?_of_perm hperm.symm ?_).symm
  rintro a ⟨ha, hholdsA⟩ b ⟨hb, hholdsB⟩
  apply Classical.byContradiction
  intro hne
  have hsymmetric : Std.Symm fun a b : Definition => ¬(a.Holds span ∧ b.Holds span) :=
    ⟨fun _ _ hnot hboth => hnot hboth.symm⟩
  exact List.Pairwise.forall honce ha hb hne
    ⟨Definition.holds_iff.mp hholdsA, Definition.holds_iff.mp hholdsB⟩

/-- Definitions that locate the same for the span looked up resolve to the same. -/
theorem Document.resolve_congr {a b : Document} {text : String} {position : Position}
    (h : ∀ span, tokenSpanAt syntaxTokenizer text position = .ok span → a.locate span = b.locate span)
    (scope : Namespace) :
    a.resolve syntaxTokenizer scope text position =
      b.resolve syntaxTokenizer scope text position := by
  rw [Document.resolve, Document.resolve]
  cases hspan : tokenSpanAt syntaxTokenizer text position with
  | error failure => rfl
  | ok span => simp only [bind, Except.bind, h span hspan]

section Unique
variable {document : Document} {text : String} {spans : List Span}

/-- A relation between the spans of any two definitions that keeps them from both holding a span. -/
theorem Document.LaidOut.heldAtMostOnce (h : document.LaidOut text spans) {span : Span}
    (hspans : spans.Pairwise fun a b => ¬(a.contains span = true ∧ b.contains span = true)) :
    HeldAtMostOnce document.definitions span := by
  refine (h.definitions_pairwise hspans).imp ?_
  rintro a b hapart ⟨⟨s, hs, hcontainsS⟩, t, ht, hcontainsT⟩
  exact hapart s t hs ht ⟨hcontainsS, hcontainsT⟩

/-- Definitions do not overlap, so a span that is not empty lies in one of them at most. -/
theorem Document.LaidOut.heldAtMostOnce_of_lt (h : document.LaidOut text spans) {span : Span}
    (hspan : span.start < span.stop) : HeldAtMostOnce document.definitions span := by
  refine h.heldAtMostOnce (h.layout.pairwise.imp ?_)
  intro a b horder hboth
  simp only [Span.contains_iff] at hboth
  omega

/-- **What is looked up for a cursor lies in one definition at most**, even where it is empty. -/
theorem Document.LaidOut.exists_heldAtMostOnce (h : document.LaidOut text spans)
    (hne : text.toList ≠ []) {position : Position}
    (hposition : position.line < (LineIndex.ofText text).lineCount) :
    ∃ span, tokenSpanAt syntaxTokenizer text position = .ok span ∧
      HeldAtMostOnce document.definitions span := by
  obtain ⟨before, line, after, column, hline, rfl⟩ := LineIndex.exists_line_of_position hposition
  obtain ⟨hlow, hhigh⟩ := LineIndex.byteSize_upTo_bounds before line column
  generalize hoffset : byteSize (before.flatMap Line.chars ++ line.content.take column) = offset at *
  obtain ⟨token, htoken, hproper, htouch, hspan⟩ := h.exists_tokenSpanAt hne hline column hoffset.symm
  refine ⟨_, hspan, h.heldAtMostOnce ?_⟩
  -- a definition contains it exactly when the cursor reaches the definition
  refine (h.reachedFrom_pairwise hline offset).imp_of_mem ?_
  intro a b ha hb hapart hboth
  exact hapart ⟨(h.contains_iff htoken ha hproper htouch hlow hhigh).mp hboth.1,
    (h.contains_iff htoken hb hproper htouch hlow hhigh).mp hboth.2⟩

end Unique

/-- **The located definition is the only one.**  In a document that parses a span that is not empty
lies in at most one definition, and so does the span that is looked up for a cursor on a line of the
text.  Resolving therefore gives the same whatever the order of the definitions. -/
theorem resolve_of_perm {text : String} {document : Document}
    (hparse : Document.parse text = .ok document) :
    (∀ span : Span, span.start < span.stop → HeldAtMostOnce document.definitions span) ∧
      (∀ position : Position, position.line < (LineIndex.ofText text).lineCount →
        ∃ span, tokenSpanAt syntaxTokenizer text position = .ok span ∧
          HeldAtMostOnce document.definitions span) ∧
      ∀ definitions : List Definition, definitions.Perm document.definitions →
        ∀ scope position, (Document.mk definitions).resolve syntaxTokenizer scope text position =
          document.resolve syntaxTokenizer scope text position := by
  obtain ⟨spans, hlaid⟩ := Document.exists_laidOut hparse
  have hne := Document.text_ne_nil hparse
  refine ⟨fun span => hlaid.heldAtMostOnce_of_lt, fun position => hlaid.exists_heldAtMostOnce hne, ?_⟩
  intro definitions hperm scope position
  apply Document.resolve_congr
  intro span hspan
  by_cases hposition : position.line < (LineIndex.ofText text).lineCount
  · obtain ⟨found, hfound, honce⟩ := hlaid.exists_heldAtMostOnce hne hposition
    obtain rfl := Except.ok.inj (hfound.symm.trans hspan)
    exact Document.locate_of_perm hperm honce
  · -- there is nothing to look up on a line that the text does not have
    rw [tokenSpanAt, LineIndex.offset, LineIndex.offset?_eq_none (Nat.le_of_not_lt hposition)] at hspan
    simp [bind, Except.bind] at hspan

/-- Three definitions that touch, listed backwards; the cursor stands where the first one ends and the
second begins. -/
theorem resolve_of_perm_of_touching_definitions :
    ∃ document,
      Document.parse "\x7ba\x7d\"\"\"\rb\"\"\"type T\x7bb:C\x7dquery A\x7ba\x7d" = .ok document ∧
      document.definitions.map Definition.span? = [some ⟨0, 3⟩, some ⟨3, 22⟩, some ⟨22, 32⟩] ∧
      HeldAtMostOnce document.definitions ⟨3, 5⟩ ∧
      document.definitions.reverse.Perm document.definitions ∧
      (Document.mk document.definitions.reverse).resolve syntaxTokenizer default
          "\x7ba\x7d\"\"\"\rb\"\"\"type T\x7bb:C\x7dquery A\x7ba\x7d" ⟨0, 3⟩ =
        document.resolve syntaxTokenizer default
          "\x7ba\x7d\"\"\"\rb\"\"\"type T\x7bb:C\x7dquery A\x7ba\x7d" ⟨0, 3⟩ := by
  obtain ⟨honce, -, horder⟩ := resolve_of_perm
    (show Document.parse "\x7ba\x7d\"\"\"\rb\"\"\"type T\x7bb:C\x7dquery A\x7ba\x7d" = .ok _ from rfl)
  exact ⟨_, rfl, rfl, honce ⟨3, 5⟩ (by decide), List.reverse_perm _,
    horder _ (List.reverse_perm _) default ⟨0, 3⟩⟩

end QueryLocator
