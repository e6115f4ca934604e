import QueryLocator.Proofs.AlikeReadings
import QueryLocator.Proofs.LexemeEndings
import QueryLocator.Proofs.Resolving

/-! # Resolving does not depend on the kind of line terminators

A text and the same text with line feeds for all its terminators have the same lines.  If the text
parses, so does the other, into definitions that correspond (`parse_withLineFeeds`): they define the
same, and their spans are cut at the same places.  A cursor at some position then reaches a definition
of one exactly when it reaches the corresponding definition of the other, so both resolve to the same
(`resolve_withLineFeeds`).
-/
namespace QueryLocator

open Text Syntax

/-- The text with a line feed for every line terminator. -/
def withLineFeeds (text : String) : String :=
  String.ofList (unifyTerminators text.toList)

@[simp] theorem toList_withLineFeeds (text : String) :
    (withLineFeeds text).toList = unifyTerminators text.toList :=
  String.toList_ofList

/-! ## Definitions that correspond -/

/-- Two spans correspond when both their ends do. -/
structure Span.Counterpart (text : List Char) (s t : Span) : Prop where
  start : SameCut text s.start t.start
  stop : SameCut text s.stop t.stop

/-- Two definitions correspond when they define the same and their spans correspond. -/
structure Definition.Counterpart (text : List Char) (d e : Definition) : Prop where
  classify : d.classify = e.classify
  span : (d.span? = none ∧ e.span? = none) ∨
    ∃ s t, d.span? = some s ∧ e.span? = some t ∧ s.Counterpart text t

theorem alike_counterpart (text : List Char) : Alike (Syntax.Counterpart text) where
  face := fun _ _ h => h.face_eq
  name := fun _ _ h => h.name

/-- Corresponding lexemes have corresponding significant spans. -/
theorem significantSpan?_counterpart {text : List Char} {l l' : List Lexeme}
    (h : List.Forall₂ (Syntax.Counterpart text) l l') :
    (significantSpan? l = none ∧ significantSpan? l' = none) ∨
      ∃ s t, significantSpan? l = some s ∧ significantSpan? l' = some t ∧ s.Counterpart text t := by
  have hfilter : List.Forall₂ (Syntax.Counterpart text)
      (l.filter fun lexeme => !isIgnoredText lexeme.text)
      (l'.filter fun lexeme => !isIgnoredText lexeme.text) :=
    List.rel_filter (fun a b hab => by simp [hab.ignored]) h
  unfold significantSpan?
  generalize l.filter (fun lexeme => !isIgnoredText lexeme.text) = significant at hfilter
  generalize l'.filter (fun lexeme => !isIgnoredText lexeme.text) = significant' at hfilter
  have hlast := forall₂_head?_cases (List.rel_reverse hfilter)
  rw [List.head?_reverse, List.head?_reverse] at hlast
  rcases forall₂_head?_cases hfilter with ⟨hs, ht⟩ | ⟨a, b, hs, ht, hab⟩
  · simp only [hs, ht, and_self, true_or]
  · rcases hlast with ⟨hs', ht'⟩ | ⟨c, d, hs', ht', hcd⟩
    · simp only [hs, ht, hs', ht', and_self, true_or]
    · simp only [hs, ht, hs', ht']
      exact Or.inr ⟨_, _, rfl, rfl, hab.start, hcd.stop⟩

theorem toDefinition_counterpart {text : List Char} {m n : DefinitionNode}
    (h : m.Mirrors (Syntax.Counterpart text) n) :
    m.toDefinition.Counterpart text n.toDefinition := by
  constructor
  · unfold DefinitionNode.toDefinition
    rw [h.head]
    cases n.head <;> rfl
  · rw [m.span?_toDefinition, n.span?_toDefinition]
    exact significantSpan?_counterpart h.lexemes

/-- **A text that parses still parses with line feeds**, into definitions that correspond. -/
theorem parse_withLineFeeds {text : String} {document : Document}
    (h : Document.parse text = .ok document) :
    ∃ document', Document.parse (withLineFeeds text) = .ok document' ∧
      List.Forall₂ (Definition.Counterpart text.toList) document.definitions
        document'.definitions := by
  obtain ⟨herrors, hnonempty, rfl⟩ := Document.of_parse h
  obtain ⟨spans, hlaid⟩ := Document.exists_laidOut h
  obtain ⟨hnodes, hlength⟩ :=
    readDocument_mirrors (alike_counterpart text.toList) (markedLexemes_counterparts hlaid.lexed)
  rw [← toList_withLineFeeds] at hnodes hlength
  have herrors' : (readDocument (withLineFeeds text).toList).errors = [] := by
    rw [← List.length_eq_zero_iff, ← hlength, herrors]
    rfl
  have hnonempty' : (readDocument (withLineFeeds text).toList).definitions ≠ [] := by
    intro hnil
    rw [hnil] at hnodes
    exact hnonempty (List.forall₂_nil_right_iff.mp hnodes)
  refine ⟨⟨(readDocument (withLineFeeds text).toList).definitions.map DefinitionNode.toDefinition⟩,
    Document.parse_of_errors_eq_nil herrors' hnonempty', ?_⟩
  rw [List.forall₂_map_left_iff, List.forall₂_map_right_iff]
  exact hnodes.imp fun _ _ => toDefinition_counterpart

/-! ## Cursors at the same position -/

/-- A cursor reaches a span exactly when the corresponding cursor reaches the corresponding span. -/
theorem Span.Counterpart.reachedFrom_iff {text : List Char} {s t : Span} (h : s.Counterpart text t)
    {lineStart lineStart' offset offset' : Nat} (hlineStart : SameCut text lineStart lineStart')
    (hoffset : SameCut text offset offset') :
    s.ReachedFrom lineStart offset ↔ t.ReachedFrom lineStart' offset' := by
  have hbehind := h.start.lt_iff hoffset
  have hbefore := hoffset.lt_iff h.start
  have hstop := h.stop.lt_iff hoffset
  have hlow := hlineStart.lt_iff hoffset
  have hhigh := hoffset.lt_iff hlineStart
  unfold Span.ReachedFrom
  omega

/-- Of lists that are related one to one, every member of the first is related to one of the
second. -/
theorem exists_of_forall₂ {α : Type} {R : α → α → Prop} {l l' : List α} (h : List.Forall₂ R l l')
    {a : α} (ha : a ∈ l) : ∃ b ∈ l', R a b := by
  induction h with
  | nil => simp at ha
  | @cons x y l l' hxy _ ih =>
    rcases List.mem_cons.mp ha with rfl | ha
    · exact ⟨y, List.mem_cons_self .., hxy⟩
    · obtain ⟨b, hb, hab⟩ := ih ha
      exact ⟨b, List.mem_cons_of_mem y hb, hab⟩

/-- Two nodes that show the same and stand between the same positions of two documents. -/
structure Target.SamePlace (a b : LineIndex) (t u : Target) : Prop where
  kind : t.kind = u.kind
  name : t.name = u.name
  selector : t.selector = u.selector
  start : a.position t.span.start = b.position u.span.start
  stop : a.position t.span.stop = b.position u.span.stop

/-- What resolving gives in two documents is the same up to byte offsets. -/
inductive SameOutcome (a b : LineIndex) :
    Except ResolveFailure Resolution → Except ResolveFailure Resolution → Prop where
  | invalidPosition (line lineCount : Nat) :
      SameOutcome a b (.error (.invalidPosition line lineCount))
        (.error (.invalidPosition line lineCount))
  | notFound : SameOutcome a b (.ok .notFound) (.ok .notFound)
  | found {t u : Target} (h : t.SamePlace a b u) : SameOutcome a b (.ok (.found t)) (.ok (.found u))

theorem Definition.Counterpart.samePlace {text : String} {d e : Definition} {s t : Span}
    (h : d.classify = e.classify) (hspan : s.Counterpart text.toList t) (scope : Namespace) :
    (d.target scope s).SamePlace (LineIndex.ofText text) (LineIndex.ofText (withLineFeeds text))
      (e.target scope t) := by
  have hindex : LineIndex.ofText (withLineFeeds text) =
      LineIndex.ofChars (unifyTerminators text.toList) := by
    rw [LineIndex.ofText, toList_withLineFeeds]
  rw [hindex]
  constructor
  · simp only [Definition.target, h]
  · simp only [Definition.target, h]
  · simp only [Definition.target, h]
  · exact hspan.start.position_eq
  · exact hspan.stop.position_eq

/-- A column of a line resolves to the same in both texts. -/
theorem sameOutcome_at_column {text : String} {document : Document}
    (hparse : Document.parse text = .ok document) (scope : Namespace) {before after : List Line}
    {line : Line} (hline : splitLines text.toList = before ++ line :: after) (column : Nat) :
    SameOutcome (LineIndex.ofText text) (LineIndex.ofText (withLineFeeds text))
      (resolve syntaxTokenizer scope text ⟨before.length, column⟩)
      (resolve syntaxTokenizer scope (withLineFeeds text) ⟨before.length, column⟩) := by
  obtain ⟨document', hparse', hdefinitions⟩ := parse_withLineFeeds hparse
  obtain ⟨spans, hlaid⟩ := Document.exists_laidOut hparse
  obtain ⟨spans', hlaid'⟩ := Document.exists_laidOut hparse'
  have hline' : splitLines (withLineFeeds text).toList =
      before.map Line.unify ++ line.unify :: after.map Line.unify := by
    rw [toList_withLineFeeds, LineIndex.splitLines_unifyTerminators_eq hline]
  have hreached {s t : Span} (h : s.Counterpart text.toList t) :=
    h.reachedFrom_iff (SameCut.lineStart hline) (SameCut.upTo hline column)
  have houtcome := resolve_at_column hlaid hparse scope hline column rfl
  have houtcome' := resolve_at_column hlaid' hparse' scope hline' column rfl
  rw [List.length_map] at houtcome'
  rcases houtcome' with ⟨hnone', hfar'⟩ | ⟨e, he, t, het, hreachT, hfound'⟩
  -- with line feeds nothing is reached, so nothing is reached in the text itself
  · rcases houtcome with ⟨hnone, -⟩ | ⟨d, hd, s, hds, hreachS, -⟩
    · rw [hnone, hnone']
      exact .notFound
    · obtain ⟨e, he, hde⟩ := exists_of_forall₂ hdefinitions hd
      rcases hde.span with ⟨hnone, -⟩ | ⟨s', t, hs', ht, hst⟩
      · rw [hds] at hnone
        simp at hnone
      · obtain rfl := Option.some.inj (hds.symm.trans hs')
        exact absurd ((hreached hst).mp hreachS) (hfar' t (hlaid'.mem_iff.mpr ⟨e, he, ht⟩))
  -- with line feeds a definition is reached, and so is its counterpart
  · obtain ⟨d, hd, hde⟩ := exists_of_forall₂ hdefinitions.flip he
    rcases hde.span with ⟨-, hnone⟩ | ⟨s, t', hs, ht', hst⟩
    · rw [het] at hnone
      simp at hnone
    · obtain rfl := Option.some.inj (het.symm.trans ht')
      have hfound := (resolve_found_iff hlaid hparse scope hline column rfl hd hs).mpr
        ((hreached hst).mpr hreachT)
      rw [hfound, hfound']
      exact .found (Definition.Counterpart.samePlace hde.classify hst scope)

/-- **Resolving does not depend on the kind of line terminators.**  With line feeds for all its
terminators a text has the same lines; and if it parses, every position resolves to the same, be it an
invalid position, nothing, or a definition between the same positions. -/
theorem resolve_withLineFeeds (text : String) :
    (LineIndex.ofText text).lineCount = (LineIndex.ofText (withLineFeeds text)).lineCount ∧
      (∀ line, (LineIndex.ofText text).lineText line =
          (LineIndex.ofText (withLineFeeds text)).lineText line ∧
        (LineIndex.ofText text).lineLength line =
          (LineIndex.ofText (withLineFeeds text)).lineLength line) ∧
      ∀ document, Document.parse text = .ok document → ∀ scope position,
        SameOutcome (LineIndex.ofText text) (LineIndex.ofText (withLineFeeds text))
          (resolve syntaxTokenizer scope text position)
          (resolve syntaxTokenizer scope (withLineFeeds text) position) := by
  have hcount : (LineIndex.ofText (withLineFeeds text)).lineCount =
      (LineIndex.ofText text).lineCount := by
    rw [LineIndex.ofText, toList_withLineFeeds]
    exact LineIndex.lineCount_unifyTerminators _
  refine ⟨hcount.symm, ?_, ?_⟩
  · intro line
    rw [LineIndex.ofText, LineIndex.ofText, toList_withLineFeeds, LineIndex.lineText_unifyTerminators,
      LineIndex.lineLength_unifyTerminators]
    exact ⟨rfl, rfl⟩
  · intro document hparse scope position
    by_cases hposition : position.line < (LineIndex.ofText text).lineCount
    · obtain ⟨before, line, after, column, hline, rfl⟩ := LineIndex.exists_line_of_position hposition
      exact sameOutcome_at_column hparse scope hline column
    · obtain ⟨document', hparse', -⟩ := parse_withLineFeeds hparse
      have hline := Nat.le_of_not_lt hposition
      rw [resolve_of_lineCount_le hparse hline, resolve_of_lineCount_le hparse' (hcount ▸ hline),
        hcount]
      exact .invalidPosition ..

/-- All three terminators, inside a selection set and between definitions; the cursor stands in the
second definition, which starts at another offset with line feeds. -/
theorem resolve_withLineFeeds_of_mixed_terminators :
    withLineFeeds "\x7ba\x7d\r\r\nquery A\x7ba\r\nb\x7d\r# c" =
        "\x7ba\x7d\n\nquery A\x7ba\nb\x7d\n# c" ∧
      (∃ document, Document.parse "\x7ba\x7d\r\r\nquery A\x7ba\r\nb\x7d\r# c" = .ok document ∧
        document.definitions.map Definition.span? = [some ⟨0, 3⟩, some ⟨6, 19⟩]) ∧
      SameOutcome (LineIndex.ofText "\x7ba\x7d\r\r\nquery A\x7ba\r\nb\x7d\r# c")
        (LineIndex.ofText (withLineFeeds "\x7ba\x7d\r\r\nquery A\x7ba\r\nb\x7d\r# c"))
        (resolve syntaxTokenizer default "\x7ba\x7d\r\r\nquery A\x7ba\r\nb\x7d\r# c" ⟨3, 1⟩)
        (resolve syntaxTokenizer default
          (withLineFeeds "\x7ba\x7d\r\r\nquery A\x7ba\r\nb\x7d\r# c") ⟨3, 1⟩) := by
  obtain ⟨-, -, hsame⟩ := resolve_withLineFeeds "\x7ba\x7d\r\r\nquery A\x7ba\r\nb\x7d\r# c"
  exact ⟨by decide, ⟨_, rfl, rfl⟩, hsame _ rfl default ⟨3, 1⟩⟩

end QueryLocator
