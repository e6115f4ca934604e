import QueryLocator.Proofs.DefinitionOrder
import QueryLocator.Proofs.TokenizerBounds

/-! # Definitions without a span

A document that was built by hand may have definitions without a span, and definitions whose spans
overlap.  Two documents that differ in definitions without a span only (`DifferUnspanned`) cannot be
told apart by locating, by resolving or by the outline, because all three see no more of a document
than its definitions with a span (`DifferUnspanned.spanned_eq`).

Of the definitions that hold a span the one that stands first is located (`FirstHolding`), and a
target that is found reports the span of that definition (`unspanned_definitions_are_unseen`).
-/
namespace QueryLocator

/-- Two lists of definitions differ in definitions without a span only.  These may be put in and
taken out anywhere; the others are the same, in the same order. -/
inductive DifferUnspanned : List Definition → List Definition → Prop where
  | nil : DifferUnspanned [] []
  | shared (definition : Definition) {a b : List Definition} (rest : DifferUnspanned a b) :
      DifferUnspanned (definition :: a) (definition :: b)
  | takenOut {definition : Definition} {a b : List Definition} (hspan : definition.span? = none)
      (rest : DifferUnspanned a b) : DifferUnspanned (definition :: a) b
  | putIn {definition : Definition} {a b : List Definition} (hspan : definition.span? = none)
      (rest : DifferUnspanned a b) : DifferUnspanned a (definition :: b)

/-- The definitions that have a span. -/
def spannedDefinitions (definitions : List Definition) : List Definition :=
  definitions.filter fun definition => definition.span?.isSome

/-- The first definition of a list that holds a span stands at an index. -/
structure FirstHolding (definitions : List Definition) (span : Span) (index : Nat)
    (definition : Definition) : Prop where
  found : definitions[index]? = some definition
  holds : definition.Holds span
  least : ∀ earlier < index, ∀ other, definitions[earlier]? = some other → ¬other.Holds span

/-- A definition is the first to hold a span when it passes the test that no definition before it
passes. -/
theorem firstHolding_iff {definitions : List Definition} {span : Span} {index : Nat}
    {definition : Definition} :
    FirstHolding definitions span index definition ↔
      ∃ hindex : index < definitions.length, definitions[index] = definition ∧
        definition.span?.any (·.contains span) = true ∧
        ∀ earlier (hlt : earlier < index),
          (!definitions[earlier].span?.any (·.contains span)) = true := by
  simp only [Bool.not_eq_true', ← Bool.not_eq_true, Definition.holds_iff]
  constructor
  · rintro ⟨hfound, hholds, hleast⟩
    obtain ⟨hindex, hfound⟩ := List.getElem?_eq_some_iff.mp hfound
    exact ⟨hindex, hfound, hholds, fun earlier hlt =>
      hleast earlier hlt _ (List.getElem?_eq_getElem (Nat.lt_trans hlt hindex))⟩
  · rintro ⟨hindex, hfound, hholds, hleast⟩
    refine ⟨List.getElem?_eq_some_iff.mpr ⟨hindex, hfound⟩, hholds, ?_⟩
    intro earlier hlt other hother
    obtain ⟨_, rfl⟩ := List.getElem?_eq_some_iff.mp hother
    exact hleast earlier hlt

/-! ## The definitions with a span -/

section Spanned
variable {definition : Definition} {definitions : List Definition}

theorem spannedDefinitions_cons_of_none (h : definition.span? = none) :
    spannedDefinitions (definition :: definitions) = spannedDefinitions definitions :=
  List.filter_cons_of_neg (by simp [h])

/-- Definitions without a span do not count among those with one. -/
theorem DifferUnspanned.spanned_eq {a b : List Definition} (h : DifferUnspanned a b) :
    spannedDefinitions a = spannedDefinitions b := by
  induction h with
  | nil => rfl
  | shared definition _ ih =>
    rw [spannedDefinitions, spannedDefinitions, List.filter_cons, List.filter_cons]
    rw [spannedDefinitions, spannedDefinitions] at ih
    rw [ih]
  | takenOut hspan _ ih => rw [spannedDefinitions_cons_of_none hspan, ih]
  | putIn hspan _ ih => rw [spannedDefinitions_cons_of_none hspan, ih]

end Spanned

namespace Document

/-- The document without its definitions that have no span. -/
def spanned (document : Document) : Document :=
  ⟨spannedDefinitions document.definitions⟩

variable (document : Document) {span : Span} {definition : Definition}

/-- Locating sees the definitions with a span only. -/
theorem locate_spanned (span : Span) : document.spanned.locate span = document.locate span := by
  simp only [locate, spanned, spannedDefinitions, List.find?_filter]
  congr 1
  funext definition
  cases definition.span? <;> simp

/-- So does resolving, with any tokenizer. -/
theorem resolve_spanned (tokenizer : Tokenizer) (scope : Namespace) (text : String)
    (position : Position) :
    document.spanned.resolve tokenizer scope text position =
      document.resolve tokenizer scope text position := by
  have hlookUp : document.spanned.lookUp scope = document.lookUp scope := by
    funext span
    rw [lookUp, lookUp, locate_spanned]
  rw [resolve_eq_map, resolve_eq_map, hlookUp]

/-- So does the outline. -/
theorem outline_spanned (scope : Namespace) :
    document.spanned.outline scope = document.outline scope := by
  simp only [outline, spanned, spannedDefinitions, List.filterMap_filter]
  congr 1
  funext definition
  cases definition.span? <;> rfl

/-- The outline has a node for each definition with a span, in order, and no other nodes. -/
theorem forall₂_outline (scope : Namespace) :
    List.Forall₂ (fun definition node => ∃ place, definition.span? = some place ∧
        node = definition.target scope place)
      (spannedDefinitions document.definitions) (document.outline scope) := by
  rw [outline, spannedDefinitions]
  induction document.definitions with
  | nil => exact .nil
  | cons definition rest ih =>
    cases hspan : definition.span? with
    | none =>
      rw [List.filter_cons_of_neg (by simp [hspan]), List.filterMap_cons_none (by simp [hspan])]
      exact ih
    | some place =>
      rw [List.filter_cons_of_pos (by simp [hspan]),
        List.filterMap_cons_some (by rw [hspan, Option.map_some])]
      exact .cons ⟨place, hspan, rfl⟩ ih

/-! ## What is located -/

/-- The definition that is located is the first one that holds the span. -/
theorem locate_eq_some_iff :
    document.locate span = some definition ↔
      ∃ index, FirstHolding document.definitions span index definition := by
  rw [locate, List.find?_eq_some_iff_getElem]
  constructor
  · rintro ⟨hholds, index, hindex, rfl, hleast⟩
    exact ⟨index, firstHolding_iff.mpr ⟨hindex, rfl, hholds, hleast⟩⟩
  · rintro ⟨index, hfirst⟩
    obtain ⟨hindex, hfound, hholds, hleast⟩ := firstHolding_iff.mp hfirst
    exact ⟨hholds, index, hindex, hfound, hleast⟩

/-- Its place is the place of the first one that holds the span. -/
theorem locateIndex_eq_some_iff {index : Nat} :
    document.locateIndex span = some index ↔
      ∃ definition, FirstHolding document.definitions span index definition := by
  rw [locateIndex, List.findIdx?_eq_some_iff_getElem]
  constructor
  · rintro ⟨hindex, hholds, hleast⟩
    exact ⟨_, firstHolding_iff.mpr ⟨hindex, rfl, hholds, by simpa using hleast⟩⟩
  · rintro ⟨definition, hfirst⟩
    obtain ⟨hindex, rfl, hholds, hleast⟩ := firstHolding_iff.mp hfirst
    exact ⟨hindex, hholds, by simpa using hleast⟩

/-- Nothing is located exactly when no definition holds the span. -/
theorem locate_eq_none_iff :
    document.locate span = none ↔ ∀ definition ∈ document.definitions, ¬definition.Holds span := by
  simp only [locate, List.find?_eq_none, Definition.holds_iff]

/-- What is found is the definition that is located, at its own span. -/
theorem resolve_eq_found_iff {tokenizer : Tokenizer} {scope : Namespace} {text : String}
    {position : Position} {target : Target} :
    document.resolve tokenizer scope text position = .ok (.found target) ↔
      ∃ span definition place, tokenSpanAt tokenizer text position = .ok span ∧
        document.locate span = some definition ∧ definition.span? = some place ∧
        target = definition.target scope place := by
  rw [resolve_eq_map]
  cases tokenSpanAt tokenizer text position with
  | error failure => simp [Except.map]
  | ok span =>
    simp only [Except.map, Except.ok.injEq, lookUp]
    cases hlocate : document.locate span with
    | none => simp [hlocate]
    | some definition =>
      obtain ⟨-, place, hplace, -⟩ := of_locate hlocate
      simp [hlocate, hplace, eq_comm]

end Document

/-! ## All together -/

/-- **Definitions without a span are never seen.**  Documents that differ in such definitions only
locate the same, resolve every position to the same with any tokenizer, and have the same outline.
What is located is the first definition that holds the span, and nothing exactly when none does; the
outline lists the definitions with a span; and what resolving finds is the definition that is located,
at that definition's own span. -/
theorem unspanned_definitions_are_unseen :
    (∀ a b : Document, DifferUnspanned a.definitions b.definitions →
      (∀ span, a.locate span = b.locate span) ∧
      (∀ tokenizer scope text position,
        a.resolve tokenizer scope text position = b.resolve tokenizer scope text position) ∧
      ∀ scope, a.outline scope = b.outline scope) ∧
    ∀ document : Document,
      (∀ span definition, document.locate span = some definition ↔
        ∃ index, FirstHolding document.definitions span index definition) ∧
      (∀ span index, document.locateIndex span = some index ↔
        ∃ definition, FirstHolding document.definitions span index definition) ∧
      (∀ span, document.locate span = none ↔
        ∀ definition ∈ document.definitions, ¬definition.Holds span) ∧
      (∀ scope, List.Forall₂ (fun definition node => ∃ place, definition.span? = some place ∧
          node = definition.target scope place)
        (spannedDefinitions document.definitions) (document.outline scope)) ∧
      ∀ tokenizer scope text position target,
        document.resolve tokenizer scope text position = .ok (.found target) ↔
          ∃ span definition place, tokenSpanAt tokenizer text position = .ok span ∧
            document.locate span = some definition ∧ definition.span? = some place ∧
            target = definition.target scope place := by
  constructor
  · intro a b hdiffer
    have hspanned : a.spanned = b.spanned := congrArg Document.mk hdiffer.spanned_eq
    refine ⟨fun span => ?_, fun tokenizer scope text position => ?_, fun scope => ?_⟩
    · rw [← a.locate_spanned, hspanned, b.locate_spanned]
    · rw [← a.resolve_spanned, hspanned, b.resolve_spanned]
    · rw [← a.outline_spanned, hspanned, b.outline_spanned]
  · intro document
    exact ⟨fun _ _ => document.locate_eq_some_iff, fun _ _ => document.locateIndex_eq_some_iff,
      fun _ => document.locate_eq_none_iff, document.forall₂_outline,
      fun _ _ _ _ _ => document.resolve_eq_found_iff⟩

/-- Definitions whose spans overlap and are out of order, with others without a span between them or
in other places: a cursor on the second line finds the outer one in both documents. -/
theorem unspanned_definitions_are_unseen_between_overlapping :
    let outer : Definition := .operation .query (some "Outer") (some ⟨2, 9⟩)
    let inner : Definition := .fragment (some "Inner") none (some ⟨4, 6⟩)
    let unspanned : Definition := .operation .mutation (some "Outer") none
    let a : Document := ⟨[unspanned, outer, .other none, inner]⟩
    let b : Document := ⟨[outer, unspanned, unspanned, inner, .other none]⟩
    DifferUnspanned a.definitions b.definitions ∧
      a.resolve (fun _ _ => some ⟨3, 1⟩) default "#\r\n\x7ba b c\x7d" ⟨1, 2⟩ =
        .ok (.found ⟨.query, "Outer", ".graphiql-explorer-root #query-Outer", ⟨2, 9⟩⟩) ∧
      b.resolve (fun _ _ => some ⟨3, 1⟩) default "#\r\n\x7ba b c\x7d" ⟨1, 2⟩ =
        .ok (.found ⟨.query, "Outer", ".graphiql-explorer-root #query-Outer", ⟨2, 9⟩⟩) ∧
      a.outline default = b.outline default ∧ (a.outline default).length = 2 := by
  intro outer inner unspanned a b
  have hdiffer : DifferUnspanned a.definitions b.definitions :=
    .takenOut rfl (.shared _ (.takenOut rfl (.putIn rfl (.putIn rfl (.shared _ (.putIn rfl .nil))))))
  obtain ⟨-, hresolve, houtline⟩ := unspanned_definitions_are_unseen.1 a b hdiffer
  exact ⟨hdiffer, rfl, (hresolve _ default _ ⟨1, 2⟩).symm.trans rfl, houtline default, rfl⟩

end QueryLocator
