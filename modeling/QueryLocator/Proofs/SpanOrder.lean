import QueryLocator.Proofs.CursorSpan
import QueryLocator.Proofs.Resolving
import QueryLocator.Proofs.WireRoundTrip

/-! # Which spans have their ends in order

A span that is built from two offsets, and every span that is taken from a text, starts at or before
the offset where it stops.  A span that is read from data keeps the bounds it was given, in whatever
order they are (`spans_in_order`).
-/
namespace QueryLocator

open Text Syntax

/-- The span does not stop before it starts. -/
def Span.Ordered (span : Span) : Prop :=
  span.start ≤ span.stop

instance (span : Span) : Decidable span.Ordered :=
  Nat.decLe span.start span.stop

theorem Span.ordered_between (a b : Nat) : (between a b).Ordered :=
  between_start_le_stop a b

theorem Span.ordered_point (offset : Nat) : (point offset).Ordered :=
  Nat.le_refl offset

/-- The number of bytes of a span in order is what lies between its ends. -/
theorem Span.Ordered.start_add_length {span : Span} (h : span.Ordered) :
    span.start + span.length = span.stop :=
  Nat.add_sub_cancel' h

theorem Span.contains_self (span : Span) : span.contains span = true := by
  simp [contains]

theorem ordered_of_mem_tokenSpans {text : List Char} {span : Span} (h : span ∈ tokenSpans text) :
    span.Ordered :=
  (consecutiveSpans_bounds (List.mem_filter.mp h).1).2.1

/-! ## Spans of a text -/

section Texts
variable {tokenizer : Tokenizer} {scope : Namespace} {text : String} {position : Position}
  {document : Document}

theorem ordered_of_tokenSpanAt {span : Span} (h : tokenSpanAt tokenizer text position = .ok span) :
    span.Ordered := by
  obtain ⟨offset, -, h⟩ := bind_eq_ok_iff.mp h
  cases hbounds : tokenizer text position with
  | none =>
    rw [hbounds] at h
    obtain rfl := Except.ok.inj h
    exact Span.ordered_point offset
  | some bounds =>
    rw [hbounds] at h
    obtain ⟨start, -, h⟩ := bind_eq_ok_iff.mp h
    obtain ⟨stop, -, h⟩ := bind_eq_ok_iff.mp h
    obtain rfl := Except.ok.inj h
    exact Span.ordered_between start stop

/-- The spans that are known of the definitions are in order. -/
def Document.Ordered (document : Document) : Prop :=
  ∀ definition ∈ document.definitions, ∀ span, definition.span? = some span → span.Ordered

theorem Document.ordered_of_parse (h : Document.parse text = .ok document) : document.Ordered := by
  obtain ⟨spans, hlaid⟩ := Document.exists_laidOut h
  intro definition hmem span hspan
  exact Nat.le_of_lt (hlaid.layout.bounds (hlaid.mem_iff.mpr ⟨definition, hmem, hspan⟩)).2.1

theorem Document.Ordered.resolve (hdocument : document.Ordered) {target : Target}
    (h : document.resolve tokenizer scope text position = .ok (.found target)) :
    target.span.Ordered := by
  obtain ⟨token, -, h⟩ := bind_eq_ok_iff.mp h
  cases hlocate : document.locate token with
  | none =>
    rw [hlocate] at h
    cases h
  | some definition =>
    obtain ⟨hmem, place, hplace, -⟩ := Document.of_locate hlocate
    rw [hlocate] at h
    obtain rfl := Resolution.found.inj (Except.ok.inj h)
    rw [hplace]
    exact hdocument definition hmem place hplace

theorem Document.Ordered.outline (hdocument : document.Ordered) {target : Target}
    (h : target ∈ document.outline scope) : target.span.Ordered := by
  obtain ⟨definition, hmem, htarget⟩ := List.mem_filterMap.mp h
  obtain ⟨span, hspan, rfl⟩ := Option.map_eq_some_iff.mp htarget
  exact hdocument definition hmem span hspan

end Texts

/-! ## Spans in data -/

namespace Wire

/-- Only a count is read as a count. -/
theorem count?_eq_some_iff {json : Json} {n : Nat} : count? json = some n ↔ json = .ofNat n := by
  constructor
  · intro h
    unfold count? at h
    split at h
    next value =>
      split at h
      next hvalue =>
        obtain rfl := Option.some.inj h
        rw [Json.ofNat, Int.toNat_of_nonneg hvalue]
      next => cases h
    next => cases h
  · rintro rfl
    exact count?_ofNat n

end Wire

/-- A JSON value stands for a span when it holds just its bounds. -/
theorem Span.presented?_eq_some_iff {json : Json} {span : Span} : presented? json = some span ↔
    json.fields? ["start", "end"] = some [.ofNat span.start, .ofNat span.stop] := by
  unfold presented?
  cases hfields : json.fields? ["start", "end"] with
  | none => simp
  | some values =>
    have hlength := Json.length_of_fields? hfields
    match values, hlength with
    | [start, stop], _ =>
      simp only [Option.bind_some, ofFields?, Option.some.injEq, List.cons.injEq, and_true,
        ← Wire.count?_eq_some_iff]
      obtain ⟨a, b⟩ := span
      cases Wire.count? start with
      | none => simp
      | some start => cases Wire.count? stop <;> simp

/-- The span of a target holds just the bounds in the JSON value that stands for it. -/
theorem Target.exists_of_presented? {json : Json} {target : Target}
    (h : presented? json = some target) : ∃ kind name selector place,
      json.fields? ["kind", "name", "selector", "span"] = some [kind, name, selector, place] ∧
      Span.presented? place = some target.span := by
  obtain ⟨values, hfields, h⟩ := Option.bind_eq_some_iff.mp h
  have hlength := Json.length_of_fields? hfields
  match values, hlength with
  | [kind, name, selector, place], _ =>
    obtain ⟨_, -, h⟩ := Option.bind_eq_some_iff.mp h
    obtain ⟨_, -, h⟩ := Option.bind_eq_some_iff.mp h
    obtain ⟨_, -, h⟩ := Option.bind_eq_some_iff.mp h
    obtain ⟨span, hspan, h⟩ := Option.bind_eq_some_iff.mp h
    obtain rfl := Option.some.inj h
    exact ⟨kind, name, selector, place, hfields, hspan⟩

/-- **Spans of a text are in order, spans in data need not be.**  Whatever is built from two offsets
and whatever is taken from a text is in order, so the number of its bytes is what lies between its ends.
A text that is read as data gives just the bounds that are written in it. -/
theorem spans_in_order (tokenizer : Tokenizer) (scope : Namespace) (text : String) :
    (∀ a b, (Span.between a b).Ordered ∧ (Span.point a).Ordered) ∧
    (∀ span ∈ tokenSpans text.toList, span.Ordered) ∧
    (∀ position span, tokenSpanAt tokenizer text position = .ok span → span.Ordered) ∧
    (∀ document, Document.parse text = .ok document →
      document.Ordered ∧ ∀ target ∈ document.outline scope, target.span.Ordered) ∧
    (∀ position target, resolve tokenizer scope text position = .ok (.found target) →
      target.span.Ordered) ∧
    (∀ span : Span, span.contains span = true ∧
      (span.Ordered → span.start + span.length = span.stop)) ∧
    ∀ json, Json.parse text = .ok json →
      (∀ span, Wire.decode Span text = .ok span ↔
        json.fields? ["start", "end"] = some [.ofNat span.start, .ofNat span.stop]) ∧
      ∀ target, Wire.decode Target text = .ok target → ∃ kind name selector place,
        json.fields? ["kind", "name", "selector", "span"] = some [kind, name, selector, place] ∧
        place.fields? ["start", "end"] = some [.ofNat target.span.start, .ofNat target.span.stop] := by
  refine ⟨fun a b => ⟨Span.ordered_between a b, Span.ordered_point a⟩,
    fun _ => ordered_of_mem_tokenSpans, fun _ _ => ordered_of_tokenSpanAt, ?_, ?_,
    fun span => ⟨span.contains_self, Span.Ordered.start_add_length⟩, ?_⟩
  · intro document hparse
    have hordered := Document.ordered_of_parse hparse
    exact ⟨hordered, fun target => hordered.outline⟩
  · intro position target h
    unfold resolve at h
    cases hparse : Document.parse text with
    | error =>
      rw [hparse] at h
      cases h
    | ok document =>
      rw [hparse] at h
      exact (Document.ordered_of_parse hparse).resolve h
  · intro json hparse
    constructor
    · intro span
      exact (Wire.decode_iff_presented hparse span).trans Span.presented?_eq_some_iff
    · intro target h
      have hpresented := (Wire.decode_iff_presented hparse target).mp h
      obtain ⟨kind, name, selector, place, hfields, hspan⟩ := Target.exists_of_presented? hpresented
      exact ⟨kind, name, selector, place, hfields, Span.presented?_eq_some_iff.mp hspan⟩

/-- A span whose bounds are written the wrong way round, alone and inside a target. -/
theorem decode_keeps_reversed_bounds :
    (∃ span, Wire.decode Span "\x7b\"start\":7,\"end\":2\x7d" = .ok span ∧ ¬span.Ordered) ∧
      ∃ target, Wire.decode Target ("\x7b\"kind\":\"query\",\"name\":\"A\",\"selector\":\"s\"," ++
        "\"span\":\x7b\"start\":7,\"end\":2\x7d\x7d") = .ok target ∧ ¬target.span.Ordered :=
  ⟨⟨⟨7, 2⟩, rfl, by decide⟩, ⟨.query, "A", "s", ⟨7, 2⟩⟩, rfl, by decide⟩

end QueryLocator
