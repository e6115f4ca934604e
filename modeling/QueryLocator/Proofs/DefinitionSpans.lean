import QueryLocator.Proofs.DocumentLayout

/-! # The spans of the definitions of a document

What the explorer may rely on when a document parses: every definition has a span, the spans are
stretches of the text in order, each begins and ends with a significant token, and no part of the text
outside of them means anything (`parse_spans`).

What means nothing is said of characters (`Ignorable`), with no regard to how the text was cut into
tokens.
-/
namespace QueryLocator

open Text Syntax

/-- Text that means nothing: white space and byte order marks, commas, and comments, each of which
reaches to the end of its line. -/
inductive Ignorable : List Char → Prop where
  | nil : Ignorable []
  | space {c : Char} {rest : List Char} (hspace : isSpace c = true) (hrest : Ignorable rest) :
      Ignorable (c :: rest)
  | comma {rest : List Char} (hrest : Ignorable rest) : Ignorable (',' :: rest)
  | comment {body rest : List Char} (hbody : ∀ c ∈ body, endsLine c = false)
      (hend : ∀ c, rest.head? = some c → endsLine c = true) (hrest : Ignorable rest) :
      Ignorable ('#' :: (body ++ rest))

/-- The pieces of a text, from an offset on, that lie outside of spans in order. -/
def outside (text : List Char) : Nat → List Span → List (List Char)
  | offset, [] => [slice offset (byteSize text) text]
  | offset, span :: spans => slice offset span.start text :: outside text span.stop spans

/-! ## Trivia mean nothing -/

theorem Ignorable.spaces {run rest : List Char} (hrun : ∀ c ∈ run, isSpace c = true)
    (hrest : Ignorable rest) : Ignorable (run ++ rest) := by
  induction run with
  | nil => exact hrest
  | cons c run ih =>
    exact .space (hrun c (List.mem_cons_self ..)) (ih fun d hd => hrun d (List.mem_cons_of_mem c hd))

theorem Syntax.TokenForm.whitespace_text {text tail : List Char}
    (h : TokenForm .whitespace text tail) : ∀ c ∈ text, isSpace c = true := by
  cases h with
  | whitespace hspace _ => exact hspace
  | number _ hread => simpa using NumberState.kind_of_read hread
  | punctuator hmark => exact absurd rfl (of_punctuator? hmark).2.2.1

theorem Syntax.TokenForm.comma_text {text tail : List Char} (h : TokenForm .comma text tail) :
    text = [','] := by
  cases h with
  | number _ hread => simpa using NumberState.kind_of_read hread
  | punctuator hmark =>
    unfold punctuator? at hmark
    split at hmark <;> simp_all

theorem Syntax.TokenForm.comment_text {text tail : List Char} (h : TokenForm .comment text tail) :
    ∃ body, text = '#' :: body ∧ (∀ c ∈ body, endsLine c = false) ∧
      ∀ c, tail.head? = some c → endsLine c = true := by
  cases h with
  | comment hbody htail => exact ⟨_, rfl, hbody, htail⟩
  | number _ hread => simpa using NumberState.kind_of_read hread
  | punctuator hmark =>
    unfold punctuator? at hmark
    split at hmark <;> simp_all

/-- Trivia at the front of a run mean nothing. -/
theorem Syntax.Lexed.ignorable {offset : Nat} {text : List Char} {gap rest : List Lexeme}
    (h : Lexed offset text (gap ++ rest)) (hgap : ∀ lexeme ∈ gap, isIgnoredText lexeme.text = true) :
    Ignorable (joinTexts gap) := by
  induction gap generalizing offset text with
  | nil => exact .nil
  | cons lexeme gap ih =>
    cases h with
    | @cons _ kind token tail _ hform hrest =>
      have hbehind := ih hrest fun l hl => hgap l (List.mem_cons_of_mem _ hl)
      have htrivia : kind.isTrivia = true := by
        rw [← hform.isIgnoredText_eq]
        exact hgap _ (List.mem_cons_self ..)
      obtain ⟨behind, rfl, -, -⟩ := hrest.of_append
      rw [joinTexts_cons]
      cases kind with
      | whitespace => exact hbehind.spaces hform.whitespace_text
      | comma =>
        simp only [hform.comma_text]
        exact .comma hbehind
      | comment =>
        obtain ⟨body, rfl, hbody, htail⟩ := hform.comment_text
        refine .comment hbody ?_ hbehind
        intro c hc
        apply htail
        rw [List.head?_append, hc]
        rfl
      | _ => simp [TokenKind.isTrivia] at htrivia

/-- Trivia anywhere among the lexemes of a text mean nothing. -/
theorem ignorable_of_markedLexemes {text : List Char} (h : Lexed 0 text (lexemes text))
    {front gap back : List Lexeme} (hsplit : markedLexemes text = front ++ (gap ++ back))
    (hgap : ∀ lexeme ∈ gap, isIgnoredText lexeme.text = true) : Ignorable (joinTexts gap) := by
  have hinside {gap back : List Lexeme} (hsplit : lexemes text = front ++ (gap ++ back))
      (hgap : ∀ lexeme ∈ gap, isIgnoredText lexeme.text = true) : Ignorable (joinTexts gap) := by
    rw [hsplit] at h
    obtain ⟨tail, -, -, htail⟩ := h.of_append
    exact htail.ignorable hgap
  rw [markedLexemes_eq] at hsplit
  -- the mark of the end stands last, in the gap or behind it
  rcases List.eq_nil_or_concat back with rfl | ⟨back, last, rfl⟩
  · rcases List.eq_nil_or_concat gap with rfl | ⟨gap, last, rfl⟩
    · exact .nil
    · rw [List.concat_eq_append, List.append_nil, ← List.append_assoc] at hsplit
      obtain ⟨hlexemes, hlast⟩ := List.append_inj' hsplit rfl
      obtain rfl : endMark text = last := (List.cons.inj hlast).1
      rw [List.concat_eq_append, joinTexts_append]
      simp only [joinTexts_cons, joinTexts_nil, endMark, List.append_nil]
      exact @hinside gap [] (by simpa using hlexemes) fun l hl => hgap l (by simp [hl])
  · rw [List.concat_eq_append, ← List.append_assoc, ← List.append_assoc] at hsplit
    obtain ⟨hlexemes, -⟩ := List.append_inj' hsplit rfl
    exact @hinside gap back (by rw [hlexemes, List.append_assoc]) hgap

/-! ## What lies outside of the definitions -/

/-- Outside of the spans of a layout there are its gaps only. -/
theorem Layout.ignorable_outside {start : Nat} {pre : List Char} {run : List Lexeme}
    {spans : List Span} (h : Layout start run spans) (hstart : byteSize pre = start)
    (hgaps : ∀ front gap back, run = front ++ (gap ++ back) →
      (∀ lexeme ∈ gap, isIgnoredText lexeme.text = true) → Ignorable (joinTexts gap)) :
    ∀ piece ∈ outside (pre ++ joinTexts run) start spans, Ignorable piece := by
  induction h generalizing pre with
  | @last start gap hgap =>
    have hpiece : slice start (byteSize (pre ++ joinTexts gap)) (pre ++ joinTexts gap) =
        joinTexts gap := by
      have := slice_append pre (joinTexts gap) []
      rwa [List.append_nil, ← byteSize_append, hstart] at this
    simp only [outside, List.mem_singleton, forall_eq, hpiece]
    exact hgaps [] gap [] (by simp) hgap
  | @definition start low high gap core rest spans hgap _ hlow hhigh _ ih =>
    have hpiece : slice start low (pre ++ joinTexts (gap ++ (core ++ rest))) = joinTexts gap := by
      rw [hlow, ← hstart, joinTexts_append, slice_append]
    have hbehind := @ih (pre ++ joinTexts gap ++ joinTexts core)
      (by rw [byteSize_append, byteSize_append, hhigh, hlow, hstart])
      fun front piece back hsplit => hgaps (gap ++ (core ++ front)) piece back (by rw [hsplit]; simp)
    simp only [outside, List.mem_cons, forall_eq_or_imp, hpiece]
    refine ⟨hgaps [] gap (core ++ rest) rfl hgap, ?_⟩
    simpa using hbehind

/-! ## The ends of a span -/

section Ends
variable {document : Document} {text : String} {spans : List Span} {span : Span}

/-- A span begins and ends where the text can be cut. -/
theorem Document.LaidOut.isBoundary (h : document.LaidOut text spans) (hmem : span ∈ spans) :
    IsBoundary span.start text.toList ∧ IsBoundary span.stop text.toList := by
  obtain ⟨front, core, back, hrun, -, hstart, hstop⟩ := h.layout.core_of_mem hmem
  have htext : text.toList = joinTexts front ++ (joinTexts core ++ joinTexts back) := by
    rw [← joinTexts_markedLexemes h.lexed, hrun, joinTexts_append, joinTexts_append]
  constructor
  · exact ⟨joinTexts front, ⟨_, htext.symm⟩, by rw [hstart, Nat.zero_add]⟩
  · refine ⟨joinTexts front ++ joinTexts core, ⟨joinTexts back, ?_⟩, ?_⟩
    · rw [htext, List.append_assoc]
    · rw [hstop, hstart, byteSize_append, Nat.zero_add]

/-- A span begins with a significant lexeme and ends with one. -/
theorem Document.LaidOut.significant_ends (h : document.LaidOut text spans) (hmem : span ∈ spans) :
    (∃ lexeme ∈ lexemes text.toList, lexeme.Significant ∧ lexeme.span.start = span.start) ∧
      ∃ lexeme ∈ lexemes text.toList, lexeme.Significant ∧ lexeme.span.stop = span.stop := by
  obtain ⟨front, core, back, hrun, hcore, hstart, hstop⟩ := h.layout.core_of_mem hmem
  have hplaced := placed_markedLexemes h.lexed
  rw [hrun, placed_append, placed_append] at hplaced
  obtain ⟨-, hplaced, -⟩ := hplaced
  obtain ⟨first, rest, hfirst, hfirstText⟩ := hcore.first
  obtain ⟨before, last, hlast, hlastText⟩ := hcore.last
  constructor
  · obtain ⟨hlexeme, hsignificant⟩ := @mem_lexemes_of_significant _ h.lexed first
      (by rw [hrun, hfirst]; simp) hfirstText
    rw [hfirst] at hplaced
    exact ⟨first, hlexeme, hsignificant, hplaced.1.trans hstart.symm⟩
  · obtain ⟨hlexeme, hsignificant⟩ := @mem_lexemes_of_significant _ h.lexed last
      (by rw [hrun, hlast]; simp) hlastText
    rw [hlast, placed_append] at hplaced
    refine ⟨last, hlexeme, hsignificant, ?_⟩
    rw [hstop, hstart, hlast, Lexeme.span, hplaced.2.1]
    simp [Nat.add_assoc]

end Ends

/-! ## The spans of a document that parses -/

/-- **The definitions of a document that parses tile its meaning.**  There is at least one.  Each has
a span that is not empty, is cut between characters, and begins and ends with a significant token; the
spans are in source order and do not overlap; and the text outside of them means nothing. -/
theorem parse_spans {text : String} {document : Document} (h : Document.parse text = .ok document) :
    document.definitions ≠ [] ∧
      ∃ spans, document.definitions.map Definition.span? = spans.map some ∧
        (∀ span ∈ spans, span.start < span.stop ∧ span.stop ≤ byteSize text.toList ∧
          IsBoundary span.start text.toList ∧ IsBoundary span.stop text.toList ∧
          (∃ lexeme ∈ lexemes text.toList, lexeme.Significant ∧ lexeme.span.start = span.start) ∧
          ∃ lexeme ∈ lexemes text.toList, lexeme.Significant ∧ lexeme.span.stop = span.stop) ∧
        spans.Pairwise (fun a b => a.stop ≤ b.start) ∧
        ∀ piece ∈ outside text.toList 0 spans, Ignorable piece := by
  obtain ⟨-, hnonempty, hdocument⟩ := Document.of_parse h
  obtain ⟨spans, hlaid⟩ := Document.exists_laidOut h
  have htext := joinTexts_markedLexemes hlaid.lexed
  refine ⟨?_, spans, hlaid.agree, ?_, hlaid.layout.pairwise, ?_⟩
  · rw [hdocument]
    simpa using hnonempty
  · intro span hmem
    obtain ⟨-, hlt, hle⟩ := hlaid.layout.bounds hmem
    rw [htext, Nat.zero_add] at hle
    obtain ⟨hstart, hstop⟩ := hlaid.isBoundary hmem
    exact ⟨hlt, hle, hstart, hstop, hlaid.significant_ends hmem⟩
  · have houtside := @Layout.ignorable_outside 0 [] _ _ hlaid.layout rfl
      fun _ _ _ hsplit => ignorable_of_markedLexemes hlaid.lexed hsplit
    rwa [List.nil_append, htext] at houtside

/-- A byte order mark and a comment in front, a description that touches the definition before it, an
extension, and a comment at the end. -/
theorem parse_spans_of_touching_definitions :
    ∃ document spans,
      Document.parse "\uFEFF# c\r\nquery A\x7ba\x7d\"d\"type T\x7bb:C\x7d,extend type T @d#é" =
        .ok document ∧
      document.definitions.map Definition.span? = [some ⟨8, 18⟩, some ⟨18, 32⟩, some ⟨33, 49⟩] ∧
      document.definitions.map Definition.span? = spans.map some ∧
      spans.Pairwise (fun a b => a.stop ≤ b.start) ∧
      ∀ piece ∈ outside
        "\uFEFF# c\r\nquery A\x7ba\x7d\"d\"type T\x7bb:C\x7d,extend type T @d#é".toList 0 spans,
        Ignorable piece := by
  obtain ⟨-, spans, hspans, -, horder, houtside⟩ := parse_spans
    (show Document.parse
      "\uFEFF# c\r\nquery A\x7ba\x7d\"d\"type T\x7bb:C\x7d,extend type T @d#é" = .ok _ from rfl)
  exact ⟨_, spans, rfl, rfl, hspans, horder, houtside⟩

end QueryLocator
