import QueryLocator.Proofs.CursorSpan

/-! # Tokens that are dropped from a broken text

Reading a text keeps its lexemes in order, faulty pieces included, with one exception: in a list type a
token that begins no item type is dropped.  The error for it stays, unless brackets were nested too
deeply before, and that is an error as well (`Rule.Formed.keeps`).

Tokens are placed by adding up the lengths of what was kept.  So in a text that is not empty every
position is given the lexeme it is at exactly when nothing was dropped, as is the case when neither of
the two errors was reported; and up to the first token that was dropped the positions are given their
lexemes in any case (`tokens_refer_to_text`).
-/
namespace QueryLocator.Syntax

open Text Reading Rule

/-! ## What a rule keeps -/

/-- The lexemes that a reading still has, those it has taken and those ahead. -/
def Reading.kept (s : Reading) : List Lexeme :=
  s.taken.reverse ++ s.ahead

/-- An error with which a token may have been dropped, or behind which one may be dropped silently. -/
def TellsOfDrop (error : SyntaxError) : Prop :=
  error.message = "expected item type" ∨ error.message = "parser recursion limit reached"

instance : DecidablePred TellsOfDrop := fun _ => inferInstanceAs (Decidable (_ ∨ _))

/-- A reading that has found an error which tells of a dropped token. -/
def Reading.Warned (s : Reading) : Prop :=
  ∃ error ∈ s.errors, TellsOfDrop error

/-- The grammar is silent only where nothing is left to drop or where it has told why. -/
def Reading.Watchful (s : Reading) : Prop :=
  s.silenced = true → s.ahead = [] ∨ s.Warned

/-- From one reading to a later one lexemes are dropped only with a warning, and the others keep their
order. -/
structure Reading.Keeps (s t : Reading) : Prop where
  sublist : t.kept.Sublist s.kept
  complete : t.kept = s.kept ∨ t.Warned
  errors : s.ErrorsGrow t
  watchful : t.Watchful

section Keeping
variable {s t u : Reading}

theorem Reading.Warned.grow (h : s.Warned) (hgrow : s.ErrorsGrow t) : t.Warned :=
  hgrow.exists_mem h

theorem Reading.Keeps.of_kept_eq (hkept : t.kept = s.kept) (herrors : s.ErrorsGrow t)
    (hwatchful : t.Watchful) : s.Keeps t :=
  ⟨hkept ▸ List.Sublist.refl _, Or.inl hkept, herrors, hwatchful⟩

theorem Reading.Keeps.refl (hs : s.Watchful) : s.Keeps s :=
  .of_kept_eq rfl (.refl s) hs

theorem Reading.Keeps.trans (h : s.Keeps t) (h' : t.Keeps u) : s.Keeps u where
  sublist := h'.sublist.trans h.sublist
  complete := by
    rcases h'.complete with hsame' | hwarned
    · rcases h.complete with hsame | hwarned
      · exact Or.inl (hsame'.trans hsame)
      · exact Or.inr (hwarned.grow h'.errors)
    · exact Or.inr hwarned
  errors := h.errors.trans h'.errors
  watchful := h'.watchful

/-- Where a lexeme is ahead the grammar is silent only with a warning. -/
theorem Reading.Watchful.warned (hs : s.Watchful) {lexeme : Lexeme} {rest : List Lexeme}
    (hahead : s.ahead = lexeme :: rest) (hsilent : s.silenced = true) : s.Warned := by
  apply (hs hsilent).resolve_left
  rw [hahead]
  exact List.cons_ne_nil lexeme rest

/-- Passing lexemes moves them from those ahead to those taken. -/
theorem passing_kept (skipped : TokenKind → Bool) (taken : List Lexeme) (errors : List SyntaxError)
    (silenced : Bool) (ahead : List Lexeme) :
    (passing skipped taken errors silenced ahead).kept = taken.reverse ++ ahead := by
  induction ahead generalizing taken errors with
  | nil => rfl
  | cons lexeme rest ih =>
    rw [passing]
    split
    · rw [ih, List.reverse_cons, List.append_assoc, List.singleton_append]
    · split
      · rw [ih, List.reverse_cons, List.append_assoc, List.singleton_append]
      · rfl

theorem passing_keeps (hs : s.Watchful) (skipped : TokenKind → Bool) :
    s.Keeps (passing skipped s.taken s.errors s.silenced s.ahead) := by
  refine .of_kept_eq (passing_kept ..) (passing_errors ..) ?_
  intro hsilent
  rw [passing_silenced] at hsilent
  rcases hs hsilent with hahead | hwarned
  · rw [hahead]
    exact Or.inl rfl
  · exact Or.inr (hwarned.grow (passing_errors ..))

theorem take_keeps (hs : s.Watchful) : s.Keeps s.take := by
  refine .of_kept_eq ?_ (take_errors s) ?_
  · unfold take
    split
    · rfl
    · rename_i lexeme rest hahead
      simp [Reading.kept, hahead]
  · intro hsilent
    unfold take at hsilent ⊢
    split
    · rename_i hahead
      exact Or.inl hahead
    · rename_i lexeme rest hahead
      rw [hahead] at hsilent
      exact Or.inr (hs.warned hahead hsilent)

/-- Reporting changes nothing but the errors. -/
theorem reportAt_keeps (hs : s.Watchful) (offset : Nat) (fault : GrammarFault) :
    s.Keeps (s.reportAt offset fault) := by
  have hgrow := reportAt_errors offset fault s
  unfold reportAt at hgrow ⊢
  split
  · exact .refl hs
  · rename_i hloud
    exact .of_kept_eq rfl (by simpa [hloud] using hgrow) fun hsilent => absurd hsilent hloud

theorem report_keeps (hs : s.Watchful) (fault : GrammarFault) : s.Keeps (s.report fault) := by
  unfold report
  split
  · exact reportAt_keeps hs ..
  · exact .refl hs

/-- Reporting an error that tells of dropped tokens is a warning, unless there is one already. -/
theorem reportAt_warned (hs : s.silenced = true → s.Warned) {fault : GrammarFault}
    (hfault : fault.message = "expected item type" ∨ fault.message = "parser recursion limit reached")
    (offset : Nat) : (s.reportAt offset fault).Warned := by
  unfold reportAt
  split
  · rename_i hsilent
    exact hs hsilent
  · exact ⟨⟨fault.message, offset⟩, List.mem_cons_self .., hfault⟩

theorem overLimit_keeps (hs : s.Watchful) : s.Keeps s.overLimit := by
  have hreport := report_keeps hs .nestingLimit
  refine .of_kept_eq ?_ hreport.errors ?_
  · unfold overLimit report reportAt
    split
    · split <;> rfl
    · rfl
  · intro _
    cases hahead : s.ahead with
    | nil =>
      left
      unfold overLimit report current?
      rw [hahead]
      exact hahead
    | cons lexeme rest =>
      right
      have hwarned : (s.report .nestingLimit).Warned := by
        unfold report current?
        rw [hahead]
        exact reportAt_warned (hs.warned hahead) (Or.inr rfl) lexeme.offset
      exact hwarned

/-- A token that begins no item type is dropped with a warning. -/
theorem discard_keeps (hs : s.Watchful) : s.Keeps (Reading.discard (.expected "item type") s) := by
  unfold Reading.discard
  split
  · exact .refl hs
  · rename_i lexeme rest hahead
    have hquiet := @hs.warned _ _ _ hahead
    have hwarned : (reportAt lexeme.offset (.expected "item type") { s with ahead := rest }).Warned :=
      reportAt_warned (s := { s with ahead := rest }) hquiet (Or.inl (by decide)) lexeme.offset
    have hsettle := passing_keeps (fun _ => Or.inr hwarned) fun _ => false
    have hreport : Reading.Keeps { s with ahead := rest }
        (reportAt lexeme.offset (.expected "item type") { s with ahead := rest }) :=
      @reportAt_keeps { s with ahead := rest } (fun hsilent => Or.inr (hquiet hsilent)) ..
    refine ⟨(hreport.trans hsettle).sublist.trans ?_, Or.inr (hwarned.grow hsettle.errors),
      (hreport.trans hsettle).errors, hsettle.watchful⟩
    simp [Reading.kept, hahead]

/-- **A rule drops a lexeme only with a warning.** -/
theorem Rule.Formed.keeps {rule : Rule} (h : Formed rule) (hs : s.Watchful) : s.Keeps (rule s) := by
  induction h generalizing s with
  | pass => exact .refl hs
  | bump =>
    have htake := take_keeps hs
    exact htake.trans (passing_keeps htake.watchful _)
  | skip => exact passing_keeps hs _
  | report fault => exact report_keeps hs _
  | overLimit => exact overLimit_keeps hs
  | discard => exact discard_keeps hs
  | follow _ _ ih ih' => exact (ih hs).trans (ih' (ih hs).watchful)
  | choose _ _ ih => exact ih s hs

end Keeping

/-! ## What reading a text keeps -/

section Texts
variable {text : List Char} {a b : List Lexeme}

/-- A text is read from its lexemes on, and its tokens are what is kept of them. -/
theorem readDocument_keeps (text : List Char) :
    ∃ s : Reading, Reading.Keeps ⟨markedLexemes text, [], [], false⟩ s ∧
      (readDocument text).texts = s.kept.map Lexeme.text ∧
      (readDocument text).errors = s.errors.reverse := by
  have hstart : Reading.Watchful ⟨markedLexemes text, [], [], false⟩ := by simp [Reading.Watchful]
  exact readDocument_invariant (fun _ hrule t hkeeps => hkeeps.trans (hrule.keeps hkeeps.watchful))
    (Formed.skip.keeps hstart)

theorem byteSize_joinTexts_le (h : a.Sublist b) : byteSize (joinTexts a) ≤ byteSize (joinTexts b) := by
  induction h with
  | slnil => exact Nat.le_refl _
  | cons lexeme _ ih =>
    rw [joinTexts_cons, byteSize_append]
    omega
  | cons_cons lexeme _ ih =>
    rw [joinTexts_cons, joinTexts_cons, byteSize_append, byteSize_append]
    omega

/-- Lexemes of which some are missing are shorter together. -/
theorem eq_of_sublist_of_byteSize_le (h : a.Sublist b) (hne : ∀ lexeme ∈ b, lexeme.text ≠ [])
    (hsize : byteSize (joinTexts b) ≤ byteSize (joinTexts a)) : a = b := by
  induction h with
  | slnil => rfl
  | cons lexeme hrest _ =>
    have := byteSize_joinTexts_le hrest
    have := byteSize_pos (hne lexeme (List.mem_cons_self ..))
    rw [joinTexts_cons, byteSize_append] at hsize
    omega
  | cons_cons lexeme _ ih =>
    rw [joinTexts_cons, joinTexts_cons, byteSize_append, byteSize_append] at hsize
    rw [ih (fun other hmem => hne other (List.mem_cons_of_mem _ hmem)) (by omega)]

/-- The tokens of a text are some of its lexemes, in order, and then at most the mark of its end.  No
lexeme is missing unless an error tells of it. -/
theorem exists_kept_lexemes (text : List Char) :
    ∃ kept last, (readDocument text).texts = kept.map Lexeme.text ++ last ∧ last.flatten = [] ∧
      kept.Sublist (lexemes text) ∧
      ((∀ error ∈ (readDocument text).errors, ¬TellsOfDrop error) → kept = lexemes text) := by
  obtain ⟨s, hkeeps, htexts, herrors⟩ := readDocument_keeps text
  rcases hkeeps.complete with hsame | ⟨error, hmem, htells⟩
  · have hkept : s.kept = lexemes text ++ [endMark text] := hsame
    exact ⟨lexemes text, [[]], by rw [htexts, hkept, List.map_append]; rfl, rfl, List.Sublist.refl _,
      fun _ => rfl⟩
  · have hsublist : s.kept.Sublist (lexemes text ++ [endMark text]) := hkeeps.sublist
    obtain ⟨kept, mark, hkept, hlexemes, hmark⟩ := List.sublist_append_iff.mp hsublist
    refine ⟨kept, mark.map Lexeme.text, by rw [htexts, hkept, List.map_append], ?_, hlexemes, ?_⟩
    · have hsize : byteSize (joinTexts mark) ≤ byteSize (joinTexts [endMark text]) :=
        byteSize_joinTexts_le hmark
      exact byteSize_eq_zero_iff.mp (Nat.le_zero.mp hsize)
    · intro hquiet
      exact absurd htells (hquiet error (by rw [herrors]; exact List.mem_reverse.mpr hmem))

/-- If none of the lexemes of a text is missing, the texts of the tokens put together are the text. -/
theorem flatten_texts_eq {last : List (List Char)}
    (htexts : (readDocument text).texts = (lexemes text).map Lexeme.text ++ last)
    (hlast : last.flatten = []) : (readDocument text).texts.flatten = text := by
  rw [htexts, List.flatten_append, lexemes_texts, hlast, List.append_nil]

/-- The texts of the tokens reach to the end of a text only if none of its lexemes is missing. -/
theorem exists_texts_eq_of_byteSize_le
    (h : byteSize text ≤ byteSize (readDocument text).texts.flatten) :
    ∃ last, (readDocument text).texts = (lexemes text).map Lexeme.text ++ last ∧ last.flatten = [] := by
  obtain ⟨kept, last, htexts, hlast, hsublist, -⟩ := exists_kept_lexemes text
  have htext : joinTexts (lexemes text) = text := lexemes_texts text
  have hflat : (readDocument text).texts.flatten = joinTexts kept := by
    rw [htexts, List.flatten_append, hlast, List.append_nil]
    rfl
  obtain rfl : kept = lexemes text := by
    apply eq_of_sublist_of_byteSize_le hsublist fun _ hmem => text_ne_nil_of_mem_lexemes hmem
    rw [htext, ← hflat]
    exact h
  exact ⟨last, htexts, hlast⟩

end Texts
end QueryLocator.Syntax

namespace QueryLocator

open Text Syntax

/-! ## What a position of a broken text is given -/

/-- A position is given the part, on its line, of the lexeme of the text that it is at. -/
def RefersToText (text : String) (position : Position) : Prop :=
  ∃ bounds offset lineStart content lexeme, syntaxTokenizer text position = some bounds ∧
    (LineIndex.ofText text).offset? position = some offset ∧
    (LineIndex.ofText text).lineStart position.line = some lineStart ∧
    (LineIndex.ofText text).lineText position.line = some content ∧
    LexemeAt text.toList offset lexeme ∧
    (LineIndex.ofText text).offset? ⟨position.line, bounds.start⟩ =
      some (max lexeme.span.start lineStart) ∧
    (LineIndex.ofText text).offset? ⟨position.line, bounds.stop⟩ =
      some (min lexeme.span.stop (lineStart + byteSize content))

section Positions
variable {text : String} {front back : List Lexeme} {others : List (List Char)}

/-- A cursor no further than some lexemes reach is at one of them. -/
theorem LexemeAt.mem_front {chars : List Char} {offset : Nat} {lexeme : Lexeme}
    (h : LexemeAt chars offset lexeme) (hsplit : lexemes chars = front ++ back) (hne : front ≠ [])
    (hoffset : offset ≤ byteSize (joinTexts front)) : lexeme ∈ front := by
  rcases h.start with hlow | ⟨-, hhead⟩
  · have hmem := h.mem
    rw [hsplit] at hmem
    apply (List.mem_append.mp hmem).resolve_right
    intro hback
    obtain ⟨before, after, rfl⟩ := List.append_of_mem hback
    have hplaced := placed_lexemes chars
    rw [hsplit, ← List.append_assoc, placed_append] at hplaced
    have hstart : lexeme.span.start = 0 + byteSize (joinTexts (front ++ before)) := hplaced.2.1
    rw [joinTexts_append, byteSize_append] at hstart
    omega
  · obtain ⟨first, rest, rfl⟩ := List.exists_cons_of_ne_nil hne
    rw [hsplit] at hhead
    obtain rfl : first = lexeme := Option.some.inj hhead
    exact List.mem_cons_self ..

/-- As far as the lexemes of a text were kept, its positions are given them. -/
theorem refersToText_of_kept (hsplit : lexemes text.toList = front ++ back) (hne : front ≠ [])
    (htexts : (readDocument text.toList).texts = front.map Lexeme.text ++ others) {position : Position}
    {offset : Nat} (hposition : (LineIndex.ofText text).offset? position = some offset)
    (hoffset : offset ≤ byteSize (joinTexts front)) : RefersToText text position := by
  obtain ⟨before, line, after, column, hline, rfl⟩ :=
    LineIndex.exists_line_of_position (LineIndex.lt_lineCount_of_offset? hposition)
  obtain rfl := Option.some.inj ((LineIndex.offset?_eq hline column).symm.trans hposition)
  have htext : text.toList ≠ [] := by
    intro hnil
    rw [hnil] at hsplit
    exact hne (List.append_eq_nil_iff.mp hsplit.symm).1
  obtain ⟨lexeme, hat⟩ := exists_lexemeAt htext (LineIndex.isBoundary_upTo hline column).le_byteSize
  obtain ⟨bounds, htokenizer, hstart, hstop, -⟩ :=
    hat.exists_bounds hline column rfl hsplit (hat.mem_front hsplit hne hoffset) htexts
  rw [byteSize_append] at hstop
  exact ⟨bounds, _, _, _, lexeme, htokenizer, hposition, LineIndex.lineStart_eq hline,
    LineIndex.lineText_eq hline, hat, hstart, hstop⟩

/-- The position of the end of a text is given a token only if the tokens reach that far. -/
theorem byteSize_le_of_tokenizer {position : Position} {bounds : ColumnBounds}
    (hposition : (LineIndex.ofText text).offset? position = some (byteSize text.toList))
    (h : syntaxTokenizer text position = some bounds) :
    byteSize text.toList ≤ byteSize (readDocument text.toList).texts.flatten := by
  simp only [syntaxTokenizer, hposition] at h
  obtain ⟨token, hchoose, -⟩ := Option.bind_eq_some_iff.mp h
  have hstop := (touches_of_chooseSpan hchoose).2
  have := (consecutiveSpans_bounds (mem_of_chooseSpan hchoose)).2.2
  omega

end Positions

/-- **Tokens refer to the text exactly as long as none is dropped.**  In a text that is not empty every
position on a line is given the part on its line of the lexeme it is at if and only if the texts of the
tokens put together are the text.  That is so if no error tells of a dropped token.  As far as the
lexemes in front were kept, the positions are given them in any text. -/
theorem tokens_refer_to_text {text : String} (hne : text ≠ "") :
    ((∀ position : Position, position.line < (LineIndex.ofText text).lineCount →
        RefersToText text position) ↔ (readDocument text.toList).texts.flatten = text.toList) ∧
      ((∀ error ∈ (readDocument text.toList).errors, ¬TellsOfDrop error) →
        (readDocument text.toList).texts.flatten = text.toList) ∧
      ∀ front, front <+: lexemes text.toList → front ≠ [] →
        front.map Lexeme.text <+: (readDocument text.toList).texts →
        ∀ position offset, (LineIndex.ofText text).offset? position = some offset →
          offset ≤ byteSize (joinTexts front) → RefersToText text position := by
  refine ⟨⟨?_, ?_⟩, ?_, ?_⟩
  · -- the position of the end of the text is given a token too
    intro hall
    obtain ⟨line, column, length, -, hlength, -, hend⟩ :=
      LineIndex.offset?_of_cleanCut (cleanCut_nil_right text.toList)
    rw [List.append_nil] at hlength hend
    obtain ⟨bounds, -, -, -, -, htokenizer, -⟩ :=
      hall ⟨line, column⟩ (LineIndex.lt_lineCount_of_lineLength hlength)
    obtain ⟨last, htexts, hlast⟩ :=
      exists_texts_eq_of_byteSize_le (byteSize_le_of_tokenizer hend htokenizer)
    exact flatten_texts_eq htexts hlast
  · intro hsame position hposition
    obtain ⟨last, htexts, -⟩ := exists_texts_eq_of_byteSize_le (Nat.le_of_eq (by rw [hsame]))
    obtain ⟨before, line, after, column, hline, rfl⟩ := LineIndex.exists_line_of_position hposition
    have hlexemes : lexemes text.toList ≠ [] := by
      intro hnil
      have htext := lexemes_texts text.toList
      rw [hnil] at htext
      exact hne (String.toList_inj.mp htext.symm)
    refine refersToText_of_kept (List.append_nil _).symm hlexemes htexts
      (LineIndex.offset?_eq hline column) ?_
    rw [joinTexts, lexemes_texts]
    exact (LineIndex.isBoundary_upTo hline column).le_byteSize
  · intro hquiet
    obtain ⟨kept, last, htexts, hlast, -, hkept⟩ := exists_kept_lexemes text.toList
    rw [hkept hquiet] at htexts
    exact flatten_texts_eq htexts hlast
  · rintro front ⟨back, hsplit⟩ hfront ⟨others, htexts⟩ position offset hposition hoffset
    exact refersToText_of_kept hsplit.symm hfront htexts.symm hposition hoffset

/-- Stray characters and a string without an end are kept, so every position is given its lexeme.  Where
an exclamation mark was dropped, the positions in front of it are. -/
theorem tokens_refer_to_text_in_broken_texts :
    ("é\"x\n?" ≠ "" ∧ ∀ position : Position, position.line < (LineIndex.ofText "é\"x\n?").lineCount →
      RefersToText "é\"x\n?" position) ∧
    "type T\x7ba:[!]\x7d" ≠ "" ∧ RefersToText "type T\x7ba:[!]\x7d" ⟨0, 10⟩ := by
  have hfaulty : "é\"x\n?" ≠ "" := by decide
  have hdropped : "type T\x7ba:[!]\x7d" ≠ "" := by decide
  obtain ⟨hall, hquiet, -⟩ := tokens_refer_to_text hfaulty
  obtain ⟨-, -, hfront⟩ := tokens_refer_to_text hdropped
  refine ⟨⟨hfaulty, hall.mpr (hquiet (by decide))⟩, hdropped, ?_⟩
  -- the bracket that opens the list type is the last of the lexemes that were kept
  exact hfront ((lexemes "type T\x7ba:[!]\x7d".toList).take 7) (List.take_prefix ..) (by decide)
    ⟨_, rfl⟩ ⟨0, 10⟩ 10 rfl (by decide)

/-- The exclamation mark begins no type and is dropped.  The tokens that are left end one byte in front
of the end of the text, so the position there is given none. -/
theorem position_without_token :
    "type T\x7ba:[!]\x7d" ≠ "" ∧
      (Position.mk 0 13).line < (LineIndex.ofText "type T\x7ba:[!]\x7d").lineCount ∧
      syntaxTokenizer "type T\x7ba:[!]\x7d" ⟨0, 13⟩ = none :=
  ⟨by decide, by decide, rfl⟩

end QueryLocator
