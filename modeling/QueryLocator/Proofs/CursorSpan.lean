import QueryLocator.CursorToken
import QueryLocator.Proofs.DocumentLayout
import QueryLocator.Proofs.PositionRoundTrips

/-! # The span of the token under the cursor

What is looked up for a cursor is the part on its line of the span that is chosen for it, whatever the
text and whatever the span (`exists_bounds_of_chooseSpan`).

In a document that parses the tokens tile the text, so the cursor always touches one: the token that
it stands behind or inside, or the first one when it stands in front of the text
(`Document.LaidOut.exists_tokenSpanAt`).  A token lies inside a definition, in front of it or behind it
(`Layout.apart`).
-/
namespace QueryLocator

open Text Syntax

/-! ## Spans one behind the other -/

section Spans
variable {offset : Nat} {texts : List (List Char)} {span : Span}

theorem consecutiveSpans_append (a b : List (List Char)) :
    consecutiveSpans offset (a ++ b) =
      consecutiveSpans offset a ++ consecutiveSpans (offset + byteSize a.flatten) b := by
  induction a generalizing offset with
  | nil => simp [consecutiveSpans]
  | cons text a ih => simp [consecutiveSpans, ih, Nat.add_assoc]

/-- Each of the spans is where one of the texts stands. -/
theorem exists_of_mem_consecutiveSpans (h : span ∈ consecutiveSpans offset texts) :
    ∃ front text back, texts = front ++ text :: back ∧
      span.start = offset + byteSize front.flatten ∧ span.stop = span.start + byteSize text := by
  induction texts generalizing offset with
  | nil => simp [consecutiveSpans] at h
  | cons text texts ih =>
    rcases List.mem_cons.mp h with rfl | h
    · exact ⟨[], text, texts, rfl, rfl, rfl⟩
    · obtain ⟨front, text', back, rfl, hstart, hstop⟩ := ih h
      exact ⟨text :: front, text', back, rfl, by simp [hstart, Nat.add_assoc], hstop⟩

theorem consecutiveSpans_bounds (h : span ∈ consecutiveSpans offset texts) :
    offset ≤ span.start ∧ span.start ≤ span.stop ∧ span.stop ≤ offset + byteSize texts.flatten := by
  obtain ⟨front, text, back, rfl, hstart, hstop⟩ := exists_of_mem_consecutiveSpans h
  simp only [List.flatten_append, List.flatten_cons, byteSize_append]
  omega

/-- The spans leave no gap. -/
theorem exists_consecutiveSpan {x : Nat} (hlow : offset < x)
    (hhigh : x ≤ offset + byteSize texts.flatten) :
    ∃ span ∈ consecutiveSpans offset texts, span.start < x ∧ x ≤ span.stop := by
  induction texts generalizing offset with
  | nil =>
    simp only [List.flatten_nil, byteSize_nil] at hhigh
    omega
  | cons text texts ih =>
    by_cases hfirst : x ≤ offset + byteSize text
    · exact ⟨⟨offset, offset + byteSize text⟩, List.mem_cons_self .., hlow, hfirst⟩
    · simp only [List.flatten_cons, byteSize_append] at hhigh
      obtain ⟨span, hmem, hspan⟩ := @ih (offset + byteSize text) (by omega) (by omega)
      exact ⟨span, List.mem_cons_of_mem _ hmem, hspan⟩

theorem consecutiveSpans_pairwise (offset : Nat) (texts : List (List Char)) :
    (consecutiveSpans offset texts).Pairwise fun a b => a.stop ≤ b.start := by
  induction texts generalizing offset with
  | nil => exact .nil
  | cons text texts ih =>
    refine List.pairwise_cons.mpr ⟨?_, ih _⟩
    intro span hmem
    exact (consecutiveSpans_bounds hmem).1

end Spans

/-- Lexemes that stand one behind the other have the spans of their texts. -/
theorem Placed.consecutiveSpans_eq {offset : Nat} {run : List Lexeme} (h : Placed offset run) :
    consecutiveSpans offset (run.map Lexeme.text) = run.map Lexeme.span := by
  induction run generalizing offset with
  | nil => rfl
  | cons lexeme run ih =>
    obtain ⟨rfl, hrest⟩ := h
    simp only [List.map_cons, consecutiveSpans, ih hrest, Lexeme.span]

/-- **Every token lies inside a definition or beside it.** -/
theorem Layout.apart {start : Nat} {run : List Lexeme} {spans : List Span} (h : Layout start run spans)
    {token : Span} (htoken : token ∈ consecutiveSpans start (run.map Lexeme.text)) {span : Span}
    (hspan : span ∈ spans) :
    (span.start ≤ token.start ∧ token.stop ≤ span.stop) ∨ token.stop ≤ span.start ∨
      span.stop ≤ token.start := by
  induction h with
  | last => simp at hspan
  | @definition start low high gap core rest spans _ _ hlow hhigh hrest ih =>
    rw [List.map_append, List.map_append, consecutiveSpans_append, consecutiveSpans_append,
      List.mem_append, List.mem_append] at htoken
    have hstart : start + byteSize (gap.map Lexeme.text).flatten = low := hlow.symm
    have hstop : low + byteSize (core.map Lexeme.text).flatten = high := hhigh.symm
    rw [hstart, hstop] at htoken
    rcases List.mem_cons.mp hspan with rfl | hspan
    · rcases htoken with htoken | htoken | htoken
      · have := consecutiveSpans_bounds htoken
        exact Or.inr (Or.inl (by simp only; omega))
      · have := consecutiveSpans_bounds htoken
        exact Or.inl (by simp only; omega)
      · have := consecutiveSpans_bounds htoken
        exact Or.inr (Or.inr (by simp only; omega))
    · have hbehind := hrest.bounds hspan
      rcases htoken with htoken | htoken | htoken
      · have := consecutiveSpans_bounds htoken
        exact Or.inr (Or.inl (by omega))
      · have := consecutiveSpans_bounds htoken
        exact Or.inr (Or.inl (by omega))
      · exact ih htoken hspan

/-! ## The part of a span on a line -/

/-- Cutting a span that touches a line to it. -/
theorem LineIndex.exists_columns {text : List Char} {before after : List Line} {line : Line}
    (h : splitLines text = before ++ line :: after) {span : Span}
    (hstart : IsBoundary span.start text) (hstop : IsBoundary span.stop text)
    (hlow : byteSize (before.flatMap Line.chars) ≤ span.stop)
    (hhigh : span.start ≤ byteSize (before.flatMap Line.chars ++ line.content)) :
    ∃ bounds, (ofChars text).columns before.length span = some bounds ∧
      (ofChars text).offset? ⟨before.length, bounds.start⟩ =
        some (max span.start (byteSize (before.flatMap Line.chars))) ∧
      (ofChars text).offset? ⟨before.length, bounds.stop⟩ =
        some (min span.stop (byteSize (before.flatMap Line.chars ++ line.content))) := by
  have hback {pre : List Char} (hpre : pre <+: text)
      (hlow : byteSize (before.flatMap Line.chars) ≤ byteSize pre)
      (hhigh : after ≠ [] →
        byteSize pre < byteSize (before.flatMap Line.chars) + byteSize line.chars) :
      (ofChars text).offset? ⟨before.length, ((ofChars text).position (byteSize pre)).character⟩ =
        some (min (byteSize pre) (byteSize (before.flatMap Line.chars ++ line.content))) := by
    rw [← offset?_position h hpre hlow hhigh, position_eq h hpre hlow hhigh]
  refine ⟨_, by rw [columns, lineStart_eq h, lineLength_eq h], ?_, ?_⟩
  · obtain ⟨pre, hpre, hsize⟩ := hstart
    rw [← hsize] at hhigh ⊢
    by_cases hcut : byteSize pre < byteSize (before.flatMap Line.chars)
    · rw [if_pos hcut, offset?_eq h, List.take_zero, List.append_nil, Nat.max_eq_right (by omega)]
    · rw [if_neg hcut, hback hpre (by omega), Nat.min_eq_left hhigh, Nat.max_eq_left (by omega)]
      intro hne
      have := byteSize_content_lt h hne
      omega
  · obtain ⟨pre, hpre, hsize⟩ := hstop
    rw [← hsize] at hlow ⊢
    by_cases hin : after ≠ [] →
        byteSize pre < byteSize (before.flatMap Line.chars) + byteSize line.chars
    · have hline : ¬((ofChars text).position (byteSize pre)).line > before.length := by
        rw [position_eq h hpre hlow hin]
        exact Nat.lt_irrefl _
      rw [if_neg hline, hback hpre hlow hin]
    · -- the span goes on behind the terminator, so all of the line belongs to it
      obtain ⟨hne, hbehind⟩ := Classical.not_imp.mp hin
      have hline : ((ofChars text).position (byteSize pre)).line > before.length := by
        have hsnap : snap (byteSize pre) (ofChars text).text = byteSize pre := snap_of_prefix hpre
        simp only [position, hsnap]
        exact lt_lineAt h hne (by omega)
      have := byteSize_content_lt h hne
      rw [if_pos hline, offset?_eq h, List.take_length, Nat.min_eq_right (by omega)]

/-- An end of a span inside a character stands for the place where the character begins. -/
theorem LineIndex.columns_snap {text : List Char} {before after : List Line} {line : Line}
    (h : splitLines text = before ++ line :: after) (span : Span) :
    (ofChars text).columns before.length ⟨snap span.start text, snap span.stop text⟩ =
      (ofChars text).columns before.length span := by
  have hlineStart : IsBoundary (byteSize (before.flatMap Line.chars)) text :=
    ⟨_, ⟨_, (text_eq h).symm⟩, rfl⟩
  have hsame : snap span.start text < byteSize (before.flatMap Line.chars) ↔
      span.start < byteSize (before.flatMap Line.chars) := by
    have hle := snap_le span.start text
    constructor
    · intro hlt
      apply Nat.lt_of_not_le
      intro hge
      have := le_snap hlineStart hge
      omega
    · intro hlt
      omega
  simp only [columns, lineStart_eq h, lineLength_eq h, position_snap, hsame]

/-- Cutting to its line any span that a cursor touches. -/
theorem LineIndex.exists_columns_of_touched {text : List Char} {before after : List Line} {line : Line}
    (h : splitLines text = before ++ line :: after) {offset : Nat} (hoffset : IsBoundary offset text)
    (hlow : byteSize (before.flatMap Line.chars) ≤ offset)
    (hhigh : offset ≤ byteSize (before.flatMap Line.chars ++ line.content)) {span : Span}
    (hstart : span.start ≤ offset) (hstop : offset ≤ span.stop) :
    ∃ bounds, (ofChars text).columns before.length span = some bounds ∧
      (ofChars text).offset? ⟨before.length, bounds.start⟩ =
        some (max (snap span.start text) (byteSize (before.flatMap Line.chars))) ∧
      (ofChars text).offset? ⟨before.length, bounds.stop⟩ =
        some (min (snap span.stop text) (byteSize (before.flatMap Line.chars ++ line.content))) := by
  have hbefore := snap_le span.start text
  have hbehind : offset ≤ snap span.stop text := le_snap hoffset hstop
  rw [← columns_snap h span]
  exact @exists_columns _ _ _ _ h ⟨snap span.start text, snap span.stop text⟩ (isBoundary_snap ..)
    (isBoundary_snap ..) (by simp only; omega) (by simp only; omega)

/-- A cursor stands between two characters. -/
theorem LineIndex.isBoundary_upTo {text : List Char} {before after : List Line} {line : Line}
    (h : splitLines text = before ++ line :: after) (column : Nat) :
    IsBoundary (byteSize (before.flatMap Line.chars ++ line.content.take column)) text := by
  obtain ⟨suf, htext, -, -⟩ := splitLines_upTo h column
  exact ⟨_, ⟨suf, htext.symm⟩, rfl⟩

/-- A span that is chosen is the span of a token. -/
theorem mem_of_chooseSpan {text : List Char} {offset : Nat} {token : Span}
    (h : chooseSpan (tokenSpans text) offset = some token) :
    token ∈ consecutiveSpans 0 (readDocument text).texts := by
  have hmem : token ∈ tokenSpans text := by
    rcases Option.or_eq_some_iff.mp h with hfind | ⟨-, hfind⟩
    · exact List.mem_of_find?_eq_some hfind
    · exact List.mem_of_find?_eq_some hfind
  exact (List.mem_filter.mp hmem).1

/-- A span that is chosen for an offset touches it. -/
theorem touches_of_chooseSpan {text : List Char} {offset : Nat} {token : Span}
    (h : chooseSpan (tokenSpans text) offset = some token) :
    token.start ≤ offset ∧ offset ≤ token.stop := by
  have hproper := (consecutiveSpans_bounds (mem_of_chooseSpan h)).2.1
  rcases Option.or_eq_some_iff.mp h with hfind | ⟨-, hfind⟩
  · have htouch := List.find?_some hfind
    simp only [Bool.and_eq_true, decide_eq_true_eq] at htouch
    omega
  · have hsame := List.find?_some hfind
    simp only [beq_iff_eq] at hsame
    omega

/-- **What is looked up for a cursor** is the part on its line of the span that is chosen for it. -/
theorem exists_bounds_of_chooseSpan {text : String} {before after : List Line} {line : Line}
    (hline : splitLines text.toList = before ++ line :: after) (column : Nat) {offset : Nat}
    (hoffset : offset = byteSize (before.flatMap Line.chars ++ line.content.take column)) {token : Span}
    (hchoose : chooseSpan (tokenSpans text.toList) offset = some token) :
    ∃ bounds, syntaxTokenizer text ⟨before.length, column⟩ = some bounds ∧
      (LineIndex.ofText text).offset? ⟨before.length, bounds.start⟩ =
        some (max (snap token.start text.toList) (byteSize (before.flatMap Line.chars))) ∧
      (LineIndex.ofText text).offset? ⟨before.length, bounds.stop⟩ =
        some (min (snap token.stop text.toList)
          (byteSize (before.flatMap Line.chars ++ line.content))) ∧
      tokenSpanAt syntaxTokenizer text ⟨before.length, column⟩ =
        .ok ⟨max (snap token.start text.toList) (byteSize (before.flatMap Line.chars)),
          min (snap token.stop text.toList)
            (byteSize (before.flatMap Line.chars ++ line.content))⟩ := by
  obtain ⟨hstart, hstop⟩ := touches_of_chooseSpan hchoose
  obtain ⟨hlow, hhigh⟩ := LineIndex.byteSize_upTo_bounds before line column
  rw [← hoffset] at hlow hhigh
  have hplace : IsBoundary offset text.toList := hoffset ▸ LineIndex.isBoundary_upTo hline column
  obtain ⟨bounds, hcolumns, hfirst, hlast⟩ :=
    LineIndex.exists_columns_of_touched hline hplace hlow hhigh hstart hstop
  have hposition := LineIndex.offset?_eq hline column
  rw [← hoffset] at hposition
  have htokenizer : syntaxTokenizer text ⟨before.length, column⟩ = some bounds := by
    simp only [syntaxTokenizer, LineIndex.ofText, hposition, hchoose, Option.bind_some, hcolumns]
  refine ⟨bounds, htokenizer, hfirst, hlast, ?_⟩
  have hbefore := snap_le token.start text.toList
  have hbehind : offset ≤ snap token.stop text.toList := le_snap hplace hstop
  simp only [tokenSpanAt, LineIndex.ofText, LineIndex.offset, hposition, htokenizer, hfirst, hlast,
    bind, Except.bind, pure, Except.pure, Span.between, Except.ok.injEq, Span.mk.injEq]
  omega

/-! ## The lexeme at a cursor -/

/-- The lexeme that a cursor at an offset of a text is at: the one that ends there or reaches over the
offset, and in front of the text the first one. -/
structure LexemeAt (text : List Char) (offset : Nat) (lexeme : Lexeme) : Prop where
  mem : lexeme ∈ lexemes text
  start : lexeme.span.start < offset ∨ (offset = 0 ∧ (lexemes text).head? = some lexeme)
  stop : offset ≤ lexeme.span.stop

/-- The lexemes of any text stand one behind the other, and none of them is empty. -/
theorem lexemesFrom_placed (bound offset : Nat) (text : List Char) :
    Placed offset (lexemesFrom bound offset text) ∧
      ∀ lexeme ∈ lexemesFrom bound offset text, lexeme.text ≠ [] := by
  induction bound generalizing offset text with
  | zero => simp [lexemesFrom, Placed]
  | succ bound ih =>
    cases text with
    | nil => simp [lexemesFrom, Placed]
    | cons c rest =>
      obtain ⟨hplaced, hne⟩ := ih (offset + byteSize (firstLexeme offset c rest).1.text)
        (firstLexeme offset c rest).2
      simp only [lexemesFrom, List.mem_cons, forall_eq_or_imp]
      exact ⟨⟨rfl, hplaced⟩, by simp [firstLexeme], hne⟩

section Lexemes
variable {text : List Char} {offset : Nat} {a b : Lexeme}

theorem placed_lexemes (text : List Char) : Placed 0 (lexemes text) :=
  (lexemesFrom_placed ..).1

theorem text_ne_nil_of_mem_lexemes (h : a ∈ lexemes text) : a.text ≠ [] :=
  (lexemesFrom_placed ..).2 a h

theorem start_of_head?_lexemes (h : (lexemes text).head? = some a) : a.span.start = 0 := by
  obtain ⟨rest, hrest⟩ := List.head?_eq_some_iff.mp h
  have hplaced := placed_lexemes text
  rw [hrest] at hplaced
  exact hplaced.1

theorem lexemes_pairwise (text : List Char) :
    (lexemes text).Pairwise fun a b => a.span.stop ≤ b.span.start := by
  have h := consecutiveSpans_pairwise 0 ((lexemes text).map Lexeme.text)
  rwa [(placed_lexemes text).consecutiveSpans_eq, List.pairwise_map] at h

/-- Where a lexeme stands in its text. -/
theorem exists_of_mem_lexemes (h : a ∈ lexemes text) : ∃ front back,
    text = front ++ (a.text ++ back) ∧ a.span.start = byteSize front := by
  obtain ⟨front, back, hsplit⟩ := List.append_of_mem h
  have htext := lexemes_texts text
  have hplaced := placed_lexemes text
  rw [hsplit, placed_append] at hplaced
  rw [hsplit] at htext
  refine ⟨joinTexts front, joinTexts back, ?_, ?_⟩
  · rw [← htext]
    simp [joinTexts]
  · rw [← Nat.zero_add (byteSize _)]
    exact hplaced.2.1

/-- The text between the ends of the span of a lexeme is that of the lexeme. -/
theorem slice_span (h : a ∈ lexemes text) : slice a.span.start a.span.stop text = a.text := by
  obtain ⟨front, back, htext, hstart⟩ := exists_of_mem_lexemes h
  have hstop : a.span.stop = byteSize front + byteSize a.text := by
    rw [← hstart]
    rfl
  rw [hstart, hstop, htext, slice_append]

/-- A cursor is at a lexeme of every text that is not empty. -/
theorem exists_lexemeAt (hne : text ≠ []) (hoffset : offset ≤ byteSize text) :
    ∃ lexeme, LexemeAt text offset lexeme := by
  rcases Nat.eq_zero_or_pos offset with rfl | hpos
  · cases hlexemes : lexemes text with
    | nil =>
      have htext := lexemes_texts text
      rw [hlexemes] at htext
      exact absurd htext.symm hne
    | cons first rest =>
      exact ⟨first, by rw [hlexemes]; exact List.mem_cons_self .., Or.inr ⟨rfl, by rw [hlexemes]; rfl⟩,
        Nat.zero_le _⟩
  · obtain ⟨span, hmem, hlow, hhigh⟩ := @exists_consecutiveSpan 0 ((lexemes text).map Lexeme.text)
      offset hpos (by rw [lexemes_texts]; omega)
    rw [(placed_lexemes text).consecutiveSpans_eq] at hmem
    obtain ⟨lexeme, hlexeme, rfl⟩ := List.mem_map.mp hmem
    exact ⟨lexeme, hlexeme, Or.inl hlow, hhigh⟩

/-- Of two members of an ordered list one stands in front of the other, unless they are the same. -/
theorem eq_or_rel_of_pairwise {α : Type} {R : α → α → Prop} {l : List α} (h : l.Pairwise R) {a b : α}
    (ha : a ∈ l) (hb : b ∈ l) : a = b ∨ R a b ∨ R b a := by
  have hforth : l.Pairwise fun a b => a = b ∨ R a b ∨ R b a :=
    h.imp fun hab => Or.inr (Or.inl hab)
  have hback : l.Pairwise (flip fun a b => a = b ∨ R a b ∨ R b a) :=
    h.imp fun hab => Or.inr (Or.inr hab)
  exact List.Pairwise.forall_of_forall_of_flip (R := fun a b => a = b ∨ R a b ∨ R b a)
    (fun _ _ => Or.inl rfl) hforth hback ha hb

/-- A cursor is at one lexeme only. -/
theorem LexemeAt.unique (ha : LexemeAt text offset a) (hb : LexemeAt text offset b) : a = b := by
  rcases ha.start with hlowA | ⟨rfl, hheadA⟩
  · rcases hb.start with hlowB | ⟨rfl, -⟩
    · have := ha.stop
      have := hb.stop
      rcases eq_or_rel_of_pairwise (lexemes_pairwise text) ha.mem hb.mem with heq | horder | horder
      · exact heq
      · omega
      · omega
    · omega
  · rcases hb.start with hlowB | ⟨-, hheadB⟩
    · omega
    · exact Option.some.inj (hheadA.symm.trans hheadB)

/-- **The span that is chosen for a cursor** is that of the lexeme it is at, as long as no lexeme up to
there is missing among the tokens that reading the text has kept. -/
theorem LexemeAt.chooseSpan_eq (h : LexemeAt text offset a) {front back : List Lexeme}
    (hsplit : lexemes text = front ++ back) (hmem : a ∈ front) {others : List (List Char)}
    (htexts : (readDocument text).texts = front.map Lexeme.text ++ others) :
    chooseSpan (tokenSpans text) offset = some a.span := by
  have hplaced := placed_lexemes text
  rw [hsplit, placed_append] at hplaced
  have hproper : ∀ lexeme ∈ front, (!lexeme.span.isEmpty) = true := by
    intro lexeme hlexeme
    have := byteSize_pos (@text_ne_nil_of_mem_lexemes text lexeme (by rw [hsplit]; simp [hlexeme]))
    simp only [Span.isEmpty, Lexeme.span, Bool.not_eq_true', beq_eq_false_iff_ne]
    omega
  have hspans : ∃ more, tokenSpans text = front.map Lexeme.span ++ more := by
    rw [tokenSpans, htexts, consecutiveSpans_append, hplaced.1.consecutiveSpans_eq, List.filter_append,
      List.filter_eq_self.mpr (by simpa using hproper)]
    exact ⟨_, rfl⟩
  obtain ⟨more, hspans⟩ := hspans
  have horder : (tokenSpans text).Pairwise fun a b => a.stop ≤ b.start :=
    (consecutiveSpans_pairwise 0 _).filter _
  obtain ⟨before, after, rfl⟩ := List.append_of_mem hmem
  rw [List.map_append, List.map_cons, List.append_assoc, List.cons_append] at hspans
  rw [hspans] at horder ⊢
  rcases h.start with hlow | ⟨rfl, hhead⟩
  · -- the spans in front end where the lexeme begins or before
    have hnone : (before.map Lexeme.span).find?
        (fun span => span.start < offset && offset ≤ span.stop) = none := by
      apply List.find?_eq_none.mpr
      intro span hspan
      have := (List.pairwise_append.mp horder).2.2 span hspan a.span (List.mem_cons_self ..)
      simp only [Bool.and_eq_true, decide_eq_true_eq]
      omega
    rw [chooseSpan, List.find?_append, hnone, List.find?_cons_of_pos]
    · rfl
    · simp [hlow, h.stop]
  · -- nothing ends in front of the text, and the first lexeme begins there
    have hfirst : ∃ rest, before.map Lexeme.span ++ a.span :: (after.map Lexeme.span ++ more) =
        a.span :: rest := by
      cases before with
      | nil => exact ⟨_, rfl⟩
      | cons first before =>
        rw [hsplit] at hhead
        obtain rfl : first = a := Option.some.inj hhead
        exact ⟨_, rfl⟩
    obtain ⟨rest, hrest⟩ := hfirst
    have hnone : (a.span :: rest).find? (fun span => span.start < 0 && 0 ≤ span.stop) = none :=
      List.find?_eq_none.mpr (by simp)
    have hstart := start_of_head?_lexemes hhead
    rw [hrest, chooseSpan, hnone, List.find?_cons_of_pos]
    · rfl
    · simp [hstart]

end Lexemes

/-- **What is looked up for a cursor is the part on its line of the lexeme it is at**, as long as no
lexeme up to there is missing among the tokens that reading the text has kept. -/
theorem LexemeAt.exists_bounds {text : String} {before after : List Line} {line : Line}
    (hline : splitLines text.toList = before ++ line :: after) (column : Nat) {offset : Nat}
    (hoffset : offset = byteSize (before.flatMap Line.chars ++ line.content.take column))
    {lexeme : Lexeme} (h : LexemeAt text.toList offset lexeme) {front back : List Lexeme}
    (hsplit : lexemes text.toList = front ++ back) (hmem : lexeme ∈ front) {others : List (List Char)}
    (htexts : (readDocument text.toList).texts = front.map Lexeme.text ++ others) :
    ∃ bounds, syntaxTokenizer text ⟨before.length, column⟩ = some bounds ∧
      (LineIndex.ofText text).offset? ⟨before.length, bounds.start⟩ =
        some (max lexeme.span.start (byteSize (before.flatMap Line.chars))) ∧
      (LineIndex.ofText text).offset? ⟨before.length, bounds.stop⟩ =
        some (min lexeme.span.stop (byteSize (before.flatMap Line.chars ++ line.content))) ∧
      tokenSpanAt syntaxTokenizer text ⟨before.length, column⟩ =
        .ok ⟨max lexeme.span.start (byteSize (before.flatMap Line.chars)),
          min lexeme.span.stop (byteSize (before.flatMap Line.chars ++ line.content))⟩ := by
  have hbounds := exists_bounds_of_chooseSpan hline column hoffset (h.chooseSpan_eq hsplit hmem htexts)
  -- a lexeme begins and ends between two characters
  obtain ⟨pre, suf, htext, hstart⟩ := exists_of_mem_lexemes h.mem
  have hsnapStart : snap lexeme.span.start text.toList = lexeme.span.start := by
    rw [hstart]
    exact snap_of_prefix ⟨_, htext.symm⟩
  have hsnapStop : snap lexeme.span.stop text.toList = lexeme.span.stop := by
    have hstop : lexeme.span.stop = byteSize (pre ++ lexeme.text) := by
      rw [byteSize_append, ← hstart]
      rfl
    rw [hstop]
    exact snap_of_prefix ⟨suf, by rw [htext, List.append_assoc]⟩
  rwa [hsnapStart, hsnapStop] at hbounds

/-! ## The token under the cursor -/

section Cursor
variable {document : Document} {text : String} {spans : List Span}

/-- In a document that parses, what is looked up is the token that the cursor touches, cut to its
line. -/
theorem Document.LaidOut.exists_tokenSpanAt (h : document.LaidOut text spans)
    (hne : text.toList ≠ []) {before after : List Line} {line : Line}
    (hline : splitLines text.toList = before ++ line :: after) (column : Nat) {offset : Nat}
    (hoffset : offset = byteSize (before.flatMap Line.chars ++ line.content.take column)) :
    ∃ token ∈ consecutiveSpans 0 ((markedLexemes text.toList).map Lexeme.text),
      token.start < token.stop ∧
        ((token.start < offset ∧ offset ≤ token.stop) ∨ (token.start = 0 ∧ offset = 0)) ∧
        tokenSpanAt syntaxTokenizer text ⟨before.length, column⟩ =
          .ok ⟨max token.start (byteSize (before.flatMap Line.chars)),
            min token.stop (byteSize (before.flatMap Line.chars ++ line.content))⟩ := by
  have hplace : IsBoundary offset text.toList := hoffset ▸ LineIndex.isBoundary_upTo hline column
  obtain ⟨lexeme, hat⟩ := exists_lexemeAt hne hplace.le_byteSize
  obtain ⟨-, -, -, -, hspan⟩ := hat.exists_bounds hline column hoffset (List.append_nil _).symm hat.mem
    (h.texts.trans (List.map_append ..))
  have hproper := byteSize_pos (text_ne_nil_of_mem_lexemes hat.mem)
  refine ⟨lexeme.span, ?_, ?_, ?_, hspan⟩
  · rw [markedLexemes, List.map_append, consecutiveSpans_append,
      (placed_lexemes text.toList).consecutiveSpans_eq]
    exact List.mem_append_left _ (List.mem_map_of_mem hat.mem)
  · simp only [Lexeme.span]
    omega
  · rcases hat.start with hlow | ⟨hzero, hhead⟩
    · exact Or.inl ⟨hlow, hat.stop⟩
    · exact Or.inr ⟨start_of_head?_lexemes hhead, hzero⟩

end Cursor

end QueryLocator
