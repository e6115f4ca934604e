import Mathlib.Data.List.Forall2
import QueryLocator.Proofs.DocumentReading
import QueryLocator.Proofs.LineEndings

/-! # Tokens of a text with one kind of terminator

Unifying the terminators of a text unifies them in each of its tokens and changes nothing else: every
token keeps its form (`TokenForm.unify`), so the lexemes of the two texts correspond one to one
(`markedLexemes_counterparts`).

A string on one line may begin with a terminator, and a block string may hold any number.  White space
reaches over both halves of a terminator.  No other token holds one.
-/
namespace QueryLocator.Syntax

open Text

/-! ## Forms -/

theorem sameStart_unifyTerminators (text : List Char) : SameStart text (unifyTerminators text) := by
  cases text with
  | nil => exact .nil
  | cons c rest =>
    cases hc : endsLine c with
    | true =>
      obtain ⟨behind, hbehind⟩ := exists_unifyTerminators_of_endsLine hc rest
      rw [hbehind]
      exact .lineEnd _ _ hc rfl
    | false =>
      have hne : c ≠ '\r' := by
        rintro rfl
        exact absurd hc (by decide)
      rw [unifyTerminators_of_ne rest hne]
      exact .same ..

/-- What is said of the first character of a text, and makes no difference between terminators, holds
of texts that begin in the same way. -/
theorem SameStart.head {a b : List Char} (h : SameStart a b) {p : Char → Prop}
    (hp : ∀ c d, endsLine c = true → endsLine d = true → p c → p d)
    (ha : ∀ c, a.head? = some c → p c) : ∀ c, b.head? = some c → p c := by
  cases h with
  | nil => simp
  | same c a b =>
    rintro d ⟨⟩
    exact ha c rfl
  | lineEnd a b hc hd =>
    rintro d ⟨⟩
    exact hp _ _ hc hd (ha _ rfl)

/-- A block string is read through a terminator to the same state whichever it is. -/
theorem BlockState.run_unifyTerminators (state : BlockState) (body : List Char) :
    state.run (unifyTerminators body) = state.run body := by
  fun_induction unifyTerminators body generalizing state with
  | case1 => rfl
  | case2 rest ih =>
    simp only [run_cons, step_lineEnd (show endsLine '\n' = true from rfl),
      step_lineEnd (show endsLine '\r' = true from rfl), Option.bind_some, ih]
  | case3 c rest _ ih =>
    by_cases hc : c = '\r'
    · subst hc
      simp only [if_true, run_cons, step_lineEnd (show endsLine '\n' = true from rfl),
        step_lineEnd (show endsLine '\r' = true from rfl), Option.bind_some, ih]
    · simp only [if_neg hc, run_cons, ih]

theorem StringForm.unify {body tail : List Char} (h : StringForm body tail) :
    StringForm (unifyTerminators body) (unifyTerminators tail) := by
  cases h with
  | empty htail =>
    refine .empty ?_
    intro hhead
    refine (sameStart_unifyTerminators tail).head (p := (· ≠ '"')) ?_ ?_ '"' hhead rfl
    · rintro _ _ _ hd - rfl
      exact absurd hd (by decide)
    · rintro c hc rfl
      exact htail hc
  | @block body _ last hbody hlast =>
    have hcut : CleanCut body ['"'] := fun _ hhead => absurd hhead (by decide)
    rw [unifyTerminators_of_ne _ (by decide), unifyTerminators_of_ne _ (by decide),
      unifyTerminators_append hcut]
    refine .block ?_ hlast
    rw [BlockState.run_unifyTerminators, hbody]
  | @escaped body _ hbody hread =>
    have hline : ∀ c ∈ '\\' :: (body ++ ['"']), endsLine c = false := by
      simp only [List.mem_cons, List.mem_append, List.not_mem_nil, or_false]
      rintro c (rfl | hc | rfl)
      · decide
      · exact hbody c hc
      · decide
    rw [unifyTerminators_of_content hline]
    exact .escaped hbody hread
  | @plain c body _ hquote hslash hbody hread =>
    -- only the first character of the body can be a terminator
    have hline : ∀ c ∈ body ++ ['"'], endsLine c = false := by
      simp only [List.mem_append, List.mem_cons, List.not_mem_nil, or_false]
      rintro c (hc | rfl)
      · exact hbody c hc
      · decide
    have hhead : c = '\r' → (body ++ ['"']).head? ≠ some '\n' := by
      intro _ hhead
      exact absurd (hline '\n' (List.mem_of_head? hhead)) (by decide)
    rw [unifyTerminators_cons hhead, unifyTerminators_of_content hline]
    split
    · exact .plain (by decide) (by decide) hbody hread
    · exact .plain hquote hslash hbody hread

/-- **Every token keeps its form.** -/
theorem TokenForm.unify {kind : TokenKind} {text tail : List Char} (h : TokenForm kind text tail) :
    TokenForm kind (unifyTerminators text) (unifyTerminators tail) := by
  have hstart := sameStart_unifyTerminators tail
  have hsame (hspace : kind ≠ .whitespace) (hstring : kind ≠ .string) : unifyTerminators text = text :=
    unifyTerminators_of_content (h.endsLine_of_mem hspace hstring)
  cases h with
  | @whitespace c body _ hspace htail =>
    obtain ⟨d, rest, hunified⟩ :=
      List.exists_cons_of_ne_nil (mt unifyTerminators_eq_nil.mp (List.cons_ne_nil c body))
    rw [hunified]
    refine .whitespace ?_ ?_
    · intro e he
      rw [← hunified] at he
      rcases mem_of_mem_unifyTerminators he with he | ⟨rfl, -⟩
      · exact hspace e he
      · decide
    · refine hstart.head (p := fun e => isSpace e = false) ?_ htail
      intro c d hc _ hnospace
      rcases endsLine_iff.mp hc with rfl | rfl <;> exact absurd hnospace (by decide)
  | comment hbody htail =>
    rw [hsame (by simp) (by simp)]
    exact .comment hbody (hstart.head (fun _ _ _ hd _ => hd) htail)
  | name hfirst hbody htail =>
    rw [hsame (by simp) (by simp)]
    refine .name hfirst hbody (hstart.head (fun _ d _ hd _ => ?_) htail)
    rcases endsLine_iff.mp hd with rfl | rfl <;> decide
  | string hbody =>
    rw [unifyTerminators_of_ne _ (by decide)]
    exact .string hbody.unify
  | spread =>
    rw [hsame (by simp) (by simp)]
    exact .spread
  | number hfirst hread =>
    have hkind := NumberState.kind_of_read hread
    rw [hsame (by rintro rfl; simp at hkind) (by rintro rfl; simp at hkind)]
    obtain ⟨body, tail, hsplit, hlength, -, hagain⟩ := NumberState.exists_of_read hread
    rw [Nat.zero_add] at hlength
    obtain ⟨rfl, rfl⟩ := List.append_inj hsplit hlength
    exact .number hfirst (hagain _ hstart)
  | punctuator hmark =>
    obtain ⟨-, -, hspace, hstring, -⟩ := of_punctuator? hmark
    rw [hsame hspace hstring]
    exact .punctuator hmark

/-! ## Lexemes -/

/-- A lexeme of a text and the lexeme of the unified text that stands in the same place. -/
structure Counterpart (text : List Char) (a b : Lexeme) : Prop where
  kind : a.kind = b.kind
  unified : b.text = unifyTerminators a.text
  /-- Names stay as they are. -/
  name : a.kind = .ok .name → b.text = a.text
  ignored : isIgnoredText a.text = isIgnoredText b.text
  start : SameCut text a.span.start b.span.start
  stop : SameCut text a.span.stop b.span.stop

/-- The grammar cannot tell counterparts apart. -/
theorem Counterpart.face_eq {text : List Char} {a b : Lexeme} (h : Counterpart text a b) :
    a.face = b.face := by
  rw [Lexeme.face, Lexeme.face, h.kind, h.unified, any_endsLine_unifyTerminators]
  split
  · rfl
  · rename_i hline
    rw [unifyTerminators_of_content]
    intro c hc
    exact Bool.eq_false_iff.mpr fun hends => hline (List.any_eq_true.mpr ⟨c, hc, hends⟩)

/-- **The lexemes of the unified text correspond to those of the text.** -/
theorem Lexed.exists_counterparts {text pre rest : List Char} {offset : Nat} {run : List Lexeme}
    (h : Lexed offset rest run) (htext : text = pre ++ rest) (hcut : CleanCut pre rest)
    (hoffset : offset = byteSize pre) :
    ∃ run', Lexed (byteSize (unifyTerminators pre)) (unifyTerminators rest) run' ∧
      List.Forall₂ (Counterpart text) run run' := by
  induction h generalizing pre with
  | nil => exact ⟨[], .nil _, .nil⟩
  | @cons offset kind token tail run hform _ ih =>
    -- every token is cut off cleanly, so unifying goes on behind it
    have hbehind : CleanCut (pre ++ token) tail := (cleanCut_append_iff hform.ne_nil).mpr hform.cleanCut
    have hunified : unifyTerminators (pre ++ token) = unifyTerminators pre ++ unifyTerminators token :=
      unifyTerminators_append hcut.of_append
    have htext' : text = (pre ++ token) ++ tail := by rw [htext, List.append_assoc]
    obtain ⟨run', hrun, hall⟩ := ih htext' hbehind (by rw [hoffset, byteSize_append])
    rw [hunified, byteSize_append] at hrun
    refine ⟨⟨.ok kind, unifyTerminators token, byteSize (unifyTerminators pre)⟩ :: run', ?_, ?_⟩
    · rw [unifyTerminators_append hform.cleanCut]
      exact .cons hform.unify hrun
    · refine .cons ⟨rfl, rfl, ?_, ?_, ?_, ?_⟩ hall
      · intro hname
        obtain rfl : kind = .name := Except.ok.inj hname
        exact unifyTerminators_of_content (hform.endsLine_of_mem (by simp) (by simp))
      · exact hform.isIgnoredText_eq.trans hform.unify.isIgnoredText_eq.symm
      · exact ⟨pre, token ++ tail, htext, hcut, hoffset, rfl⟩
      · refine ⟨pre ++ token, tail, htext', hbehind, ?_, ?_⟩
        · rw [byteSize_append, Lexeme.span, hoffset]
        · rw [hunified, byteSize_append, Lexeme.span]

/-- The marks of the ends of the texts correspond as well. -/
theorem markedLexemes_counterparts {text : List Char} (h : Lexed 0 text (lexemes text)) :
    List.Forall₂ (Counterpart text) (markedLexemes text) (markedLexemes (unifyTerminators text)) := by
  obtain ⟨run, hrun, hall⟩ :=
    @Lexed.exists_counterparts text [] text _ _ h rfl (cleanCut_nil_left text) rfl
  have hmark : SameCut text (byteSize text) (byteSize (unifyTerminators text)) :=
    ⟨text, [], by simp, cleanCut_nil_right text, rfl, rfl⟩
  rw [markedLexemes_eq, markedLexemes_eq, hrun.lexemes_eq]
  refine List.rel_append hall (.cons ⟨rfl, rfl, fun _ => rfl, rfl, hmark, ?_⟩ .nil)
  exact hmark

end QueryLocator.Syntax
