import QueryLocator.Proofs.Lines
import QueryLocator.Syntax.StringLiteral
import QueryLocator.Syntax.NumberLiteral

/-! # How far a literal reaches

A number or a string that is read without a fault is a stretch of the text, and reading it again
gives the same whatever follows it — for a number, whatever begins in the same way.  Neither a number
nor a string on one line holds a line terminator behind its first character; both kinds of strings
end in a quote.
-/
namespace QueryLocator.Syntax

/-- Two texts begin in the same way when both are empty, or begin with the same character, or each
begins with a character that ends a line. -/
inductive SameStart : List Char → List Char → Prop where
  | nil : SameStart [] []
  | same (c : Char) (a b : List Char) : SameStart (c :: a) (c :: b)
  | lineEnd {c d : Char} (a b : List Char) (hc : endsLine c = true) (hd : endsLine d = true) :
      SameStart (c :: a) (d :: b)

theorem endsLine_iff {c : Char} : endsLine c = true ↔ c = '\n' ∨ c = '\r' := by
  simp [endsLine]

/-! ## Numbers -/

namespace NumberState

/-- A number is not continued by the end of a line. -/
theorem endsLine_of_step {c : Char} {state next : NumberState}
    (h : state.step c = .continue next) : endsLine c = false := by
  apply Bool.eq_false_iff.mpr
  intro hc
  rcases endsLine_iff.mp hc with rfl | rfl <;> cases state <;> simp [step, isNameStart] at h

/-- What ends a number before one line terminator ends it before the other. -/
theorem step_lineEnd {c d : Char} {state : NumberState} {kind : TokenKind}
    (hc : endsLine c = true) (hd : endsLine d = true) (h : state.step c = .stop kind) :
    state.step d = .stop kind := by
  rcases endsLine_iff.mp hc with rfl | rfl <;> rcases endsLine_iff.mp hd with rfl | rfl <;>
    cases state <;> simp_all [step, isNameStart]

/-- A number that is read is an integer or a float. -/
theorem kind_of_read {state : NumberState} {further n : Nat} {text : List Char} {kind : TokenKind}
    (h : state.read further text = ⟨.ok kind, n⟩) : kind = .int ∨ kind = .float := by
  induction text generalizing state further with
  | nil =>
    cases state <;> simp_all [read, atEnd]
  | cons c rest ih =>
    rw [read] at h
    split at h
    · exact ih h
    · rename_i found hstep
      obtain ⟨rfl, -⟩ : found = kind ∧ further = n := by simpa using h
      cases state <;> simp only [step] at hstep <;> grind
    · simp at h

/-- **A number is a stretch of the text.** -/
theorem exists_of_read {state : NumberState} {further n : Nat} {text : List Char} {kind : TokenKind}
    (h : state.read further text = ⟨.ok kind, n⟩) :
    ∃ body tail, text = body ++ tail ∧ n = further + body.length ∧
      (∀ c ∈ body, endsLine c = false) ∧
      ∀ tail', SameStart tail tail' → state.read further (body ++ tail') = ⟨.ok kind, n⟩ := by
  induction text generalizing state further with
  | nil =>
    obtain ⟨-, rfl⟩ : state.atEnd = .ok kind ∧ further = n := by simpa [read] using h
    refine ⟨[], [], rfl, rfl, by simp, ?_⟩
    rintro _ ⟨⟩
    exact h
  | cons c rest ih =>
    cases hstep : state.step c with
    | «continue» next =>
      rw [read, hstep] at h
      obtain ⟨body, tail, rfl, rfl, hbody, hread⟩ := ih h
      refine ⟨c :: body, tail, rfl, by simp only [List.length_cons]; omega, ?_, ?_⟩
      · intro d hd
        rcases List.mem_cons.mp hd with rfl | hd
        · exact endsLine_of_step hstep
        · exact hbody d hd
      · intro tail' htail
        rw [List.cons_append, read, hstep]
        exact hread tail' htail
    | stop found =>
      -- the character that ends the number is left to what follows
      rw [read, hstep] at h
      refine ⟨[], c :: rest, rfl, ?_, by simp, ?_⟩
      · simp_all
      · intro tail' htail
        cases htail with
        | same => rw [List.nil_append, read, hstep]; exact h
        | lineEnd _ _ hc hd => rw [List.nil_append, read, step_lineEnd hc hd hstep]; exact h
    | fail fault =>
      rw [read, hstep] at h
      simp at h

end NumberState

/-! ## Strings on one line -/

namespace StringState

/-- The end of a line inside a string is a fault, wherever the reader stands. -/
theorem endsLine_of_step {c : Char} {state next : StringState}
    (h : state.step c = .continue next none) : endsLine c = false := by
  apply Bool.eq_false_iff.mpr
  intro hc
  rcases endsLine_iff.mp hc with rfl | rfl <;> cases state <;>
    simp [step, hexValue?] at h

/-- Only a quote closes a string. -/
theorem eq_quote_of_step {c : Char} {state : StringState} {fault : Option LexFault}
    (h : state.step c = .close fault) : c = '"' := by
  cases state <;> simp only [step, afterDigits] at h <;> grind

/-- **A string is a stretch of the text that a quote closes.** -/
theorem exists_of_read {state : StringState} {fault : Option LexFault} {further n : Nat}
    {text : List Char} {kind : TokenKind} (h : state.read fault further text = ⟨.ok kind, n⟩) :
    kind = .string ∧ fault = none ∧ ∃ body tail, text = body ++ '"' :: tail ∧
      n = further + body.length + 1 ∧ (∀ c ∈ body, endsLine c = false) ∧
      ∀ tail', state.read none further (body ++ '"' :: tail') = ⟨.ok .string, n⟩ := by
  induction text generalizing state fault further with
  | nil => simp [read] at h
  | cons c rest ih =>
    rw [read] at h
    cases hstep : state.step c with
    | «continue» next found =>
      rw [hstep] at h
      obtain ⟨rfl, hfault, body, tail, rfl, rfl, hbody, hread⟩ := ih h
      obtain ⟨rfl, rfl⟩ : found = none ∧ fault = none := by simpa using hfault
      refine ⟨rfl, rfl, c :: body, tail, rfl, by simp only [List.length_cons]; omega, ?_, ?_⟩
      · intro d hd
        rcases List.mem_cons.mp hd with rfl | hd
        · exact endsLine_of_step hstep
        · exact hbody d hd
      · intro tail'
        rw [List.cons_append, read, hstep]
        exact hread tail'
    | close found =>
      rw [hstep] at h
      obtain rfl := eq_quote_of_step hstep
      cases hfault : found.or fault with
      | some f => simp [hfault] at h
      | none =>
        obtain ⟨rfl, rfl⟩ : found = none ∧ fault = none := by simpa using hfault
        obtain ⟨rfl, rfl⟩ : TokenKind.string = kind ∧ further + 1 = n := by simpa using h
        refine ⟨rfl, rfl, [], rest, rfl, rfl, by simp, ?_⟩
        intro tail'
        rw [List.nil_append, read, hstep]
        rfl

end StringState

/-! ## Block strings -/

namespace BlockState

/-- The state behind a stretch of a block string that does not close it. -/
def run (state : BlockState) (body : List Char) : Option BlockState :=
  body.foldlM (fun state c => state.step c) state

@[simp] theorem run_nil (state : BlockState) : state.run [] = some state := rfl

@[simp] theorem run_cons (state : BlockState) (c : Char) (body : List Char) :
    state.run (c :: body) = (state.step c).bind (·.run body) := rfl

/-- The end of a line leads back among the ordinary characters from everywhere. -/
theorem step_lineEnd {c : Char} (hc : endsLine c = true) (state : BlockState) :
    state.step c = some plain := by
  rcases endsLine_iff.mp hc with rfl | rfl <;> cases state with
  | escapedQuotes left => cases left <;> simp [step]
  | _ => simp [step]

/-- Only a quote closes a block string. -/
theorem eq_quote_of_step {c : Char} {state : BlockState} (h : state.step c = none) : c = '"' := by
  cases state with
  | escapedQuotes left => cases left <;> simp only [step] at h <;> grind
  | _ =>
    simp only [step] at h
    grind

theorem read_append {state last : BlockState} {body : List Char} (hbody : state.run body = some last)
    (hlast : last.step '"' = none) (further : Nat) (tail : List Char) :
    state.read further (body ++ '"' :: tail) = ⟨.ok .string, further + body.length + 1⟩ := by
  induction body generalizing state further with
  | nil =>
    obtain rfl : state = last := by simpa using hbody
    rw [List.nil_append, read, hlast]
    rfl
  | cons c body ih =>
    rw [run_cons] at hbody
    obtain ⟨next, hstep, hrun⟩ := Option.bind_eq_some_iff.mp hbody
    rw [List.cons_append, read, hstep]
    simp only [ih hrun, List.length_cons]
    congr 1
    omega

/-- **A block string is a stretch of the text that a quote closes.** -/
theorem exists_of_read {state : BlockState} {further n : Nat} {text : List Char} {kind : TokenKind}
    (h : state.read further text = ⟨.ok kind, n⟩) :
    kind = .string ∧ ∃ body last tail, text = body ++ '"' :: tail ∧
      n = further + body.length + 1 ∧ state.run body = some last ∧ last.step '"' = none := by
  induction text generalizing state further with
  | nil => simp [read] at h
  | cons c rest ih =>
    rw [read] at h
    cases hstep : state.step c with
    | some next =>
      rw [hstep] at h
      obtain ⟨rfl, body, last, tail, rfl, rfl, hrun, hlast⟩ := ih h
      exact ⟨rfl, c :: body, last, tail, rfl, by simp only [List.length_cons]; omega,
        by simp [hstep, hrun], hlast⟩
    | none =>
      rw [hstep] at h
      obtain rfl := eq_quote_of_step hstep
      obtain ⟨rfl, rfl⟩ : TokenKind.string = kind ∧ further + 1 = n := by simpa using h
      exact ⟨rfl, [], state, rest, rfl, rfl, rfl, hstep⟩

end BlockState

end QueryLocator.Syntax
