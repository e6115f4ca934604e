import QueryLocator.Console.Invocation
import QueryLocator.Json.Reader
import QueryLocator.Proofs.Outcomes

/-! # Numbers among the arguments

The arguments of a command are read one by one into a draft, so what every setting of the draft keeps
holds of the complete one (`CommandDraft.read_invariant`).  In particular the numbers that an accepted
invocation asks for have 64 bits (`numbers_le_of_arguments`).
-/
namespace QueryLocator.Console

open Json

/-! ## Single values -/

theorem count?_le {text : String} {n : Nat} (h : count? text = some n) : n ≤ maxUnsigned := by
  unfold count? at h
  simp only [Option.ite_none_left_eq_some, Option.ite_none_right_eq_some] at h
  obtain ⟨-, hlt, hvalue⟩ := h
  rw [Option.some.inj hvalue] at hlt
  exact Nat.le_sub_one_of_lt hlt

theorem setOnce_eq_ok_iff {α : Type} {name : String} {read? : String → Option α} {old new : Option α}
    {value : String} :
    setOnce name read? old value = .ok new ↔ old = none ∧ ∃ found, read? value = some found ∧
      new = some found := by
  unfold setOnce
  cases old with
  | some => simp
  | none => cases read? value <;> simp [eq_comm]

/-! ## Drafts -/

namespace CommandDraft

/-- What setting the file and the options keeps is kept by reading arguments. -/
theorem read_invariant {P : CommandDraft → Prop}
    (hset : ∀ draft option value next, P draft → draft.set option value = .ok next → P next)
    (hfile : ∀ draft text next, P draft → draft.setFile text = .ok next → P next)
    {command : CommandName} {waiting : Option CommandOption} {draft result : CommandDraft}
    {arguments : List String} (hdraft : P draft)
    (h : read command waiting draft arguments = .ok result) : P result := by
  fun_induction read command waiting draft arguments with
  | case2 => exact Except.ok.inj h ▸ hdraft
  | case3 draft argument rest option text _ ih
  | case10 draft argument rest name option text _ _ _ ih
  | case14 draft argument rest letter attached _ _ option text _ _ ih =>
    -- an option is given its value, from the next argument or from its own
    obtain ⟨next, hnext, h⟩ := bind_eq_ok_iff.mp h
    exact ih next (hset _ _ _ _ hdraft hnext) h
  | case5 draft argument rest text _ ih =>
    obtain ⟨next, hnext, h⟩ := bind_eq_ok_iff.mp h
    exact ih next (hfile _ _ _ hdraft hnext) h
  | case6 draft argument rest =>
    -- behind two hyphens every argument is taken for the file
    induction rest generalizing draft with
    | nil => exact Except.ok.inj h ▸ hdraft
    | cons text rest ih =>
      rw [List.foldlM_cons] at h
      obtain ⟨next, hnext, h⟩ := bind_eq_ok_iff.mp h
      exact ih next (hfile _ _ _ hdraft hnext) h
  | case9 _ _ _ _ _ _ _ _ ih | case13 _ _ _ _ _ _ _ _ _ _ ih =>
    -- an option waits for its value
    exact ih hdraft h
  | case1 | case4 | case7 | case8 | case11 | case12 => cases h

/-- The numbers that have been read have 64 bits. -/
structure InRange (draft : CommandDraft) : Prop where
  line : ∀ n, draft.line = some n → n ≤ maxUnsigned
  column : ∀ n, draft.column = some n → n ≤ maxUnsigned

theorem inRange_of_set {draft next : CommandDraft} {option : CommandOption} {value : String}
    (h : draft.InRange) (hset : draft.set option value = .ok next) : next.InRange := by
  cases option with
  | line =>
    obtain ⟨line, hline, rfl⟩ := map_eq_ok_iff.mp hset
    obtain ⟨-, found, hfound, rfl⟩ := setOnce_eq_ok_iff.mp hline
    exact ⟨fun n hn => Option.some.inj hn ▸ count?_le hfound, h.column⟩
  | column =>
    obtain ⟨column, hcolumn, rfl⟩ := map_eq_ok_iff.mp hset
    obtain ⟨-, found, hfound, rfl⟩ := setOnce_eq_ok_iff.mp hcolumn
    exact ⟨h.line, fun n hn => Option.some.inj hn ▸ count?_le hfound⟩
  | format =>
    obtain ⟨format, -, rfl⟩ := map_eq_ok_iff.mp hset
    exact ⟨h.line, h.column⟩

theorem inRange_of_setFile {draft next : CommandDraft} {text : String} (h : draft.InRange)
    (hfile : draft.setFile text = .ok next) : next.InRange := by
  unfold setFile at hfile
  split at hfile
  · cases hfile
  · obtain ⟨file, -, rfl⟩ := map_eq_ok_iff.mp hfile
    exact ⟨h.line, h.column⟩

theorem eq_some_of_require {α : Type} {name : String} {part : Option α} {value : α}
    (h : require name part = .ok value) : part = some value := by
  cases part with
  | none => cases h
  | some found => exact congrArg some (Except.ok.inj h)

/-- The numbers of a complete draft are those that were read. -/
theorem numbers_of_action {command : CommandName} {draft : CommandDraft} {line column : Nat}
    (h : draft.action command = .ok (.inspect line column)) :
    draft.line = some line ∧ draft.column = some column := by
  cases command with
  | outline => cases h
  | inspect =>
    obtain ⟨foundLine, hline, h⟩ := bind_eq_ok_iff.mp h
    obtain ⟨foundColumn, hcolumn, h⟩ := bind_eq_ok_iff.mp h
    obtain ⟨rfl, rfl⟩ := Action.inspect.inj (Except.ok.inj h)
    exact ⟨eq_some_of_require hline, eq_some_of_require hcolumn⟩

end CommandDraft

/-- An invocation is completed from the arguments of its command. -/
theorem ProgramDraft.exists_complete {waiting : Option ProgramOption} {draft : ProgramDraft}
    {arguments : List String} {invocation : Invocation}
    (h : read waiting draft arguments = .ok invocation) :
    ∃ draft command rest, complete draft command rest = .ok invocation := by
  fun_induction read waiting draft arguments with
  | case3 draft argument rest option text _ ih
  | case14 draft argument rest name option text _ _ _ _ ih
  | case19 draft argument rest letter attached _ _ _ option text _ _ ih =>
    -- an option of the program is given its value
    obtain ⟨next, -, h⟩ := bind_eq_ok_iff.mp h
    exact ih next h
  | case5 | case6 =>
    -- the command
    exact ⟨_, _, _, h⟩
  | case13 _ _ _ _ _ _ _ _ _ ih | case18 _ _ _ _ _ _ _ _ _ _ _ ih => exact ih h
  | case1 | case2 | case4 | case7 | case8 | case9 | case10 | case11 | case12 | case15 | case16
  | case17 => cases h

/-- **The numbers that arguments ask for** have 64 bits. -/
theorem numbers_le_of_arguments {arguments : List String} {invocation : Invocation}
    (h : Invocation.ofArguments arguments = .ok invocation) {line column : Nat}
    (haction : invocation.action = .inspect line column) :
    line ≤ maxUnsigned ∧ column ≤ maxUnsigned := by
  obtain ⟨draft, command, rest, hcomplete⟩ := ProgramDraft.exists_complete h
  obtain ⟨details, hread, hcomplete⟩ := bind_eq_ok_iff.mp hcomplete
  obtain ⟨file, -, hcomplete⟩ := bind_eq_ok_iff.mp hcomplete
  obtain ⟨action, hdone, hcomplete⟩ := bind_eq_ok_iff.mp hcomplete
  obtain rfl := Except.ok.inj hcomplete
  obtain rfl : action = .inspect line column := haction
  have hstart : CommandDraft.InRange {} := ⟨by simp, by simp⟩
  have hrange : details.InRange :=
    CommandDraft.read_invariant (fun _ _ _ _ h hset => CommandDraft.inRange_of_set h hset)
      (fun _ _ _ h hfile => CommandDraft.inRange_of_setFile h hfile) hstart hread
  obtain ⟨hline, hcolumn⟩ := CommandDraft.numbers_of_action hdone
  exact ⟨hrange.line line hline, hrange.column column hcolumn⟩

end QueryLocator.Console
