/-! # Outcomes of steps that may fail

What it says about the steps of a computation that the whole of it gave a result, or failed.
-/
namespace QueryLocator

variable {ε ε' α β : Type} {outcome : Except ε α}

theorem mapError_eq_ok_iff {f : ε → ε'} {value : α} :
    outcome.mapError f = .ok value ↔ outcome = .ok value := by
  cases outcome with
  | error cause => exact ⟨nofun, nofun⟩
  | ok found => exact ⟨fun h => congrArg _ (Except.ok.inj h), fun h => congrArg _ (Except.ok.inj h)⟩

theorem mapError_eq_error_iff {f : ε → ε'} {failure : ε'} :
    outcome.mapError f = .error failure ↔ ∃ cause, outcome = .error cause ∧ f cause = failure := by
  cases outcome with
  | error cause =>
    constructor
    · intro h
      exact ⟨cause, rfl, Except.error.inj h⟩
    · rintro ⟨found, hfound, rfl⟩
      obtain rfl := Except.error.inj hfound
      rfl
  | ok found =>
    constructor
    · nofun
    · rintro ⟨_, hcause, -⟩
      cases hcause

theorem map_eq_ok_iff {f : α → β} {value : β} :
    outcome.map f = .ok value ↔ ∃ found, outcome = .ok found ∧ f found = value := by
  cases outcome <;> simp [Except.map]

theorem bind_eq_ok_iff {f : α → Except ε β} {value : β} :
    outcome.bind f = .ok value ↔ ∃ found, outcome = .ok found ∧ f found = .ok value := by
  cases outcome <;> simp [Except.bind]

theorem bind_eq_error_iff {f : α → Except ε β} {failure : ε} :
    outcome.bind f = .error failure ↔
      outcome = .error failure ∨ ∃ found, outcome = .ok found ∧ f found = .error failure := by
  cases outcome <;> simp [Except.bind]

theorem toOption_eq_some_iff {value : α} : outcome.toOption = some value ↔ outcome = .ok value := by
  cases outcome <;> simp [Except.toOption]

theorem toOption_map {f : α → β} : (outcome.map f).toOption = outcome.toOption.map f := by
  cases outcome <;> rfl

end QueryLocator
