/-!
# Computations on a state

A sequence of two computations that may stop comes to an end in one of two ways:
its first part stops, or its second part comes to that end.
-/

namespace LoxLang

variable {ε σ α β : Type}

/-- A sequence goes on where its first part has come to. -/
theorem bind_of_ok {first : EStateM ε σ α} {next : α → EStateM ε σ β} {start middle : σ} {value : α}
    (ends : first start = .ok value middle) : (first >>= next) start = next value middle := by
  show EStateM.bind first next start = _
  unfold EStateM.bind
  rw [ends]

theorem bind_of_error {first : EStateM ε σ α} {next : α → EStateM ε σ β} {start after : σ}
    {stop : ε} (stops : first start = .error stop after) :
    (first >>= next) start = .error stop after := by
  show EStateM.bind first next start = _
  unfold EStateM.bind
  rw [stops]

theorem bind_eq_ok {first : EStateM ε σ α} {next : α → EStateM ε σ β} {start after : σ}
    {result : β} :
    (first >>= next) start = .ok result after ↔
      ∃ value middle, first start = .ok value middle ∧ next value middle = .ok result after := by
  change EStateM.bind first next start = .ok result after ↔ _
  unfold EStateM.bind
  cases firstResult : first start with
  | ok value middle =>
      constructor
      · intro succeeded
        exact ⟨value, middle, rfl, succeeded⟩
      · rintro ⟨_, _, same, succeeded⟩
        cases same
        exact succeeded
  | error halt middle =>
      constructor
      · intro succeeded
        cases succeeded
      · rintro ⟨_, _, same, _⟩
        cases same

/-- A sequence halts in its first step or in the steps after it. -/
theorem bind_eq_error {first : EStateM ε σ α} {next : α → EStateM ε σ β} {start after : σ}
    {halt : ε} :
    (first >>= next) start = .error halt after ↔
      first start = .error halt after ∨
        ∃ value middle, first start = .ok value middle ∧
          next value middle = .error halt after := by
  change EStateM.bind first next start = .error halt after ↔ _
  unfold EStateM.bind
  cases firstResult : first start with
  | ok value middle =>
      constructor
      · intro halted
        exact .inr ⟨value, middle, rfl, halted⟩
      · rintro (halted | ⟨_, _, same, halted⟩)
        · cases halted
        · cases same
          exact halted
  | error earlier middle =>
      constructor
      · intro halted
        exact .inl (by simpa using halted)
      · rintro (halted | ⟨_, _, same, _⟩)
        · simpa using halted
        · cases same

/-- What a computation comes to, if it does not stop. -/
def outcome? (part : EStateM ε σ α) (start : σ) : Option (α × σ) :=
  match part start with
  | .ok result after => some (result, after)
  | .error _ _ => none

theorem outcome?_eq_some {part : EStateM ε σ α} {start after : σ} {result : α} :
    outcome? part start = some (result, after) ↔ part start = .ok result after := by
  unfold outcome?
  split <;> rename_i ends <;> simp [ends]

end LoxLang
