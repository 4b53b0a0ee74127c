/-!
# Computations under observation

A computation on a state can be watched: notes are taken beside the state as it
goes on.  The notes have no influence.  A watched computation *retraces* a plain
one if, without the notes, it comes to the same end in the same state.
-/

namespace LoxLang

/-- A state with the notes that have been taken. -/
structure Watched (σ γ : Type) where
  state : σ
  notes : γ

namespace Watched

variable {ε σ γ α β : Type}

/-- Do what a plain computation does, and take no notes. -/
def lift (part : EStateM ε σ α) : EStateM ε (Watched σ γ) α := fun watched =>
  match part watched.state with
  | .ok result state => .ok result ⟨state, watched.notes⟩
  | .error stop state => .error stop ⟨state, watched.notes⟩

/-- Take notes of the state. -/
def note (update : σ → γ → γ) : EStateM ε (Watched σ γ) Unit := fun watched =>
  .ok () ⟨watched.state, update watched.state watched.notes⟩

/-- Look something up in the notes. -/
def consult (view : γ → α) : EStateM ε (Watched σ γ) α := fun watched =>
  .ok (view watched.notes) watched

/-- An end without the notes. -/
def unwatched : EStateM.Result ε (Watched σ γ) α → EStateM.Result ε σ α
  | .ok result watched => .ok result watched.state
  | .error stop watched => .error stop watched.state

/-- Without the notes, the watched computation is the plain one. -/
def Retraces (watched : EStateM ε (Watched σ γ) α) (plain : EStateM ε σ α) : Prop :=
  ∀ start, unwatched (watched start) = plain start.state

namespace Retraces

theorem lift (plain : EStateM ε σ α) : Retraces (γ := γ) (Watched.lift plain) plain := by
  intro start
  unfold Watched.lift
  cases plain start.state <;> rfl

theorem pure (result : α) :
    Retraces (Pure.pure result : EStateM ε (Watched σ γ) α) (Pure.pure result) := by
  intro start
  rfl

theorem throw (stop : ε) :
    Retraces (throw stop : EStateM ε (Watched σ γ) α) (MonadExcept.throw stop) := by
  intro start
  rfl

theorem bind {first : EStateM ε (Watched σ γ) α} {plainFirst : EStateM ε σ α}
    {next : α → EStateM ε (Watched σ γ) β} {plainNext : α → EStateM ε σ β}
    (firstRetraces : Retraces first plainFirst)
    (nextRetraces : ∀ result, Retraces (next result) (plainNext result)) :
    Retraces (first >>= next) (plainFirst >>= plainNext) := by
  intro start
  have same := firstRetraces start
  cases outcome : first start with
  | ok result after =>
      rw [outcome] at same
      have firstEq : plainFirst start.state = .ok result after.state := same.symm
      show unwatched ((first >>= next) start) = (plainFirst >>= plainNext) start.state
      simp only [Bind.bind, EStateM.bind, outcome, firstEq]
      exact nextRetraces result after
  | error stop after =>
      rw [outcome] at same
      have firstEq : plainFirst start.state = .error stop after.state := same.symm
      show unwatched ((first >>= next) start) = (plainFirst >>= plainNext) start.state
      simp only [Bind.bind, EStateM.bind, outcome, firstEq]
      rfl

theorem noteThen {update : σ → γ → γ} {next : EStateM ε (Watched σ γ) α} {plain : EStateM ε σ α}
    (nextRetraces : Retraces next plain) : Retraces (note update >>= fun _ => next) plain := by
  intro start
  exact nextRetraces ⟨start.state, update start.state start.notes⟩

/-- The notes may be consulted first. -/
theorem consultThen {view : γ → α} {next : α → EStateM ε (Watched σ γ) β} {plain : EStateM ε σ β}
    (nextRetraces : ∀ consulted, Retraces (next consulted) plain) :
    Retraces (consult view >>= next) plain := by
  intro start
  exact nextRetraces (view start.notes) start

theorem ite {condition : Prop} [Decidable condition] {first second : EStateM ε (Watched σ γ) α}
    {plainFirst plainSecond : EStateM ε σ α} (firstRetraces : Retraces first plainFirst)
    (secondRetraces : Retraces second plainSecond) :
    Retraces (if condition then first else second)
      (if condition then plainFirst else plainSecond) := by
  split
  · exact firstRetraces
  · exact secondRetraces

theorem whenThen {condition : Prop} [Decidable condition] {first : EStateM ε (Watched σ γ) Unit}
    {plainFirst : EStateM ε σ Unit} {next : Unit → EStateM ε (Watched σ γ) α}
    {plainNext : Unit → EStateM ε σ α} (firstRetraces : Retraces first plainFirst)
    (nextRetraces : Retraces (next ()) (plainNext ())) :
    Retraces (if condition then first >>= next else next ())
      (if condition then plainFirst >>= plainNext else plainNext ()) := by
  split
  · exact bind firstRetraces fun _ => nextRetraces
  · exact nextRetraces

/-- A plain end is the end of the watched computation. -/
theorem of_ok {watched : EStateM ε (Watched σ γ) α} {plain : EStateM ε σ α}
    (retraces : Retraces watched plain) {start : Watched σ γ} {result : α} {after : σ}
    (ends : plain start.state = .ok result after) :
    ∃ notes, watched start = .ok result ⟨after, notes⟩ := by
  have same := retraces start
  rw [ends] at same
  cases outcome : watched start with
  | ok found finish =>
      rw [outcome] at same
      cases same
      exact ⟨finish.notes, rfl⟩
  | error stop finish =>
      rw [outcome] at same
      cases same

end Retraces

end Watched

end LoxLang
