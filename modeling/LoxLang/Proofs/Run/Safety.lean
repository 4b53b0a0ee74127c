import LoxLang.Proofs.Run.Steps

/-!
# Safe parts of a run

The rules by which it is shown that parts of a run are safe: for sequences, for
parts inside a frame, and for the steps from which they are made.
-/

namespace LoxLang.Watching

open Watched (lift note consult)

variable {α β : Type} {survey : Survey} {world : World}

/-- The part leads to a sound world that follows, where its result is as it should be, or else it
stops, but not with a defect. -/
def Safe (survey : Survey) (world : World) (part : Watching α) (post : α → World → Prop) : Prop :=
  match part world.watched with
  | .ok result after => ∃ later, later.watched = after ∧ world.Leads survey later ∧
      post result later
  | .error stop after => (∀ defect, stop ≠ .defect defect) ∧
      ∃ later, later.watched = after ∧ world.Leads survey later

namespace Safe

variable {part : Watching α} {post : α → World → Prop}

theorem stay (sound : world.Sound survey) : world.Leads survey world :=
  ⟨.refl _, sound, rfl⟩

theorem pure (sound : world.Sound survey) {result : α} (holds : post result world) :
    Safe survey world (Pure.pure result) post :=
  ⟨world, rfl, stay sound, holds⟩

/-- Stopping for any other reason than a defect. -/
theorem throw (sound : world.Sound survey) {stop : Stop}
    (harmless : ∀ defect, stop ≠ .defect defect) :
    Safe survey world (throw stop) post :=
  ⟨harmless, world, rfl, stay sound⟩

theorem fault (sound : world.Sound survey) {about : Token} {fault : Fault} :
    Safe survey world (lift (Run.fault about fault)) post :=
  ⟨nofun, world, rfl, stay sound⟩

theorem ok (later : World) {result : α} (outcome : part world.watched = .ok result later.watched)
    (leads : world.Leads survey later) (holds : post result later) :
    Safe survey world part post := by
  unfold Safe
  rw [outcome]
  exact ⟨later, rfl, leads, holds⟩

theorem mono {weaker : α → World → Prop} (safe : Safe survey world part post)
    (implies : ∀ result later, world.Leads survey later → post result later →
      weaker result later) : Safe survey world part weaker := by
  unfold Safe at safe ⊢
  cases outcome : part world.watched with
  | ok result after =>
      rw [outcome] at safe
      obtain ⟨later, same, leads, holds⟩ := safe
      exact ⟨later, same, leads, implies result later leads holds⟩
  | error stop after =>
      rw [outcome] at safe
      exact safe

theorem bind {next : α → Watching β} {final : β → World → Prop}
    (safe : Safe survey world part post)
    (nextSafe : ∀ result later, world.Leads survey later → post result later →
      Safe survey later (next result) final) : Safe survey world (part >>= next) final := by
  unfold Safe at safe ⊢
  show match (EStateM.bind part next) world.watched with
    | .ok result after => _
    | .error stop after => _
  unfold EStateM.bind
  cases outcome : part world.watched with
  | ok result after =>
      rw [outcome] at safe
      obtain ⟨later, same, leads, holds⟩ := safe
      have continued := nextSafe result later leads holds
      unfold Safe at continued
      subst same
      dsimp only
      cases ended : next result later.watched with
      | ok value last =>
          rw [ended] at continued
          obtain ⟨final, sameFinal, finalLeads, finalHolds⟩ := continued
          exact ⟨final, sameFinal, leads.trans finalLeads, finalHolds⟩
      | error stop last =>
          rw [ended] at continued
          obtain ⟨harmless, final, sameFinal, finalLeads⟩ := continued
          exact ⟨harmless, final, sameFinal, leads.trans finalLeads⟩
  | error stop after =>
      rw [outcome] at safe
      exact safe

theorem ite {condition : Prop} [Decidable condition] {other : Watching α}
    (safe : condition → Safe survey world part post)
    (otherSafe : ¬condition → Safe survey world other post) :
    Safe survey world (if condition then part else other) post := by
  split
  · rename_i holds
    exact safe holds
  · rename_i fails
    exact otherSafe fails

theorem catchOverflow {about : Token} (safe : Safe survey world part post) :
    Safe survey world (catchOverflow about part) post := by
  unfold Safe at safe ⊢
  unfold Watching.catchOverflow
  cases outcome : part world.watched with
  | ok result after =>
      rw [outcome] at safe
      exact safe
  | error stop after =>
      rw [outcome] at safe
      obtain ⟨harmless, later, same, leads⟩ := safe
      cases stop with
      | overflow => exact ⟨nofun, later, same, leads⟩
      | defect defect => exact absurd rfl (harmless defect)
      | error error => exact ⟨nofun, later, same, leads⟩
      | outOfPatience => exact ⟨nofun, later, same, leads⟩

end Safe

end LoxLang.Watching

namespace LoxLang

variable {survey : Survey} {world : World}

namespace World

/-- The world in which the machine is in another frame. -/
def enter (world : World) (frame : FrameId) : World :=
  world.withMachine { world.machine with current := frame }

theorem Follows.enter (frame : FrameId) : world.Follows (world.enter frame) :=
  follows_of_forest rfl rfl

/-- In which frame the machine is does not matter for soundness. -/
theorem Sound.enter (sound : world.Sound survey) (frame : FrameId) :
    (world.enter frame).Sound survey where
  toSettled := sound.toSettled.keep (.enter frame) rfl fun _ => rfl
  backed := sound.backed

end World

namespace Watching

open Watched (lift note consult)

variable {α β : Type}

/-- A part that is safe inside a frame is safe, and the machine comes back. -/
theorem Safe.inFrame {frame : FrameId} {part : Watching α} {post : α → World → Prop}
    (safe : Safe survey (world.enter frame) part post)
    (kept : ∀ result later, post result later → post result (later.enter world.machine.current)) :
    Safe survey world (inFrame frame part) post := by
  unfold Safe at safe ⊢
  unfold Watching.inFrame
  have entered : (world.enter frame).watched =
      ⟨{ world.watched.state with current := frame }, world.watched.notes⟩ := rfl
  rw [entered] at safe
  have back {later : World} (leads : (world.enter frame).Leads survey later) :
      world.Leads survey (later.enter world.machine.current) :=
    ⟨((World.Follows.enter frame).trans leads.follows).trans (World.Follows.enter _),
      leads.sound.enter _, rfl⟩
  cases outcome : part ⟨{ world.watched.state with current := frame }, world.watched.notes⟩ with
  | ok result after =>
      rw [outcome] at safe
      obtain ⟨later, same, leads, holds⟩ := safe
      subst same
      exact ⟨later.enter world.machine.current, rfl, back leads, kept _ _ holds⟩
  | error stop after =>
      rw [outcome] at safe
      obtain ⟨harmless, later, same, leads⟩ := safe
      subst same
      exact ⟨harmless, later.enter world.machine.current, rfl, back leads⟩

end Watching

end LoxLang
