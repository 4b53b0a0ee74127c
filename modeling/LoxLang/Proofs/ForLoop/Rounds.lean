import LoxLang.Proofs.ForLoop.Direct
import LoxLang.Proofs.ForLoop.Runs

/-!
# Running loops with `for`

The tree of a loop mirrors the loop itself.  What the tree enters for the increment is
the only frame that is not kept; it is entered anew in each round.
-/

namespace LoxLang

variable {matching : Matching} {frame place : FrameId} {kept : List Bool}

namespace ForLoop

/-- There is a scope for the loop if something runs first. -/
def scope {S : Type} (loop : ForLoop S) : List Bool :=
  if loop.initializer.isSome then [true] else []

/-- The parts of the second loop are those of the first one, which lie in a scope of their own, and
besides there is a scope around the body, which is not kept, if there is an increment. -/
structure Agrees (kept : List Bool) (loop direct : ForLoop Site) : Prop where
  initializer : Option.Rel
    (fun first twin => (Part.stmt first).Agrees (loop.scope ++ kept) (.stmt twin))
    loop.initializer direct.initializer
  condition : Option.Rel (fun e twin => (Part.expr e).Agrees (loop.scope ++ kept) (.expr twin))
    loop.condition direct.condition
  increment : Option.Rel
    (fun e twin => (Part.expr e).Agrees (false :: (loop.scope ++ kept)) (.expr twin))
    loop.increment direct.increment
  body : (Part.stmt loop.body).Agrees
    (if loop.increment.isSome then false :: (loop.scope ++ kept) else loop.scope ++ kept)
    (.stmt direct.body)

end ForLoop

namespace Run

theorem execEach_single (execute : Stmt Site → Run Completion) (s : Stmt Site) :
    execEach execute [s] = execute s := by
  unfold execEach
  calc _ = execute s >>= Pure.pure := bind_congr fun completion => by cases completion <;> rfl
    _ = execute s := bind_pure (execute s)

namespace Mirrors

/-- Loops mirror each other if their conditions and their rounds do. -/
theorem goRounds {condition : Run Value} {holds : Run Bool} {body round : Run Completion}
    (conditions : ∀ later, matching <+: later →
      Mirrors later frame place (fun _ value holds => value.isTruthy = holds) condition holds)
    (rounds : ∀ later, matching <+: later →
      Mirrors later frame place Completion.Mirrored body round) (patience : Nat) :
    Mirrors matching frame place Completion.Mirrored (Run.iterate condition body patience)
      (Run.goRounds holds round patience) := by
  induction patience generalizing matching with
  | zero => exact throw .outOfPatience
  | succ patience induction =>
      apply bind (conditions matching (List.prefix_refl _))
      rintro later value _ grows rfl
      split
      · apply bind (rounds later grows)
        intro last completion completionTwin further same
        cases same with
        | normal =>
            have reaches := grows.trans further
            exact induction (fun reached beyond => conditions reached (reaches.trans beyond))
              fun reached beyond => rounds reached (reaches.trans beyond)
        | returned same => exact pure (.returned same)
      · exact pure .normal

theorem holds (host : Host) (room : Nat) {condition conditionTwin : Option (Expr Site)}
    (known : matching[frame]? = some ⟨place, kept⟩)
    (agree : Option.Rel (fun e twin => (Part.expr e).Agrees kept (.expr twin)) condition
      conditionTwin) :
    Mirrors matching frame place (fun _ value holds => value.isTruthy = holds)
      (eval host (room + 1) (condition.getD (.literal (.bool true))))
      (Run.holds (eval host (room + 1)) conditionTwin) := by
  cases agree with
  | none => exact pure rfl
  | @some condition conditionTwin agrees =>
      have evaluates := (runs_alike host (room + 1)).1 _ _ _ _ _ _ known agrees
      rw [Option.getD_some, ← bind_pure (eval host (room + 1) condition)]
      apply bind evaluates
      intro later value valueTwin grows related
      exact pure related.isTruthy.symm

/-- In each round the tree may enter a frame that is not kept, for the body and the increment. -/
theorem goRound (host : Host) (room : Nat) {loop direct : ForLoop Site}
    (known : matching[frame]? = some ⟨place, loop.scope ++ kept⟩)
    (agree : loop.Agrees kept direct) :
    Mirrors matching frame place Completion.Mirrored
      (exec host (room + 1) (.repeated loop.increment loop.body))
      (Run.goRound (exec host (direct.bodyRoom (room + 1)) direct.body)
        (eval host (room + 1 - 2)) direct.increment) := by
  have body := agree.body
  have increment := agree.increment
  obtain ⟨first, condition, step, inner⟩ := loop
  obtain ⟨firstTwin, conditionTwin, stepTwin, innerTwin⟩ := direct
  dsimp only at increment body
  cases increment with
  | none => exact (runs_alike host (room + 1)).2 _ _ _ _ _ _ known body
  | some step =>
      apply skipFrame known
      intro later inner grows innerKnown
      apply bind ((runs_alike host room).2 _ _ _ _ _ _ innerKnown body)
      intro last completion completionTwin further same
      cases same with
      | returned same => exact pure (.returned same)
      | normal =>
          dsimp only
          rw [execEach_single]
          cases room with
          | zero => exact throw .overflow
          | succ room =>
              apply bind ((runs_alike host room).1 _ _ _ _ _ _
                (Matching.known_later further innerKnown) step)
              exact fun _ _ _ _ _ => pure .normal

/-- All rounds, in the scope of the loop.  Without room neither side gets to the first one. -/
theorem rounds (host : Host) (room : Nat) {loop direct : ForLoop Site}
    (known : matching[frame]? = some ⟨place, loop.scope ++ kept⟩)
    (agree : loop.Agrees kept direct) :
    Mirrors matching frame place Completion.Mirrored
      (Run.iterate (eval host room (loop.condition.getD (.literal (.bool true))))
        (exec host room (.repeated loop.increment loop.body)) host.patience)
      (direct.rounds host room) := by
  unfold ForLoop.rounds
  cases room with
  | zero =>
      cases host.patience with
      | zero => exact throw .outOfPatience
      | succ patience =>
          obtain ⟨first, condition, step, inner⟩ := direct
          cases condition <;> cases step <;> exact throw .overflow
  | succ room =>
      apply goRounds
      · intro later grows
        exact holds host room (Matching.known_later grows known) agree.condition
      · intro later grows
        exact goRound host room (Matching.known_later grows known) agree

/-- The statement as which a loop is written mirrors the loop. -/
theorem forLoop (host : Host) (room : Nat) {loop direct : ForLoop Site}
    (known : matching[frame]? = some ⟨place, kept⟩) (agree : loop.Agrees kept direct) :
    Mirrors matching frame place Completion.Mirrored (exec host room loop.written)
      (direct.run host room) := by
  have all (room : Nat) {matching : Matching} {frame place : FrameId}
      (known : matching[frame]? = some ⟨place, loop.scope ++ kept⟩) := rounds host room known agree
  have initializer := agree.initializer
  obtain ⟨first, condition, step, inner⟩ := loop
  obtain ⟨firstTwin, conditionTwin, stepTwin, innerTwin⟩ := direct
  cases room with
  | zero => cases initializer <;> exact throw .overflow
  | succ room =>
      cases initializer with
      | none => exact all room known
      | some first =>
          apply bind here
          rintro later _ _ grows ⟨rfl, rfl⟩
          apply bind (childOf (Matching.known_later grows known))
          intro last inner innerPlace further innerKnown
          apply inFrame
          cases room with
          | zero => exact throw .overflow
          | succ room =>
              apply bind ((runs_alike host (room + 1)).2 _ _ _ _ _ _ innerKnown first)
              intro final completion completionTwin beyond same
              cases same with
              | returned same => exact pure (.returned same)
              | normal =>
                  dsimp only
                  rw [execEach_single]
                  exact all room (Matching.known_later beyond innerKnown)

end Mirrors

end Run

end LoxLang
