import LoxLang.Evaluation
import LoxLang.Proofs.TreeMap
import LoxLang.Scope.Resolve

/-!
# Loops with `for`, read directly

A tree has no loops with `for`; they are written as blocks and `while` loops.  This is
what such a loop means by itself.  If something runs first there is one scope for the
whole loop, in which all its parts lie, and there is no other scope than that.
-/

namespace LoxLang

variable {S : Type}

/-- A loop with `for`: what runs first, the condition, what is evaluated after each round, and the
body. -/
structure ForLoop (S : Type) where
  initializer : Option (Stmt S)
  condition : Option (Expr S)
  increment : Option (Expr S)
  body : Stmt S

namespace ForLoop

/-- The statement as which the loop is written. -/
def written (loop : ForLoop S) : Stmt S :=
  .forLoop loop.initializer loop.condition loop.increment loop.body

/-- The loop with its sites forgotten. -/
def bare (loop : ForLoop S) : ForLoop Unit where
  initializer := loop.initializer.map Stmt.bare
  condition := loop.condition.map Expr.bare
  increment := loop.increment.map Expr.bare
  body := loop.body.bare

/-- Visit the parts of the loop, in the order of the text. -/
def visitParts (room : Nat) (loop : ForLoop Unit) : Scoping (ForLoop Site) := do
  let initializer ← Scoping.optional (Scoping.stmt room) loop.initializer
  let condition ← Scoping.optional (Scoping.expr room) loop.condition
  let increment ← Scoping.optional (Scoping.expr room) loop.increment
  let body ← Scoping.stmt room loop.body
  return ⟨initializer, condition, increment, body⟩

/-- Visit the loop, which has a scope if something runs first. -/
def visit (room : Nat) (loop : ForLoop Unit) : Scoping (ForLoop Site) :=
  match loop.initializer with
  | none => loop.visitParts room
  | some _ => Scoping.inScope Table.empty (loop.visitParts room)

end ForLoop

namespace Run

/-- Whether a condition holds, as it does if there is none. -/
def holds (evaluate : Expr Site → Run Value) : Option (Expr Site) → Run Bool
  | none => return true
  | some condition => do
      let value ← evaluate condition
      return value.isTruthy

/-- Execute a body, and evaluate what comes after it unless it returns. -/
def goRound (body : Run Completion) (evaluate : Expr Site → Run Value) :
    Option (Expr Site) → Run Completion
  | none => body
  | some increment => do
      match ← body with
      | .normal => do
          let _ ← evaluate increment
          return .normal
      | .returned value => return .returned value

/-- Go round until the condition does not hold, or a round returns. -/
def goRounds (condition : Run Bool) (round : Run Completion) : (patience : Nat) → Run Completion
  | 0 => throw .outOfPatience
  | patience + 1 => do
      if ← condition then
        match ← round with
        | .normal => goRounds condition round patience
        | .returned value => return .returned value
      else
        return .normal

end Run

namespace ForLoop

open Run (eval exec childOf here inFrame holds goRound goRounds)

/-- The room for the body: an increment shares it with the body. -/
def bodyRoom (loop : ForLoop S) (room : Nat) : Nat :=
  if loop.increment.isSome then room - 1 else room

/-- Execute all rounds of the loop. -/
def rounds (host : Host) (room : Nat) (loop : ForLoop Site) : Run Completion :=
  goRounds (holds (eval host room) loop.condition)
    (goRound (exec host (loop.bodyRoom room) loop.body) (eval host (room - 2)) loop.increment)
    host.patience

/-- Execute the loop.  Each part of it has as much room as where the loop is written with other
statements. -/
def run (host : Host) : (room : Nat) → ForLoop Site → Run Completion
  | 0, _ => throw .overflow
  | room + 1, loop =>
      match loop.initializer with
      | none => loop.rounds host room
      | some first => do
          let frame ← childOf (← here)
          inFrame frame do
            match ← exec host room first with
            | .normal => loop.rounds host (room - 1)
            | .returned value => return .returned value

end ForLoop

end LoxLang
