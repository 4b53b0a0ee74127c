import LoxLang.Proofs.Run.Return
import LoxLang.Proofs.Session.Phases
import LoxLang.Session.Step

/-!
# Sessions stay at the top level

Since every part of a run comes back to the frame in which it began, every step of a
session ends at the top level.
-/

namespace LoxLang

open Run (ComesBack)

/-- At the top level, too, it does not matter how the statements end. -/
theorem Run.program_back (host : Host) (statements : List (Stmt Site)) :
    ComesBack (Run.program host statements) := by
  induction statements with
  | nil => exact .pure ()
  | cons first rest induction => exact (exec_back host host.room first).bind fun _ => induction

namespace Session

variable {host : Host} {session : Session}

theorem interpret_back (statements : List (Stmt Site)) :
    (session.interpret host statements).1.machine.current = session.machine.current := by
  have back := Run.program_back host statements
  unfold interpret
  cases outcome : Run.program host statements session.machine with
  | ok _ machine => exact back.of_ok outcome
  | error stop machine => cases stop <;> exact back.of_error outcome

theorem run_back (text : String) :
    (session.run host text).1.machine.current = session.machine.current := by
  have unchanged : ((session.setSource text).check host text).1.machine = session.machine := rfl
  cases outcome : (session.setSource text).check host text with
  | mk checked result =>
      rw [outcome] at unchanged
      cases result with
      | error phase =>
          rw [run_eq_of_rejected outcome]
          exact congrArg Machine.current unchanged
      | ok statements =>
          rw [run_eq outcome, finish_fst, interpret_back]
          exact congrArg Machine.current unchanged

theorem evaluate_back (text : String) :
    (session.evaluate host text).1.machine.current = session.machine.current := by
  have unchanged : (session.check host (text ++ ";")).1.machine = session.machine := rfl
  unfold evaluate
  cases outcome : session.check host (text ++ ";") with
  | mk checked result =>
      rw [outcome] at unchanged
      have same := congrArg Machine.current unchanged
      cases result with
      | error phase => exact same
      | ok statements =>
          dsimp only
          cases firstExpression statements with
          | none => exact same
          | some expr =>
              have back := Run.eval_back host host.room expr
              dsimp only
              rw [← same]
              cases ends : Run.eval host host.room expr checked.machine with
              | ok value machine => exact back.of_ok ends
              | error stop machine => exact back.of_error ends

theorem step_back (step : Step) :
    (session.step host step).1.machine.current = session.machine.current := by
  have prepared : (session.prepared step).machine.current = session.machine.current := by
    unfold prepared
    split <;> rfl
  rw [← prepared]
  unfold Session.step act
  cases step.action with
  | run text => exact run_back text
  | check text => rfl
  | evaluate text => exact evaluate_back text

end Session

/-- Every part of a run comes back to the frame in which it began, on every machine and however it
ends: every expression, every statement, statements run in a frame of their own, and the call of
any value.  So every step of a session ends in the frame in which it began, and a session is always
at the top level after its steps. -/
theorem runs_come_back (host : Host) :
    (∀ room e, ComesBack (Run.eval host room e)) ∧
    (∀ room s, ComesBack (Run.exec host room s)) ∧
    (∀ room frame body, ComesBack (Run.inFrame frame (Run.execEach (Run.exec host room) body))) ∧
    (∀ room paren callee args,
      ComesBack (Run.callValue host (Run.exec host room) paren callee args)) ∧
    (∀ (session : Session) step,
      (session.step host step).1.machine.current = session.machine.current) ∧
    ∀ verbose taken, ((Session.fresh verbose).after host taken).machine.current = globalFrame := by
  refine ⟨Run.eval_back host, Run.exec_back host, fun _ frame _ => .inFrame frame _,
    fun room => Run.callValue_back host _, fun session step => Session.step_back step, ?_⟩
  intro verbose taken
  have stays (session : Session) : (session.after host taken).machine.current =
      session.machine.current := by
    induction taken generalizing session with
    | nil => rfl
    | cons first rest induction => exact (induction _).trans (Session.step_back first)
  exact stays (Session.fresh verbose)

end LoxLang
