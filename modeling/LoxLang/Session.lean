import LoxLang.Check
import LoxLang.Evaluation

/-!
# Sessions

A session runs one text after the other on one machine, with one report.  What a
text defines at the top level stays for the next one; a text that is rejected
changes nothing on the machine.
-/

namespace LoxLang

/-- How a run ends, as a status for the outside. -/
inductive ExitStatus where
  | ok
  | usage
  | dataError
  | noInput
  | softwareError
deriving DecidableEq, Repr

/-- The number of a status. -/
def ExitStatus.code : ExitStatus → Nat
  | ok => 0
  | usage => 2
  | dataError => 65
  | noInput => 66
  | softwareError => 70

/-- How the run of a text ends: with a status, or by a stop that is no error of the program. -/
inductive Ending where
  | finished (status : ExitStatus)
  | interrupted (stop : Stop)
deriving DecidableEq, Repr

/-- The machine, the report, and how many references had their scopes found. -/
structure Session where
  machine : Machine
  report : Report
  recorded : Nat

namespace Run

/-- Execute the statements of a program one after the other.  At the top level nothing takes the
value of a `return`. -/
def program (host : Host) : List (Stmt Site) → Run Unit
  | [] => return ()
  | first :: rest => do
      let _ ← exec host host.room first
      program host rest

end Run

namespace Session

/-- The session in which nothing has run. -/
def fresh (verbose : Bool) : Session := ⟨Machine.fresh, Report.fresh verbose, 0⟩

/-- Forget the issues and the run-time error of earlier texts. -/
def reset (session : Session) : Session := { session with report := session.report.reset }

/-- The session after what was printed and said has been written out. -/
def silent (session : Session) : Session :=
  { session with machine := session.machine.silent, report := session.report.silent }

/-- Whether the program is at the top level. -/
def atTop (session : Session) : Bool := session.machine.current == globalFrame

/-- Register a text for illustrations. -/
def setSource (session : Session) (text : String) : Session :=
  { session with report := session.report.setSource text }

/-- Check a text without running it. -/
def check (host : Host) (session : Session) (text : String) :
    Session × Except Phase (List (Stmt Site)) :=
  let checked := LoxLang.check host text session.report session.recorded
  ({ session with
      report := checked.report
      recorded := session.recorded + checked.references.length }, checked.outcome)

/-- Execute checked statements, and report an error. -/
def interpret (host : Host) (session : Session) (statements : List (Stmt Site)) :
    Session × Option Stop :=
  match Run.program host statements session.machine with
  | .ok _ machine => ({ session with machine := machine }, none)
  | .error (.error error) machine =>
      ({ session with
          machine := machine
          report := session.report.addRuntimeError error.fault.message error.about.line }, none)
  | .error stop machine => ({ session with machine := machine }, some stop)

/-- Check a text and run it. -/
def run (host : Host) (session : Session) (text : String) : Session × Ending :=
  match (session.setSource text).check host text with
  | (checked, .error phase) =>
      let report := checked.report.note ("Stopped after the " ++ phase.name ++ " phase")
      ({ checked with report := report }, .finished .dataError)
  | (checked, .ok statements) =>
      match checked.interpret host statements with
      | (ran, some stop) => (ran, .interrupted stop)
      | (ran, none) =>
          (ran, .finished (if ran.report.hadRuntimeError then .softwareError else .ok))

/-- Why an expression has no value. -/
inductive NoValue where
  | rejected (phase : Phase)
  | notAnExpression
  | stopped (stop : Stop)
deriving DecidableEq, Repr

/-- The expression of a program's first statement, if it evaluates one. -/
def firstExpression : List (Stmt Site) → Option (Expr Site)
  | .expression value :: _ => some value
  | .print value :: _ => some value
  | _ => none

/-- Check the text of an expression and evaluate it.  An error is not reported. -/
def evaluate (host : Host) (session : Session) (text : String) :
    Session × Except NoValue Value :=
  match session.check host (text ++ ";") with
  | (checked, .error phase) => (checked, .error (.rejected phase))
  | (checked, .ok statements) =>
      match firstExpression statements with
      | none => (checked, .error .notAnExpression)
      | some expr =>
          match Run.eval host host.room expr checked.machine with
          | .ok value machine => ({ checked with machine := machine }, .ok value)
          | .error stop machine => ({ checked with machine := machine }, .error (.stopped stop))

end Session

end LoxLang
