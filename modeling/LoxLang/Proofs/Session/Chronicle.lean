import LoxLang.Proofs.Run.Retracing
import LoxLang.Proofs.Scope.Retracing
import LoxLang.Proofs.Session.Acceptance
import LoxLang.Session.Step

/-!
# Chronicles

A chronicle is a session with the notes on it: on the scopes of every text that
was accepted, and on the runs of all of them.  It goes on in the same steps as the
session, and without the notes it is the session.
-/

namespace LoxLang

/-- A session and the notes on it.  The texts that are accepted are the programs with the numbers
from one on. -/
structure Chronicle where
  session : Session
  /-- How many texts have been accepted. -/
  programs : Nat
  survey : Survey
  history : History

namespace Chronicle

/-- The chronicle of a session in which nothing has run. -/
def fresh (verbose : Bool) : Chronicle :=
  ⟨Session.fresh verbose, 0, Survey.blank, History.blank⟩

/-- The address of the latest program. -/
def root (chronicle : Chronicle) : Address := ⟨chronicle.programs, []⟩

/-- The chronicle with the session at another point. -/
def withSession (chronicle : Chronicle) (session : Session) : Chronicle :=
  { chronicle with session := session }

/-- The machine with the notes on its runs. -/
def watched (chronicle : Chronicle) : Watched Machine History :=
  ⟨chronicle.session.machine, chronicle.history⟩

/-- The chronicle after a run has left the machine and the notes on it like this. -/
def left (chronicle : Chronicle) (watched : Watched Machine History) : Chronicle :=
  { chronicle with
    session := { chronicle.session with machine := watched.state }
    history := watched.notes }

/-- Go through the scopes of the latest program. -/
def surveyed (host : Host) (chronicle : Chronicle) (trees : List (Stmt Unit)) :
    EStateM.Result TooDeep (Watched ScopeState Survey) (List (Stmt Site)) :=
  Surveying.each (fun index => Surveying.stmt host.scopeRoom (chronicle.root.child index)) 0 trees
    ⟨ScopeState.start, { chronicle.survey with opened := [] }⟩

/-- Note the scopes of a text that has passed its check. -/
def accept (host : Host) (chronicle : Chronicle) (text : String) :
    Chronicle × Except Phase (List (Stmt Site)) :=
  let entered := { chronicle with programs := chronicle.programs + 1 }
  let trees := (parseWithin host.nesting (TokenStream.ofText text).tokens).statements
  match entered.surveyed host (trees.getD []) with
  | .ok statements after => ({ entered with survey := after.notes }, .ok statements)
  | .error _ after => ({ entered with survey := after.notes }, .error .resolve)

/-- Check a text without running it. -/
def check (host : Host) (chronicle : Chronicle) (text : String) :
    Chronicle × Except Phase (List (Stmt Site)) :=
  match chronicle.session.check host text with
  | (session, .error phase) => (chronicle.withSession session, .error phase)
  | (session, .ok _) => (chronicle.withSession session).accept host text

/-- Execute checked statements, and report an error. -/
def interpret (host : Host) (chronicle : Chronicle) (statements : List (Stmt Site)) :
    Chronicle × Option Stop :=
  match Watching.program host chronicle.root 0 statements chronicle.watched with
  | .ok _ after => (chronicle.left after, none)
  | .error (.error error) after =>
      let report := chronicle.session.report.addRuntimeError error.fault.message error.about.line
      ((chronicle.withSession { chronicle.session with report := report }).left after, none)
  | .error stop after => (chronicle.left after, some stop)

/-- Check a text and run it. -/
def run (host : Host) (chronicle : Chronicle) (text : String) : Chronicle × Ending :=
  match (chronicle.withSession (chronicle.session.setSource text)).check host text with
  | (checked, .error phase) =>
      let report := checked.session.report.note ("Stopped after the " ++ phase.name ++ " phase")
      (checked.withSession { checked.session with report := report }, .finished .dataError)
  | (checked, .ok statements) =>
      match checked.interpret host statements with
      | (ran, some stop) => (ran, .interrupted stop)
      | (ran, none) =>
          (ran, .finished (if ran.session.report.hadRuntimeError then .softwareError else .ok))

/-- Check the text of an expression and evaluate it, which is the child of the first statement. -/
def evaluate (host : Host) (chronicle : Chronicle) (text : String) :
    Chronicle × Except Session.NoValue Value :=
  match chronicle.check host (text ++ ";") with
  | (checked, .error phase) => (checked, .error (.rejected phase))
  | (checked, .ok statements) =>
      match Session.firstExpression statements with
      | none => (checked, .error .notAnExpression)
      | some expr =>
          match Watching.eval host host.room ((checked.root.child 0).child 0) expr
              checked.watched with
          | .ok value after => (checked.left after, .ok value)
          | .error stop after => (checked.left after, .error (.stopped stop))

/-- Take an action. -/
def act (host : Host) (chronicle : Chronicle) : Session.Action → Chronicle × Session.Answer
  | .run text =>
      let (after, ending) := chronicle.run host text
      (after, .ran ending)
  | .check text =>
      let (after, outcome) := chronicle.check host text
      (after, .checked (outcome.map List.length))
  | .evaluate text =>
      let (after, outcome) := chronicle.evaluate host text
      (after, .evaluated outcome)

/-- Take a step. -/
def step (host : Host) (chronicle : Chronicle) (step : Session.Step) :
    Chronicle × Session.Answer :=
  (chronicle.withSession (chronicle.session.prepared step)).act host step.action

/-- The chronicle after some steps. -/
def after (host : Host) (chronicle : Chronicle) (taken : List Session.Step) : Chronicle :=
  taken.foldl (fun chronicle step => (chronicle.step host step).1) chronicle

/-- What the notes leave of an outcome. -/
def plain {α : Type} (outcome : Chronicle × α) : Session × α := (outcome.1.session, outcome.2)

variable {host : Host} {chronicle : Chronicle}

/-- Where a text is accepted the watched pass through its scopes ends like the plain one. -/
theorem surveyed_of_accepted (chronicle : Chronicle) {text : String} {statements : List (Stmt Site)}
    {trees : List (Stmt Unit)} {state : ScopeState}
    (accepted : Accepted host text statements trees state) :
    ∃ notes, chronicle.surveyed host trees = .ok statements ⟨state, notes⟩ := by
  have retraces := Surveying.each_retraces (fun index tree =>
    Surveying.stmt_retraces host.scopeRoom (chronicle.root.child index) tree) 0 trees
  exact retraces.of_ok accepted.resolved

/-- What is known once a text is accepted. -/
theorem accept_eq (chronicle : Chronicle) {text : String} {statements : List (Stmt Site)}
    {trees : List (Stmt Unit)} {state : ScopeState}
    (accepted : Accepted host text statements trees state) :
    ∃ notes, { chronicle with programs := chronicle.programs + 1 }.surveyed host trees =
        .ok statements ⟨state, notes⟩ ∧
      chronicle.accept host text =
        ({ chronicle with programs := chronicle.programs + 1, survey := notes },
          .ok statements) := by
  obtain ⟨notes, surveyed⟩ := surveyed_of_accepted
    { chronicle with programs := chronicle.programs + 1 } accepted
  refine ⟨notes, surveyed, ?_⟩
  unfold accept
  simp only [accepted.read, Option.getD_some, surveyed]

theorem plain_check (text : String) :
    plain (chronicle.check host text) = chronicle.session.check host text := by
  unfold check
  cases outcome : chronicle.session.check host text with
  | mk session result =>
      cases result with
      | error phase => rfl
      | ok statements =>
          have passed : (LoxLang.check host text chronicle.session.report
              chronicle.session.recorded).outcome = .ok statements :=
            congrArg Prod.snd outcome
          obtain ⟨trees, state, accepted⟩ := Accepted.of_check passed
          obtain ⟨notes, _, same⟩ := accept_eq (chronicle.withSession session) accepted
          simp only [same]
          rfl

theorem plain_interpret (statements : List (Stmt Site)) :
    plain (chronicle.interpret host statements) =
      chronicle.session.interpret host statements := by
  have same := Watching.program_retraces host chronicle.root 0 statements chronicle.watched
  unfold interpret Session.interpret
  have start : chronicle.watched.state = chronicle.session.machine := rfl
  rw [start] at same
  rw [← same]
  cases Watching.program host chronicle.root 0 statements chronicle.watched with
  | ok _ after => rfl
  | error stop after => cases stop <;> rfl

theorem plain_run (text : String) :
    plain (chronicle.run host text) = chronicle.session.run host text := by
  have checkSame : plain ((chronicle.withSession (chronicle.session.setSource text)).check host
      text) = (chronicle.session.setSource text).check host text := plain_check text
  unfold run Session.run
  rw [← checkSame]
  cases (chronicle.withSession (chronicle.session.setSource text)).check host text with
  | mk checked outcome =>
      cases outcome with
      | error phase => rfl
      | ok statements =>
          have interpretSame : plain (checked.interpret host statements) =
            checked.session.interpret host statements := plain_interpret statements
          simp only [plain] at interpretSame ⊢
          rw [← interpretSame]
          cases checked.interpret host statements with
          | mk ran stop => cases stop <;> rfl

theorem plain_evaluate (text : String) :
    plain (chronicle.evaluate host text) = chronicle.session.evaluate host text := by
  have checkSame : plain (chronicle.check host (text ++ ";")) =
    chronicle.session.check host (text ++ ";") := plain_check (text ++ ";")
  unfold evaluate Session.evaluate
  rw [← checkSame]
  cases chronicle.check host (text ++ ";") with
  | mk checked outcome =>
      cases outcome with
      | error phase => rfl
      | ok statements =>
          simp only [plain]
          cases Session.firstExpression statements with
          | none => rfl
          | some expr =>
              have same := Watching.eval_retraces host host.room ((checked.root.child 0).child 0)
                expr checked.watched
              have start : checked.watched.state = checked.session.machine := rfl
              rw [start] at same
              simp only [← same]
              cases Watching.eval host host.room ((checked.root.child 0).child 0) expr
                checked.watched <;> rfl

theorem plain_act (action : Session.Action) :
    plain (chronicle.act host action) = chronicle.session.act host action := by
  cases action with
  | run text =>
      have same : plain (chronicle.run host text) = _ := plain_run text
      simp only [act, Session.act, ← same, plain]
  | check text =>
      have same : plain (chronicle.check host text) = _ := plain_check text
      simp only [act, Session.act, ← same, plain]
  | evaluate text =>
      have same : plain (chronicle.evaluate host text) = _ := plain_evaluate text
      simp only [act, Session.act, ← same, plain]

/-- Without the notes, a chronicle goes on as its session does. -/
theorem plain_step (step : Session.Step) :
    plain (chronicle.step host step) = chronicle.session.step host step :=
  plain_act step.action

theorem session_after (taken : List Session.Step) :
    (chronicle.after host taken).session = chronicle.session.after host taken := by
  induction taken generalizing chronicle with
  | nil => rfl
  | cons first rest induction =>
      have same : (chronicle.step host first).1.session = (chronicle.session.step host first).1 :=
        congrArg Prod.fst (plain_step first)
      show ((chronicle.step host first).1.after host rest).session =
        (chronicle.session.step host first).1.after host rest
      rw [induction, same]

end Chronicle

end LoxLang
