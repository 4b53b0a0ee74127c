import LoxLang.Session

/-!
# The steps of a session

A session goes on in steps: a text is run, or only checked, or an expression is
evaluated.  Unless a step asks to keep them, the issues and the run-time error of
earlier steps are forgotten first.  What a step prints and says is what the
session after it holds.
-/

namespace LoxLang.Session

/-- What to do with a text. -/
inductive Action where
  | run (text : String)
  | check (text : String)
  | evaluate (text : String)
deriving DecidableEq, Repr

/-- An action, and whether the issues and the run-time error of earlier steps are forgotten. -/
structure Step where
  action : Action
  forget : Bool
deriving DecidableEq, Repr

/-- What comes of a step: how the run ended, how many statements were checked, or the value. -/
inductive Answer where
  | ran (ending : Ending)
  | checked (outcome : Except Phase Nat)
  | evaluated (outcome : Except NoValue Value)

/-- Take an action. -/
def act (host : Host) (session : Session) : Action → Session × Answer
  | .run text =>
      let (after, ending) := session.run host text
      (after, .ran ending)
  | .check text =>
      let (after, outcome) := session.check host text
      (after, .checked (outcome.map List.length))
  | .evaluate text =>
      let (after, outcome) := session.evaluate host text
      (after, .evaluated outcome)

/-- The session at the beginning of a step, with nothing printed or said. -/
def prepared (session : Session) (step : Step) : Session :=
  if step.forget then session.silent.reset else session.silent

/-- Take a step. -/
def step (host : Host) (session : Session) (step : Step) : Session × Answer :=
  (session.prepared step).act host step.action

/-- Take steps one after the other; each answer comes with the session after its step. -/
def steps (host : Host) (session : Session) : List Step → List (Session × Answer)
  | [] => []
  | first :: rest =>
      let outcome := session.step host first
      outcome :: steps host outcome.1 rest

/-- The session after some steps. -/
def after (host : Host) (session : Session) (taken : List Step) : Session :=
  taken.foldl (fun session step => (session.step host step).1) session

end LoxLang.Session
