import LoxLang.Proofs.Renaming.Sessions
import LoxLang.Proofs.Session.Phases

/-!
# Steps that leave no trace

A text that is only checked, or rejected when it should run, changes the report and the
number of references found, but not the machine.  If the report is reset before every step
and says no more than it has to, no later step can tell whether such a text has been there.
-/

namespace LoxLang

namespace Report

/-- Neither report is verbose, and they differ at most in the registered text. -/
structure Alike (report twin : Report) : Prop where
  terse : report.verbose = false
  terseTwin : twin.verbose = false
  issues : twin.issues = report.issues
  hadRuntimeError : twin.hadRuntimeError = report.hadRuntimeError
  transcript : twin.transcript = report.transcript

theorem note_of_terse {report : Report} (terse : report.verbose = false) (words : String) :
    report.note words = report := by
  simp [note, terse]

/-- Without an illustration an issue is announced in the same words by every report. -/
theorem messagesOf_of_terse {report : Report} (terse : report.verbose = false) (issue : Issue) :
    report.messagesOf issue = [.issue issue] := by
  simp [messagesOf, illustrationOf, terse]

namespace Alike

variable {report twin : Report}

theorem sick (alike : report.Alike twin) : twin.sick = report.sick := by
  simp only [Report.sick, alike.issues]

theorem text (alike : report.Alike twin) : twin.text = report.text := by
  simp only [Report.text, alike.transcript]

theorem setSource (alike : report.Alike twin) (text other : String) :
    (report.setSource text).Alike (twin.setSource other) := by
  obtain ⟨terse, terseTwin, issues, hadRuntimeError, transcript⟩ := alike
  exact ⟨terse, terseTwin, issues, hadRuntimeError, transcript⟩

/-- A note is not said, so it does not matter what it would be. -/
theorem note (alike : report.Alike twin) (words other : String) :
    (report.note words).Alike (twin.note other) := by
  rwa [note_of_terse alike.terse, note_of_terse alike.terseTwin]

theorem addIssues (alike : report.Alike twin) (issues : List Issue) :
    (report.addIssues issues).Alike (twin.addIssues issues) := by
  have said : twin.messagesOf = report.messagesOf := by
    funext issue
    rw [messagesOf_of_terse alike.terse, messagesOf_of_terse alike.terseTwin]
  exact ⟨alike.terse, alike.terseTwin, by simp [alike.issues], alike.hadRuntimeError,
    by simp [Report.addIssues, say, said, alike.transcript]⟩

theorem addRuntimeError (alike : report.Alike twin) (message : String) (line : Nat) :
    (report.addRuntimeError message line).Alike (twin.addRuntimeError message line) :=
  ⟨alike.terse, alike.terseTwin, alike.issues, rfl,
    by simp [Report.addRuntimeError, say, alike.transcript]⟩

theorem scan (alike : report.Alike twin) (text : String) :
    (report.afterScan text).Alike (twin.afterScan text) :=
  (alike.addIssues _).note _ _

theorem parse (alike : report.Alike twin) (host : Host) (text : String) :
    (report.afterParse host text).Alike (twin.afterParse host text) := by
  have found := (alike.scan text).addIssues
    ((parseWithin host.nesting (TokenStream.ofText text).tokens).issues
      (TokenStream.ofText text).stop)
  unfold afterParse Report.parse
  cases (parseWithin host.nesting (TokenStream.ofText text).tokens).statements with
  | none => exact found.addIssues _
  | some trees => exact found.note _ _

theorem resolve (alike : report.Alike twin) (host : Host) (text : String)
    (recorded other : Nat) :
    (report.afterResolve host text recorded).Alike (twin.afterResolve host text other) := by
  have parsed := alike.parse host text
  unfold afterResolve
  cases (parseWithin host.nesting (TokenStream.ofText text).tokens).statements with
  | none => exact parsed
  | some trees =>
      have found := parsed.addIssues (resolveWithin host.scopeRoom trees).issues
      unfold Report.resolve
      dsimp only
      cases (resolveWithin host.scopeRoom trees).statements with
      | none => exact found.addIssues _
      | some statements => exact found.note _ _

/-- A check depends neither on the registered text nor on the references found before. -/
theorem check (alike : report.Alike twin) (host : Host) (text : String) (recorded other : Nat) :
    (LoxLang.check host text twin other).outcome =
        (LoxLang.check host text report recorded).outcome ∧
      (LoxLang.check host text report recorded).report.Alike
        (LoxLang.check host text twin other).report := by
  have parsed := alike.parse host text
  cases read : (parseWithin host.nesting (TokenStream.ofText text).tokens).statements with
  | none =>
      rw [check_eq_of_unread read, check_eq_of_unread read]
      exact ⟨rfl, parsed⟩
  | some trees =>
      have resolved := alike.resolve host text recorded other
      simp only [check_eq_of_read read, (alike.scan text).sick, parsed.sick, resolved.sick]
      split
      · exact ⟨rfl, parsed⟩
      split
      · exact ⟨rfl, parsed⟩
      · exact ⟨rfl, resolved⟩

end Alike

end Report

namespace Session

/-- Two sessions with the same machine and with reports that differ at most in the registered text.
They may have found different numbers of references. -/
structure Matches (session twin : Session) : Prop where
  machine : twin.machine = session.machine
  report : session.report.Alike twin.report

/-- The same came of both sessions, and they still match. -/
inductive EndAlike {α : Type} : Session × α → Session × α → Prop where
  | mk {after twin : Session} (result : α) : after.Matches twin →
      EndAlike (after, result) (twin, result)

/-- Two sessions that match once what was printed and said is out and the reports are reset. -/
structure ReadyAlike (session twin : Session) : Prop where
  machine : twin.machine.silent = session.machine.silent
  terse : session.report.verbose = false
  terseTwin : twin.report.verbose = false

section Steps

variable {host : Host} {session twin : Session}

theorem Matches.readyAlike (same : session.Matches twin) : session.ReadyAlike twin :=
  ⟨congrArg Machine.silent same.machine, same.report.terse, same.report.terseTwin⟩

theorem ReadyAlike.prepared (ready : session.ReadyAlike twin) {step : Step}
    (resets : step.forget = true) : (session.prepared step).Matches (twin.prepared step) := by
  unfold Session.prepared
  rw [if_pos resets, if_pos resets]
  exact ⟨ready.machine, ready.terse, ready.terseTwin, rfl, rfl, rfl⟩

theorem EndAlike.readyAlike {α : Type} {outcome twin : Session × α} (ends : EndAlike outcome twin) :
    outcome.1.ReadyAlike twin.1 := by
  obtain ⟨_, same⟩ := ends
  exact same.readyAlike

theorem EndAlike.eq_mk {α : Type} {after : Session} {result : α} {outcome : Session × α}
    (ends : EndAlike (after, result) outcome) :
    ∃ twin, outcome = (twin, result) ∧ after.Matches twin := by
  cases ends with
  | @mk _ twin _ same => exact ⟨twin, rfl, same⟩

theorem EndAlike.finish {outcome twin : Session × Option Stop} (ends : EndAlike outcome twin) :
    EndAlike (Session.finish outcome) (Session.finish twin) := by
  obtain ⟨stop, same⟩ := ends
  cases stop with
  | some stop => exact .mk _ same
  | none =>
      simp only [Session.finish]
      rw [same.report.hadRuntimeError]
      exact .mk _ same

theorem Matches.check (same : session.Matches twin) (host : Host) (text : String) :
    EndAlike (session.check host text) (twin.check host text) := by
  obtain ⟨outcomes, reports⟩ := same.report.check host text session.recorded twin.recorded
  unfold Session.check
  dsimp only
  rw [outcomes]
  exact .mk _ ⟨same.machine, reports⟩

theorem Matches.interpret (same : session.Matches twin) (host : Host)
    (statements : List (Stmt Site)) :
    EndAlike (session.interpret host statements) (twin.interpret host statements) := by
  obtain ⟨machines, reports⟩ := same
  unfold Session.interpret
  rw [machines]
  cases Run.program host statements session.machine with
  | ok _ after => exact .mk _ ⟨rfl, reports⟩
  | error stop after =>
      cases stop with
      | error error => exact .mk _ ⟨rfl, reports.addRuntimeError _ _⟩
      | _ => exact .mk _ ⟨rfl, reports⟩

theorem Matches.run (same : session.Matches twin) (host : Host) (text : String) :
    EndAlike (session.run host text) (twin.run host text) := by
  have sourced : (session.setSource text).Matches (twin.setSource text) :=
    ⟨same.machine, same.report.setSource text text⟩
  have checks := sourced.check host text
  cases outcome : (session.setSource text).check host text with
  | mk checked verdict =>
      rw [outcome] at checks
      obtain ⟨checkedTwin, outcomeTwin, checkedSame⟩ := checks.eq_mk
      cases verdict with
      | error phase =>
          rw [run_eq_of_rejected outcome, run_eq_of_rejected outcomeTwin]
          exact .mk _ ⟨checkedSame.machine, checkedSame.report.note _ _⟩
      | ok statements =>
          rw [run_eq outcome, run_eq outcomeTwin]
          exact (checkedSame.interpret host statements).finish

theorem Matches.evaluate (same : session.Matches twin) (host : Host) (text : String) :
    EndAlike (session.evaluate host text) (twin.evaluate host text) := by
  have checks := same.check host (text ++ ";")
  unfold Session.evaluate
  cases outcome : session.check host (text ++ ";") with
  | mk checked verdict =>
      rw [outcome] at checks
      obtain ⟨checkedTwin, outcomeTwin, checkedSame⟩ := checks.eq_mk
      rw [outcomeTwin]
      cases verdict with
      | error phase => exact .mk _ checkedSame
      | ok statements =>
          dsimp only
          cases firstExpression statements with
          | none => exact .mk _ checkedSame
          | some expr =>
              dsimp only
              rw [checkedSame.machine]
              cases Run.eval host host.room expr checked.machine <;>
                exact .mk _ ⟨rfl, checkedSame.report⟩

theorem EndAlike.imp {α β : Type} {outcome twin : Session × α} (ends : EndAlike outcome twin)
    (say : α → β) : EndAlike (outcome.1, say outcome.2) (twin.1, say twin.2) := by
  obtain ⟨result, same⟩ := ends
  exact .mk (say result) same

theorem Matches.act (same : session.Matches twin) (host : Host) (action : Action) :
    EndAlike (session.act host action) (twin.act host action) := by
  cases action with
  | run text => exact (same.run host text).imp Answer.ran
  | check text =>
      exact (same.check host text).imp fun outcome => Answer.checked (outcome.map List.length)
  | evaluate text => exact (same.evaluate host text).imp Answer.evaluated

theorem ReadyAlike.step (ready : session.ReadyAlike twin) (host : Host) {step : Step}
    (resets : step.forget = true) :
    EndAlike (session.step host step) (twin.step host step) :=
  (ready.prepared resets).act host step.action

/-- Whether a step may be left out, given how it was answered: nothing was to run, or the text was
rejected. -/
def Step.omissible (step : Step) (answer : Answer) : Bool :=
  match step.action, answer with
  | .check _, _ => true
  | .run _, .ran (.finished .dataError) => true
  | _, _ => false

theorem Step.rejected_of_omissible {text : String} {forget : Bool} {ending : Ending}
    (omissible : Step.omissible ⟨.run text, forget⟩ (.ran ending) = true) :
    ending = .finished .dataError := by
  cases ending with
  | interrupted stop => cases omissible
  | finished status =>
      cases status with
      | dataError => rfl
      | _ => cases omissible

theorem machine_prepared (session : Session) (step : Step) :
    (session.prepared step).machine = session.machine.silent := by
  unfold prepared
  split <;> rfl

/-- The machine is changed only by a text that has passed its check, and then the status is another
one. -/
theorem machine_run_of_rejected {text : String}
    (rejected : (session.run host text).2 = .finished .dataError) :
    (session.run host text).1.machine = session.machine := by
  cases outcome : (session.setSource text).check host text with
  | mk checked verdict =>
      cases verdict with
      | error phase =>
          rw [run_eq_of_rejected outcome]
          exact congrArg (fun outcome => outcome.1.machine) outcome.symm
      | ok statements =>
          rw [run_eq outcome] at rejected
          obtain ⟨_, told⟩ := finish_eq_finished (Prod.ext rfl rejected)
          split at told <;> cases told

/-- A step that may be left out does not change the machine. -/
theorem machine_step_of_omissible {step : Step}
    (omissible : step.omissible (session.step host step).2 = true) :
    (session.step host step).1.machine = session.machine.silent := by
  obtain ⟨action, forget⟩ := step
  rw [← session.machine_prepared ⟨action, forget⟩]
  cases action with
  | run text => exact machine_run_of_rejected (Step.rejected_of_omissible omissible)
  | check text => rfl
  | evaluate text => cases omissible

/-- Leaving such a step out makes no difference to what comes. -/
theorem ReadyAlike.omit (ready : session.ReadyAlike twin) {step : Step}
    (resets : step.forget = true)
    (omissible : step.omissible (session.step host step).2 = true) :
    (session.step host step).1.ReadyAlike twin := by
  -- a step that is compared with itself shows that its report does not become verbose
  have itself : session.ReadyAlike session := ⟨rfl, ready.terse, ready.terse⟩
  have terse := (itself.step host resets).readyAlike.terse
  refine ⟨?_, terse, ready.terseTwin⟩
  rw [machine_step_of_omissible omissible]
  exact ready.machine

end Steps

/-- What can be seen of an answer and of the session after it is the same. -/
structure SeenAlike (seen twin : Session × Answer) : Prop where
  answer : twin.2 = seen.2
  printed : twin.1.machine.printed = seen.1.machine.printed
  told : twin.1.report.text = seen.1.report.text
  sick : twin.1.report.sick = seen.1.report.sick
  hadRuntimeError : twin.1.report.hadRuntimeError = seen.1.report.hadRuntimeError
  shownGlobals : twin.1.machine.shownGlobals = seen.1.machine.shownGlobals
  atTop : twin.1.atTop = seen.1.atTop

theorem EndAlike.seenAlike {seen twin : Session × Answer} (ends : EndAlike seen twin) :
    SeenAlike seen twin := by
  obtain ⟨answer, same⟩ := ends
  exact ⟨rfl, by rw [same.machine], same.report.text, same.report.sick,
    same.report.hadRuntimeError, by rw [same.machine], by simp only [atTop, same.machine]⟩

/-- The answers to those of the marked steps that stay. -/
def answersKept (marked : List (Step × Bool)) (answers : List (Session × Answer)) :
    List (Session × Answer) :=
  ((marked.zip answers).filter fun entry => entry.1.2).map Prod.snd

/-- The marked steps that stay. -/
def stepsKept (marked : List (Step × Bool)) : List Step := (marked.filter Prod.snd).map Prod.fst

section Omission

variable {host : Host} {session twin : Session}

/-- One session takes all the marked steps, the other one only those that stay. -/
theorem ReadyAlike.seenAlike (ready : session.ReadyAlike twin) {marked : List (Step × Bool)}
    (resets : ∀ entry ∈ marked, entry.1.forget = true)
    (omissible : ∀ entry ∈ marked.zip (session.steps host (marked.map Prod.fst)),
      entry.1.2 = false → entry.1.1.omissible entry.2.2 = true) :
    List.Forall₂ SeenAlike (answersKept marked (session.steps host (marked.map Prod.fst)))
      (twin.steps host (stepsKept marked)) := by
  induction marked generalizing session twin with
  | nil => exact .nil
  | cons first rest induction =>
      obtain ⟨firstResets, restReset⟩ := List.forall_mem_cons.1 resets
      obtain ⟨firstOmissible, restOmissible⟩ := List.forall_mem_cons.1 omissible
      obtain ⟨step, stays⟩ := first
      cases stays with
      | true =>
          have ends := ready.step host firstResets
          exact .cons ends.seenAlike (induction ends.readyAlike restReset restOmissible)
      | false =>
          exact induction (ready.omit firstResets (firstOmissible rfl)) restReset restOmissible

end Omission

end Session

/-- A text that is only checked, or rejected when it should run, leaves no trace.  If every step of
a session that is not verbose resets the report first, any such steps may be left out: what can be
seen of the others and of their answers stays the same. -/
theorem omitted_steps_leave_no_trace (host : Host) (session : Session)
    (terse : session.report.verbose = false) (marked : List (Session.Step × Bool))
    (resets : ∀ entry ∈ marked, entry.1.forget = true)
    (omissible : ∀ entry ∈ marked.zip (session.steps host (marked.map Prod.fst)),
      entry.1.2 = false → entry.1.1.omissible entry.2.2 = true) :
    List.Forall₂ Session.SeenAlike
      (Session.answersKept marked (session.steps host (marked.map Prod.fst)))
      (session.steps host (Session.stepsKept marked)) :=
  Session.ReadyAlike.seenAlike ⟨rfl, terse, terse⟩ resets omissible

/-- The second text is rejected, but not before a reference to a parameter has been found; the third
one is only checked.  Without them the other three are answered as before, though fewer references
have been found. -/
theorem omitted_steps_leave_no_trace_rejected :
    let host := Host.standard fun _ => 0
    let marked : List (Session.Step × Bool) :=
      [(⟨.run "var a = 1;", true⟩, true),
        (⟨.run "var a = 2; fun f(n) \x7b return n; \x7d return;", true⟩, false),
        (⟨.check "a = 3;", true⟩, false),
        (⟨.run "print a; f();", true⟩, true),
        (⟨.evaluate "a", true⟩, true)]
    let taken := marked.map Prod.fst
    let whole := (Session.fresh false).steps host taken
    let rest := (Session.fresh false).steps host (Session.stepsKept marked)
    List.Forall₂ Session.SeenAlike (Session.answersKept marked whole) rest ∧
      rest.map (fun answered => answered.1.machine.printed) = [[], ["1"], []] ∧
      whole.map (fun answered => answered.1.recorded) = [0, 1, 1, 1, 1] ∧
      rest.map (fun answered => answered.1.recorded) = [0, 0, 0] := by
  intro host marked taken whole rest
  refine ⟨omitted_steps_leave_no_trace host _ rfl marked ?_ ?_, ?_, ?_, ?_⟩
  all_goals decide +kernel

end LoxLang
