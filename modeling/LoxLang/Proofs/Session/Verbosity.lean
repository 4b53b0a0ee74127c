import LoxLang.Proofs.Session.Phases
import LoxLang.Session.Step

/-!
# What verbosity adds

A verbose report says more than one that is not: notes on the progress, and
illustrations.  With these remarks taken out, whatever is done with a verbose report is
the same as what is done with one that is not verbose.
-/

namespace LoxLang

/-- Whether only a verbose report says the message. -/
def Message.isRemark : Message → Bool
  | .note _ | .illustration _ => true
  | .issue _ | .runtimeError _ _ => false

namespace Report

/-- The report as it would be if it were not verbose. -/
def withoutRemarks (report : Report) : Report :=
  { report with
    verbose := false
    transcript := report.transcript.filter (!·.isRemark) }

@[simp] theorem sick_withoutRemarks (report : Report) :
    report.withoutRemarks.sick = report.sick := rfl

theorem withoutRemarks_note (report : Report) (words : String) :
    (report.note words).withoutRemarks = report.withoutRemarks.note words := by
  unfold note
  split
  · simp [withoutRemarks, say, Message.isRemark]
  · rfl

/-- What is said about an issue, but for the illustration. -/
theorem filter_messagesOf (report : Report) (issue : Issue) :
    (report.messagesOf issue).filter (!·.isRemark) = [.issue issue] := by
  unfold messagesOf
  split <;> simp [Message.isRemark]

theorem messagesOf_withoutRemarks (report : Report) :
    report.withoutRemarks.messagesOf = fun issue => [.issue issue] := by
  funext issue
  simp [messagesOf, illustrationOf, withoutRemarks]

theorem withoutRemarks_addIssues (report : Report) (issues : List Issue) :
    (report.addIssues issues).withoutRemarks = report.withoutRemarks.addIssues issues := by
  have said : (issues.flatMap report.messagesOf).filter (!·.isRemark) =
      issues.flatMap report.withoutRemarks.messagesOf := by
    simp only [List.filter_flatMap, filter_messagesOf, messagesOf_withoutRemarks]
  unfold addIssues say
  rw [← said]
  simp [withoutRemarks]

theorem withoutRemarks_addRuntimeError (report : Report) (message : String) (line : Nat) :
    (report.addRuntimeError message line).withoutRemarks =
      report.withoutRemarks.addRuntimeError message line := by
  simp [withoutRemarks, addRuntimeError, say, Message.isRemark]

theorem withoutRemarks_addTooDeep (report : Report) (stop : Mark) :
    (report.addTooDeep stop).withoutRemarks = report.withoutRemarks.addTooDeep stop :=
  report.withoutRemarks_addIssues _

/-- The same tokens are read. -/
theorem scan_withoutRemarks (report : Report) (text : String) :
    report.withoutRemarks.scan text =
      ((report.scan text).1, (report.scan text).2.withoutRemarks) := by
  simp only [scan, withoutRemarks_note, withoutRemarks_addIssues]

theorem parse_withoutRemarks (report : Report) (stream : TokenStream) (result : Parse) :
    report.withoutRemarks.parse stream result =
      (report.parse stream result).withoutRemarks := by
  unfold parse
  cases result.statements with
  | some statements => simp only [withoutRemarks_note, withoutRemarks_addIssues]
  | none => simp only [withoutRemarks_addTooDeep, withoutRemarks_addIssues]

theorem resolve_withoutRemarks (report : Report) (stream : TokenStream) (resolution : Resolution)
    (recorded : Nat) :
    report.withoutRemarks.resolve stream resolution recorded =
      (report.resolve stream resolution recorded).withoutRemarks := by
  unfold resolve
  cases resolution.statements with
  | some statements => simp only [withoutRemarks_note, withoutRemarks_addIssues]
  | none => simp only [withoutRemarks_addTooDeep, withoutRemarks_addIssues]

end Report

/-- The outcome of a check as it would be if the report were not verbose. -/
def Checked.withoutRemarks (checked : Checked) : Checked :=
  { checked with report := checked.report.withoutRemarks }

/-- A check finds the same whether or not the report is verbose. -/
theorem check_withoutRemarks (host : Host) (text : String) (report : Report) (recorded : Nat) :
    check host text report.withoutRemarks recorded =
      (check host text report recorded).withoutRemarks := by
  unfold check
  simp only [Report.scan_withoutRemarks, Report.parse_withoutRemarks,
    Report.resolve_withoutRemarks, Report.sick_withoutRemarks]
  cases (parseWithin host.nesting (report.scan text).1.tokens).statements with
  | none => rfl
  | some statements =>
      dsimp only
      split
      · rfl
      split
      · rfl
      · rfl

namespace Session

/-- The session as it would be if its report were not verbose. -/
def withoutRemarks (session : Session) : Session :=
  { session with report := session.report.withoutRemarks }

/-- What comes of a session as it would be if its report were not verbose. -/
def plainly {α : Type} (outcome : Session × α) : Session × α :=
  (outcome.1.withoutRemarks, outcome.2)

variable (host : Host) (session : Session)

theorem setSource_withoutRemarks (text : String) :
    session.withoutRemarks.setSource text = (session.setSource text).withoutRemarks := rfl

theorem check_withoutRemarks (text : String) :
    session.withoutRemarks.check host text = plainly (session.check host text) := by
  unfold check
  have same : LoxLang.check host text session.withoutRemarks.report
      session.withoutRemarks.recorded =
        (LoxLang.check host text session.report session.recorded).withoutRemarks :=
    LoxLang.check_withoutRemarks host text session.report session.recorded
  rw [same]
  rfl

theorem interpret_withoutRemarks (statements : List (Stmt Site)) :
    session.withoutRemarks.interpret host statements =
      plainly (session.interpret host statements) := by
  have same : session.withoutRemarks.machine = session.machine := rfl
  unfold interpret
  rw [same]
  cases Run.program host statements session.machine with
  | ok _ machine => rfl
  | error stop machine =>
      cases stop with
      | error error =>
          simp only [plainly, withoutRemarks, Report.withoutRemarks_addRuntimeError]
      | _ => rfl

theorem finish_withoutRemarks (outcome : Session × Option Stop) :
    finish (plainly outcome) = plainly (finish outcome) := by
  obtain ⟨ran, stop⟩ := outcome
  cases stop <;> rfl

theorem run_withoutRemarks (text : String) :
    session.withoutRemarks.run host text = plainly (session.run host text) := by
  have checks := (session.setSource text).check_withoutRemarks host text
  rw [← setSource_withoutRemarks] at checks
  cases outcome : (session.setSource text).check host text with
  | mk checked result =>
      rw [outcome] at checks
      cases result with
      | error phase =>
          rw [run_eq_of_rejected outcome, run_eq_of_rejected checks]
          simp only [plainly, withoutRemarks, Report.withoutRemarks_note]
      | ok statements =>
          rw [run_eq outcome, run_eq checks, interpret_withoutRemarks, finish_withoutRemarks]

theorem evaluate_withoutRemarks (text : String) :
    session.withoutRemarks.evaluate host text = plainly (session.evaluate host text) := by
  have checks := session.check_withoutRemarks host (text ++ ";")
  unfold evaluate
  rw [checks]
  cases session.check host (text ++ ";") with
  | mk checked result =>
      cases result with
      | error phase => rfl
      | ok statements =>
          simp only [plainly]
          cases firstExpression statements with
          | none => rfl
          | some expr =>
              have same : checked.withoutRemarks.machine = checked.machine := rfl
              simp only [same]
              cases Run.eval host host.room expr checked.machine <;> rfl

theorem prepared_withoutRemarks (step : Step) :
    session.withoutRemarks.prepared step = (session.prepared step).withoutRemarks := by
  unfold prepared
  split <;> rfl

theorem act_withoutRemarks (action : Action) :
    session.withoutRemarks.act host action = plainly (session.act host action) := by
  cases action with
  | run text =>
      simp only [act, run_withoutRemarks]
      rfl
  | check text =>
      simp only [act, check_withoutRemarks]
      rfl
  | evaluate text =>
      simp only [act, evaluate_withoutRemarks]
      rfl

theorem step_withoutRemarks (step : Step) :
    session.withoutRemarks.step host step = plainly (session.step host step) := by
  unfold Session.step
  rw [prepared_withoutRemarks, act_withoutRemarks]

theorem steps_withoutRemarks (taken : List Step) :
    session.withoutRemarks.steps host taken = (session.steps host taken).map plainly := by
  induction taken generalizing session with
  | nil => rfl
  | cons first rest induction =>
      simp only [steps, List.map_cons, step_withoutRemarks]
      exact congrArg _ (induction _)

end Session

/-- Verbosity adds remarks and nothing else.  A text is read into the same tokens, and what is
found wrong with its tokens, its statements and its scopes, what its statements are and which
references have which distance, does not depend on whether the report is verbose.  A session that is
not verbose gives, step by step, the answers of the verbose one and leaves the same machine; its
report is the verbose one without notes and illustrations. -/
theorem verbosity_adds_remarks (host : Host) :
    (∀ (report : Report) text, report.withoutRemarks.scan text =
      ((report.scan text).1, (report.scan text).2.withoutRemarks)) ∧
    (∀ (report : Report) stream result, report.withoutRemarks.parse stream result =
      (report.parse stream result).withoutRemarks) ∧
    (∀ text report recorded, check host text report.withoutRemarks recorded =
      (check host text report recorded).withoutRemarks) ∧
    ∀ taken, (Session.fresh false).steps host taken =
      ((Session.fresh true).steps host taken).map Session.plainly :=
  ⟨Report.scan_withoutRemarks, Report.parse_withoutRemarks, check_withoutRemarks host,
    (Session.fresh true).steps_withoutRemarks host⟩

end LoxLang
