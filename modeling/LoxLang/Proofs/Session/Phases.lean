import LoxLang.Session

/-!
# Phases and statuses

The phases of a check share one report, which may hold issues from before.  The check fails
in the first phase after which the report holds an issue, and a run that ends has the status
that the report at its end tells.
-/

namespace LoxLang

namespace Report

@[simp] theorem issues_note (report : Report) (text : String) :
    (report.note text).issues = report.issues := by
  unfold note
  split <;> rfl

@[simp] theorem issues_addIssues (report : Report) (issues : List Issue) :
    (report.addIssues issues).issues = report.issues ++ issues := rfl

theorem sick_iff {report : Report} : report.sick = true ↔ report.issues ≠ [] := by
  simp [sick]

theorem sick_eq_false_iff {report : Report} : report.sick = false ↔ report.issues = [] := by
  simp [sick]

theorem sick_of_addTooDeep (report : Report) (stop : Mark) :
    (report.addTooDeep stop).sick = true := by
  simp [addTooDeep, sick_iff]

theorem issues_parse {report : Report} {stream : TokenStream} {result : Parse}
    {trees : List (Stmt Unit)} (parsed : result.statements = some trees) :
    (report.parse stream result).issues = report.issues ++ result.issues stream.stop := by
  unfold parse
  rw [parsed]
  simp

theorem issues_resolve {report : Report} {stream : TokenStream} {resolution : Resolution}
    {recorded : Nat} {statements : List (Stmt Site)}
    (resolved : resolution.statements = some statements) :
    (report.resolve stream resolution recorded).issues = report.issues ++ resolution.issues := by
  unfold resolve
  rw [resolved]
  simp

/-- Parsing and resolving do not take issues away. -/
theorem issues_prefix_parse (report : Report) (stream : TokenStream) (result : Parse) :
    report.issues <+: (report.parse stream result).issues := by
  unfold parse addTooDeep
  cases result.statements <;> simp

theorem issues_prefix_resolve (report : Report) (stream : TokenStream) (resolution : Resolution)
    (recorded : Nat) : report.issues <+: (report.resolve stream resolution recorded).issues := by
  unfold resolve addTooDeep
  cases resolution.statements <;> simp

theorem sick_mono {report later : Report} (grows : report.issues <+: later.issues)
    (sick : report.sick = true) : later.sick = true := by
  rw [sick_iff] at sick ⊢
  intro nothing
  rw [nothing] at grows
  exact sick (List.prefix_nil.1 grows)

end Report

/-! ## The phases of a check -/

/-- The report after the tokens of a text have been read. -/
def Report.afterScan (report : Report) (text : String) : Report := (report.scan text).2

/-- The report after the statements of a text have been read. -/
def Report.afterParse (report : Report) (host : Host) (text : String) : Report :=
  (report.afterScan text).parse (TokenStream.ofText text)
    (parseWithin host.nesting (TokenStream.ofText text).tokens)

/-- The report after the scopes of a text have been worked out, which takes its statements;
`recorded` counts the references found in earlier texts. -/
def Report.afterResolve (report : Report) (host : Host) (text : String) (recorded : Nat) : Report :=
  match (parseWithin host.nesting (TokenStream.ofText text).tokens).statements with
  | none => report.afterParse host text
  | some trees =>
      let resolution := resolveWithin host.scopeRoom trees
      (report.afterParse host text).resolve (TokenStream.ofText text) resolution
        (recorded + resolution.references.length)

section Check

variable {host : Host} {text : String} {report : Report} {recorded : Nat} {trees : List (Stmt Unit)}

theorem Report.issues_afterScan (report : Report) (text : String) :
    (report.afterScan text).issues = report.issues ++ TokenStream.issuesOf text := by
  simp [afterScan, scan]

theorem Report.issues_afterParse (report : Report)
    (read : (parseWithin host.nesting (TokenStream.ofText text).tokens).statements = some trees) :
    (report.afterParse host text).issues = report.issues ++ TokenStream.issuesOf text ++
      (parseWithin host.nesting (TokenStream.ofText text).tokens).issues
        (TokenStream.ofText text).stop := by
  rw [afterParse, issues_parse read, issues_afterScan]

theorem Report.issues_afterResolve (report : Report) {statements : List (Stmt Site)}
    (read : (parseWithin host.nesting (TokenStream.ofText text).tokens).statements = some trees)
    (resolution : (resolveWithin host.scopeRoom trees).statements = some statements) :
    (report.afterResolve host text recorded).issues = report.issues ++ TokenStream.issuesOf text ++
      (parseWithin host.nesting (TokenStream.ofText text).tokens).issues
        (TokenStream.ofText text).stop ++ (resolveWithin host.scopeRoom trees).issues := by
  simp only [afterResolve, read]
  rw [issues_resolve resolution, report.issues_afterParse read]

/-- A text of which the statements nest too deep is rejected, whatever is wrong besides. -/
theorem check_eq_of_unread
    (unread : (parseWithin host.nesting (TokenStream.ofText text).tokens).statements = none) :
    check host text report recorded = ⟨.error .parse, report.afterParse host text, []⟩ := by
  unfold check
  have streamEq : (report.scan text).1 = TokenStream.ofText text := rfl
  simp only [streamEq, unread]
  rfl

theorem sick_afterParse_of_unread
    (unread : (parseWithin host.nesting (TokenStream.ofText text).tokens).statements = none) :
    (report.afterParse host text).sick = true := by
  unfold Report.afterParse Report.parse
  rw [unread]
  exact Report.sick_of_addTooDeep _ _

theorem sick_afterResolve_of_unresolved
    (read : (parseWithin host.nesting (TokenStream.ofText text).tokens).statements = some trees)
    (unresolved : (resolveWithin host.scopeRoom trees).statements = none) :
    (report.afterResolve host text recorded).sick = true := by
  simp only [Report.afterResolve, read, Report.resolve, unresolved]
  exact Report.sick_of_addTooDeep _ _

/-- What is wrong after one phase is still wrong after the next. -/
theorem sick_afterParse (sick : (report.afterScan text).sick = true) :
    (report.afterParse host text).sick = true :=
  Report.sick_mono (Report.issues_prefix_parse _ _ _) sick

theorem sick_afterResolve (sick : (report.afterParse host text).sick = true) :
    (report.afterResolve host text recorded).sick = true := by
  unfold Report.afterResolve
  split
  · exact sick
  · exact Report.sick_mono (Report.issues_prefix_resolve _ _ _ _) sick

theorem check_eq_of_read
    (read : (parseWithin host.nesting (TokenStream.ofText text).tokens).statements = some trees) :
    check host text report recorded =
      let parsed := report.afterParse host text
      let resolved := report.afterResolve host text recorded
      let resolution := resolveWithin host.scopeRoom trees
      if (report.afterScan text).sick then ⟨.error .scan, parsed, []⟩
      else if parsed.sick then ⟨.error .parse, parsed, []⟩
      else
        ⟨match resolution.statements with
          | none => .error .resolve
          | some statements => if resolved.sick then .error .resolve else .ok statements,
          resolved, resolution.references⟩ := by
  have streamEq : (report.scan text).1 = TokenStream.ofText text := rfl
  simp only [check, Report.afterResolve, read, streamEq]
  rfl

/-- The four ends of a check.  The phase that fails is the first one after which the report is
sick. -/
theorem check_cases (report : Report) (recorded : Nat)
    (read : (parseWithin host.nesting (TokenStream.ofText text).tokens).statements = some trees) :
    let scanned := report.afterScan text
    let parsed := report.afterParse host text
    let resolved := report.afterResolve host text recorded
    let resolution := resolveWithin host.scopeRoom trees
    let checked := check host text report recorded
    (scanned.sick = true ∧ parsed.sick = true ∧ resolved.sick = true ∧
      checked = ⟨.error .scan, parsed, []⟩) ∨
    (scanned.sick = false ∧ parsed.sick = true ∧ resolved.sick = true ∧
      checked = ⟨.error .parse, parsed, []⟩) ∨
    (scanned.sick = false ∧ parsed.sick = false ∧ resolved.sick = true ∧
      checked = ⟨.error .resolve, resolved, resolution.references⟩) ∨
    (scanned.sick = false ∧ parsed.sick = false ∧ resolved.sick = false ∧
      ∃ statements, resolution.statements = some statements ∧
        checked = ⟨.ok statements, resolved, resolution.references⟩) := by
  simp only [check_eq_of_read read]
  cases scanSick : (report.afterScan text).sick with
  | true =>
      have parseSick : (report.afterParse host text).sick = true := sick_afterParse scanSick
      simp [parseSick, sick_afterResolve parseSick]
  | false =>
      cases parseSick : (report.afterParse host text).sick with
      | true => simp [sick_afterResolve parseSick]
      | false =>
          cases resolution : (resolveWithin host.scopeRoom trees).statements with
          | none => simp [sick_afterResolve_of_unresolved read resolution]
          | some statements =>
              cases (report.afterResolve host text recorded).sick <;> simp

/-- A text passes its check if the report is healthy afterwards, and only then. -/
theorem isOk_check_iff :
    (∃ statements, (check host text report recorded).outcome = .ok statements) ↔
      (check host text report recorded).report.sick = false := by
  cases read : (parseWithin host.nesting (TokenStream.ofText text).tokens).statements with
  | none => simp [check_eq_of_unread read, sick_afterParse_of_unread read]
  | some trees =>
      obtain ⟨_, sick, _, ends⟩ | ⟨_, sick, _, ends⟩ | ⟨_, _, sick, ends⟩ |
          ⟨_, _, healthy, statements, _, ends⟩ :=
        check_cases report recorded read
      · simp [ends, sick]
      · simp [ends, sick]
      · simp [ends, sick]
      · simp [ends, healthy]

end Check

/-! ## The status of a run -/

/-- How a run ends once the statements have been executed. -/
def Session.finish : Session × Option Stop → Session × Ending
  | (ran, some stop) => (ran, .interrupted stop)
  | (ran, none) => (ran, .finished (if ran.report.hadRuntimeError then .softwareError else .ok))

@[simp] theorem Session.finish_fst (outcome : Session × Option Stop) :
    (finish outcome).1 = outcome.1 := by
  obtain ⟨ran, stop⟩ := outcome
  cases stop <;> rfl

theorem Session.finish_eq_finished {outcome : Session × Option Stop} {ran : Session}
    {status : ExitStatus} (ends : finish outcome = (ran, .finished status)) :
    outcome = (ran, none) ∧
      status = if ran.report.hadRuntimeError then .softwareError else .ok := by
  obtain ⟨last, stop⟩ := outcome
  cases stop with
  | some stop => cases ends
  | none =>
      cases ends
      exact ⟨rfl, rfl⟩

theorem Session.run_eq_of_rejected {host : Host} {session checked : Session} {text : String}
    {phase : Phase}
    (rejected : (session.setSource text).check host text = (checked, .error phase)) :
    session.run host text =
      ({ checked with
          report := checked.report.note ("Stopped after the " ++ phase.name ++ " phase") },
        .finished .dataError) := by
  unfold run
  rw [rejected]

theorem Session.run_eq {host : Host} {session checked : Session} {text : String}
    {statements : List (Stmt Site)}
    (passed : (session.setSource text).check host text = (checked, .ok statements)) :
    session.run host text = finish (checked.interpret host statements) := by
  unfold run
  rw [passed]
  dsimp only
  cases checked.interpret host statements with
  | mk ran stop => cases stop <;> rfl

namespace Session

variable {host : Host} {session : Session}

theorem issues_interpret (host : Host) (session : Session) (statements : List (Stmt Site)) :
    (session.interpret host statements).1.report.issues = session.report.issues := by
  unfold interpret
  split <;> rfl

theorem isOk_check_iff (host : Host) (session : Session) (text : String) :
    (∃ statements, (session.check host text).2 = .ok statements) ↔
      (session.check host text).1.report.sick = false :=
  LoxLang.isOk_check_iff

/-- A run that ends tells its status by what its report holds then. -/
theorem run_status {text : String} {ran : Session} {status : ExitStatus}
    (ends : session.run host text = (ran, .finished status)) :
    status = if ran.report.sick then .dataError
      else if ran.report.hadRuntimeError then .softwareError else .ok := by
  have verdict := isOk_check_iff host (session.setSource text) text
  cases outcome : (session.setSource text).check host text with
  | mk checked result =>
      rw [outcome] at verdict
      cases result with
      | error phase =>
          rw [run_eq_of_rejected outcome] at ends
          cases ends
          have sick : checked.report.sick = true := by simpa using verdict
          have stillSick : (checked.report.note ("Stopped after the " ++ phase.name ++
              " phase")).sick = true :=
            Report.sick_mono (by simp) sick
          simp [stillSick]
      | ok statements =>
          rw [run_eq outcome] at ends
          obtain ⟨interpreted, told⟩ := finish_eq_finished ends
          have healthy : checked.report.issues = [] :=
            Report.sick_eq_false_iff.1 (verdict.1 ⟨statements, rfl⟩)
          -- what runs does not add to the issues
          have stillHealthy : ran.report.sick = false := by
            have same := issues_interpret host checked statements
            rw [interpreted, healthy] at same
            exact Report.sick_eq_false_iff.2 same
          simp [told, stillHealthy]

end Session

/-- What a status says about the report at the end of a run. -/
structure ExitStatus.FitsReport (status : ExitStatus) (report : Report) : Prop where
  dataError : status.code = 65 ↔ report.sick = true
  softwareError : status.code = 70 ↔ report.sick = false ∧ report.hadRuntimeError = true
  ok : status.code = 0 ↔ report.sick = false ∧ report.hadRuntimeError = false

theorem ExitStatus.fitsReport (report : Report) :
    FitsReport (if report.sick then .dataError
      else if report.hadRuntimeError then .softwareError else .ok) report := by
  constructor <;> cases report.sick <;> cases report.hadRuntimeError <;> simp [code]

/-- Statuses and phases tell the truth, for a text of which the statements do not nest too deep to
be read.  Whatever the report holds beforehand, it holds in addition what each phase finds; a check
fails in the first phase after which the report holds an issue, and has the statements if there is
no such phase; and a run that ends has the status that its report tells then. -/
theorem phases_tell_the_truth (host : Host) (session : Session) (text : String)
    {trees : List (Stmt Unit)}
    (read : (parseWithin host.nesting (TokenStream.ofText text).tokens).statements = some trees) :
    let result := parseWithin host.nesting (TokenStream.ofText text).tokens
    let resolution := resolveWithin host.scopeRoom trees
    let scanned := session.report.afterScan text
    let parsed := session.report.afterParse host text
    let resolved := session.report.afterResolve host text session.recorded
    let (checked, outcome) := session.check host text
    scanned.issues = session.report.issues ++ TokenStream.issuesOf text ∧
    parsed.issues = scanned.issues ++ result.issues (TokenStream.ofText text).stop ∧
    (∀ statements, resolution.statements = some statements →
      resolved.issues = parsed.issues ++ resolution.issues) ∧
    checked.report = (if parsed.sick then parsed else resolved) ∧
    (outcome = .error .scan ↔ scanned.sick = true) ∧
    (outcome = .error .parse ↔ scanned.sick = false ∧ parsed.sick = true) ∧
    (outcome = .error .resolve ↔ parsed.sick = false ∧ resolved.sick = true) ∧
    ((∃ statements, outcome = .ok statements) ↔ checked.report.sick = false) ∧
    (∀ statements, outcome = .ok statements → resolution.statements = some statements) ∧
    ∀ ran status, session.run host text = (ran, .finished status) →
      status.FitsReport ran.report := by
  have runs : ∀ ran status, session.run host text = (ran, .finished status) →
      status.FitsReport ran.report :=
    fun ran status ends => Session.run_status ends ▸ ExitStatus.fitsReport ran.report
  have scannedIssues := session.report.issues_afterScan text
  have parsedIssues := session.report.issues_afterParse read
  refine ⟨scannedIssues, ?_, ?_, ?_⟩
  · rw [parsedIssues, scannedIssues]
  · intro statements resolution
    rw [session.report.issues_afterResolve read resolution, parsedIssues]
  obtain ⟨scanSick, parseSick, _, ends⟩ | ⟨scanSick, parseSick, _, ends⟩ |
      ⟨scanSick, parseSick, resolveSick, ends⟩ |
      ⟨scanSick, parseSick, resolveSick, statements, resolution, ends⟩ :=
    check_cases session.report session.recorded read
  · simpa [Session.check, ends, scanSick, parseSick] using runs
  · simpa [Session.check, ends, scanSick, parseSick] using runs
  · simpa [Session.check, ends, scanSick, parseSick, resolveSick] using runs
  · simpa [Session.check, ends, scanSick, parseSick, resolveSick, resolution] using runs

/-- A run-time error is left over from the text before.  The next text passes its check, and the
status of its run is that of the error, since the report still tells it. -/
theorem phases_tell_the_truth_leftOver :
    let host := Host.standard fun _ => 0
    let session := ((Session.fresh false).run host "-nil;").1
    session.report.hadRuntimeError = true ∧
      (∃ statements, (session.check host "print 1;").2 = .ok statements) ∧
      ∃ ran, session.run host "print 1;" = (ran, .finished .softwareError) ∧
        ExitStatus.softwareError.FitsReport ran.report := by
  intro host session
  have leftOver : session.report.hadRuntimeError = true := by decide +kernel
  have healthy : (session.check host "print 1;").1.report.sick = false := by decide +kernel
  have ends : (session.run host "print 1;").2 = .finished .softwareError := by decide +kernel
  have isRead : (parseWithin host.nesting
      (TokenStream.ofText "print 1;").tokens).statements.isSome = true := by decide +kernel
  obtain ⟨trees, read⟩ := Option.isSome_iff_exists.1 isRead
  obtain ⟨_, _, _, _, _, _, _, passes, _, runs⟩ :=
    phases_tell_the_truth host session "print 1;" read
  exact ⟨leftOver, passes.2 healthy, _, Prod.ext rfl ends, runs _ _ (Prod.ext rfl ends)⟩

end LoxLang
