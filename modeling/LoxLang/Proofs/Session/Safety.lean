import LoxLang.Proofs.Session.Soundness

/-!
# What sessions never do

Whatever was run before, a text that is accepted runs without a defect: it ends,
or it stops with an error of the program, for lack of room, or for lack of
patience.  And wherever it is on its way, the frames around the place are those
that its scopes were worked out for.
-/

namespace LoxLang

/-- Checked statements never go wrong in a session: they never stop with a defect, whether they are
executed or the first expression is evaluated, and no statement of the top level returns. -/
structure NeverWrong (host : Host) (session : Session) (statements : List (Stmt Site)) : Prop where
  interpreted : ∀ defect, (session.interpret host statements).2 ≠ some (.defect defect)
  evaluated : ∀ expr, Session.firstExpression statements = some expr → ∀ defect after,
    Run.eval host host.room expr session.machine ≠ .error (.defect defect) after
  topLevel : ∀ before first rest, statements = before ++ first :: rest → ∀ reached,
    Run.program host before session.machine = .ok () reached → ∀ completion after,
    Run.exec host host.room first reached = .ok completion after → completion = .normal

namespace Chronicle

variable {host : Host} {chronicle : Chronicle} {statements : List (Stmt Site)}

/-- A statement of the top level that is reached does not return. -/
theorem Sound.topLevel (sound : chronicle.Sound) (ready : chronicle.Ready statements)
    {before rest : List (Stmt Site)} {first : Stmt Site}
    (split : statements = before ++ first :: rest)
    {reached after : Machine} {completion : Completion}
    (reaches : Run.program host before chronicle.session.machine = .ok () reached)
    (ends : Run.exec host host.room first reached = .ok completion after) :
    completion = .normal := by
  obtain ⟨scopeOf, worldSound⟩ := sound.worlds chronicle.survey (.refl _)
  have laid := ready chronicle.survey (.refl _)
  rw [split] at laid
  have mirrors := worldSound.mirrors_top
  rw [← sound.atTop] at mirrors
  have programSafe := Watching.program_safe host worldSound mirrors rfl laid
  obtain ⟨notes, watchedReaches⟩ :=
    Watched.Retraces.of_ok (Watching.program_retraces host chronicle.root 0 before)
      (show Run.program host before chronicle.watched.state = .ok () reached from reaches)
  unfold Watching.Safe at programSafe
  rw [watchedReaches] at programSafe
  obtain ⟨later, same, leads, context, outside, laterMirrors, remaining⟩ := programSafe
  cases remaining with
  | cons firstLaid _ =>
      have firstSafe := Watching.exec_safe host host.room later context _ first leads.sound
        laterMirrors firstLaid
      have reachedMachine : later.machine = reached := congrArg Watched.state same
      have laterEnds : Run.exec host host.room first later.watched.state = .ok completion after :=
        by rwa [← reachedMachine] at ends
      obtain ⟨lastNotes, watchedEnds⟩ :=
        (Watching.exec_retraces host host.room _ first).of_ok laterEnds
      unfold Watching.Safe at firstSafe
      rw [watchedEnds] at firstSafe
      obtain ⟨_, _, _, _, normal, _⟩ := firstSafe
      exact normal outside

/-- Statements that are ready never go wrong. -/
theorem Sound.neverWrong (sound : chronicle.Sound) (ready : chronicle.Ready statements) :
    NeverWrong host chronicle.session statements where
  interpreted := by
    intro defect
    have same : (chronicle.interpret host statements).2 =
        (chronicle.session.interpret host statements).2 :=
      congrArg Prod.snd (plain_interpret statements)
    rw [← same]
    exact (sound.interpret host ready).2 defect
  evaluated := by
    intro expr first defect after evaluates
    have ends := sound.firstExpression host ready first
    have same := Watching.eval_retraces host host.room ((chronicle.root.child 0).child 0) expr
      chronicle.watched
    have start : chronicle.watched.state = chronicle.session.machine := rfl
    rw [start, evaluates] at same
    cases outcome : Watching.eval host host.room ((chronicle.root.child 0).child 0) expr
        chronicle.watched with
    | ok value last =>
        rw [outcome] at same
        cases same
    | error stop last =>
        rw [outcome] at same ends
        cases same
        exact ends.2 defect rfl
  topLevel := by
    intro before first rest split reached reaches completion after ends
    exact sound.topLevel ready split reaches ends

/-- What passes its check in a session with the same machine never goes wrong. -/
theorem Sound.accepted (sound : chronicle.Sound) {session checked : Session} {text : String}
    (reached : session.machine.silent = chronicle.session.machine.silent)
    (accepted : session.check host text = (checked, .ok statements)) :
    NeverWrong host checked statements := by
  have here : (chronicle.withSession session).Sound := sound.withSession reached
  obtain ⟨checkedSound, ready⟩ := here.check host text
  have plainCheck : plain ((chronicle.withSession session).check host text) =
    session.check host text := plain_check text
  have same := plainCheck.trans accepted
  have sameChecked : ((chronicle.withSession session).check host text).1.session = checked :=
    congrArg Prod.fst same
  rw [← sameChecked]
  exact checkedSound.neverWrong (ready statements (congrArg Prod.snd same))

end Chronicle

/-- Accepted texts never go wrong.  The machine is one that any steps have led to; what was printed
and reported makes no difference. -/
theorem accepted_never_wrong (host : Host) (verbose : Bool) (taken : List Session.Step)
    {session checked : Session} {text : String} {statements : List (Stmt Site)}
    (reached : session.machine.silent =
      ((Session.fresh verbose).after host taken).machine.silent)
    (accepted : session.check host text = (checked, .ok statements)) :
    NeverWrong host checked statements := by
  have sound := (Chronicle.Sound.fresh verbose).after host taken
  have sameSession : ((Chronicle.fresh verbose).after host taken).session =
    (Session.fresh verbose).after host taken := Chronicle.session_after taken
  rw [← sameSession] at reached
  exact sound.accepted reached accepted

/-- The session after `class A { f() { return this; } } A().g();` has stopped with an error, and
`class B < A { f() { return super.f; } } print B().f();` is accepted there. -/
theorem accepted_never_wrong_afterFault :
    let host := Host.standard fun _ => 0
    let faulty := "class A \x7b f() \x7b return this; \x7d \x7d A().g();"
    let session := (Session.fresh false).after host [⟨.run faulty, true⟩]
    let text := "class B < A \x7b f() \x7b return super.f; \x7d \x7d print B().f();"
    session.report.hadRuntimeError = true ∧ ∃ checked statements,
      session.check host text = (checked, .ok statements) ∧ statements.length = 2 ∧
        NeverWrong host checked statements := by
  intro host faulty session text
  have fault : session.report.hadRuntimeError = true := by decide +kernel
  have length : (session.check host text).2.toOption.map List.length = some 2 := by
    decide +kernel
  cases outcome : session.check host text with
  | mk checked result =>
      rw [outcome] at length
      cases result with
      | error phase => cases length
      | ok statements =>
          exact ⟨fault, checked, statements, rfl, Option.some.inj length,
            accepted_never_wrong host false _ rfl outcome⟩

/-- Runs mirror scopes.  In every session, at every moment at which a node is about to be evaluated
or executed, the frames are copies of the scopes that were open when the pass through the scopes
came to that node, which it did once. -/
theorem runs_mirror_scopes (host : Host) (verbose : Bool) (taken : List Session.Step) :
    let chronicle := (Chronicle.fresh verbose).after host taken
    chronicle.session = (Session.fresh verbose).after host taken ∧
      (chronicle.survey.visits.map Visit.address).Nodup ∧
      ∀ moment ∈ chronicle.history.moments, ∃ visit ∈ chronicle.survey.visits,
        moment.Mirrors chronicle.survey visit := by
  intro chronicle
  have sound : chronicle.Sound := (Chronicle.Sound.fresh verbose).after host taken
  obtain ⟨_, worldSound⟩ := sound.worlds chronicle.survey (.refl _)
  exact ⟨Chronicle.session_after taken, sound.distinct, worldSound.moments⟩

end LoxLang
