import LoxLang.Proofs.Run.Observance
import LoxLang.Proofs.Session.Chronicle

/-!
# Sessions observe protocols

If a protocol holds of the machine on which nothing has run, and lets every accepted
text be run at the top level, it is observed by every session between its steps.  If it
is that of a discipline, it is so at each moment of the runs, too.
-/

namespace LoxLang

/-- What a protocol is asked beyond single steps. -/
structure Protocol.Welcomes (law : Protocol) : Prop where
  fresh : law.Ok ⟨Machine.fresh, History.blank⟩
  accepted : ∀ {host text statements trees state running},
    Accepted host text statements trees state → law.Ok running →
      ∀ s ∈ statements, law.Fits running globalFrame (.stmt s)

theorem Protocol.Welcomes.always {law : Protocol} (welcomes : law.Welcomes) :
    law.always.Welcomes where
  fresh := .blank welcomes.fresh
  accepted accepted always := welcomes.accepted accepted always.ok

/-- What a discipline is asked beyond single steps. -/
structure Discipline.Welcomes (law : Discipline) : Prop where
  fresh : law.Ok Machine.fresh
  accepted : ∀ {host text statements trees state machine},
    Accepted host text statements trees state → law.Ok machine →
      ∀ s ∈ statements, law.Fits machine globalFrame (.stmt s)

theorem Discipline.Welcomes.protocol {law : Discipline} (welcomes : law.Welcomes) :
    law.protocol.Welcomes where
  fresh := .blank welcomes.fresh
  accepted accepted always := welcomes.accepted accepted always.ok

namespace Chronicle

variable {law : Protocol} (welcomes : law.Welcomes) (host : Host) {chronicle : Chronicle}

/-- The machine of the session and those at the moments of its runs, the latest first. -/
def machines (chronicle : Chronicle) : List Machine :=
  chronicle.session.machine :: chronicle.history.moments.map Moment.machine

theorem machines_succ {index : Nat} {moment : Moment}
    (there : chronicle.history.moments[index]? = some moment) :
    chronicle.machines[index + 1]? = some moment.machine := by
  rw [machines, List.getElem?_cons_succ, List.getElem?_map, there, Option.map_some]

/-- The two machines are among those of the chronicle, and the first became the second, or is that
one. -/
def Becomes (chronicle : Chronicle) (earlier later : Machine) : Prop :=
  ∃ near far : Nat, near ≤ far ∧ chronicle.machines[near]? = some later ∧
    chronicle.machines[far]? = some earlier

/-- Everything is in order, and the machine is at the top level. -/
structure Heeds (law : Protocol) (chronicle : Chronicle) : Prop where
  ok : law.Ok chronicle.watched
  atTop : chronicle.session.machine.current = globalFrame

/-- The discipline is observed at all moments. -/
def Observes (law : Discipline) (chronicle : Chronicle) : Prop := chronicle.Heeds law.protocol

/-- The statements may be run at the top level. -/
def Fits (law : Protocol) (chronicle : Chronicle) (statements : List (Stmt Site)) : Prop :=
  ∀ s ∈ statements, law.Fits chronicle.watched chronicle.session.machine.current (.stmt s)

/-- The expression of the first statement lies directly in it. -/
theorem Fits.firstExpression {statements : List (Stmt Site)}
    {expr : Expr Site} (fits : chronicle.Fits law statements)
    (first : Session.firstExpression statements = some expr) :
    law.Fits chronicle.watched chronicle.session.machine.current (.expr expr) := by
  unfold Session.firstExpression at first
  split at first
  · cases first
    exact law.inside 0 (fits _ List.mem_cons_self) rfl rfl
  · cases first
    exact law.inside 0 (fits _ List.mem_cons_self) rfl rfl
  · cases first

namespace Heeds

include welcomes in
theorem fresh (verbose : Bool) : (Chronicle.fresh verbose).Heeds law :=
  ⟨welcomes.fresh, rfl⟩

theorem withSession (heeds : chronicle.Heeds law) {session : Session}
    (same : session.machine.silent = chronicle.session.machine.silent) :
    (chronicle.withSession session).Heeds law := by
  have current : session.machine.current = chronicle.session.machine.current :=
    congrArg (·.current) same
  have leads : law.Leads chronicle.watched (chronicle.withSession session).watched :=
    law.rest heeds.ok (congrArg (·.forest) same) (congrArg (·.objects) same)
      (Nat.le_of_eq (congrArg (·.serial) same).symm) rfl
  exact ⟨leads.ok, current.trans heeds.atTop⟩

/-- What a part of a run that was begun at the top level leaves behind. -/
theorem left (heeds : chronicle.Heeds law) {after : Running}
    (led : law.Led chronicle.watched after) : (chronicle.left after).Heeds law :=
  ⟨led.ok, led.current.trans heeds.atTop⟩

include welcomes in
/-- A check changes nothing on the machine, and what it accepts may be run. -/
theorem check (heeds : chronicle.Heeds law) (text : String) :
    (chronicle.check host text).1.Heeds law ∧ ∀ statements,
      (chronicle.check host text).2 = .ok statements →
      (chronicle.check host text).1.Fits law statements := by
  unfold Chronicle.check
  cases outcome : chronicle.session.check host text with
  | mk session result =>
      have sameMachine : session.machine = chronicle.session.machine :=
        congrArg (fun outcome => outcome.1.machine) outcome.symm
      have checked : (chronicle.withSession session).Heeds law :=
        heeds.withSession (congrArg Machine.silent sameMachine)
      cases result with
      | error phase => exact ⟨checked, nofun⟩
      | ok statements =>
          have passed : (LoxLang.check host text chronicle.session.report
              chronicle.session.recorded).outcome = .ok statements :=
            congrArg Prod.snd outcome
          obtain ⟨trees, state, accepted⟩ := Accepted.of_check passed
          obtain ⟨notes, _, same⟩ := accept_eq (chronicle.withSession session) accepted
          simp only [same]
          refine ⟨⟨checked.ok, checked.atTop⟩, ?_⟩
          rintro found ⟨⟩ s member
          have fits := welcomes.accepted accepted checked.ok s member
          rwa [← checked.atTop] at fits

theorem interpret (heeds : chronicle.Heeds law) {statements : List (Stmt Site)}
    (fits : chronicle.Fits law statements) :
    (chronicle.interpret host statements).1.Heeds law := by
  have keeps : law.Keeps chronicle.watched
      (Watching.program host chronicle.root 0 statements) fun _ _ => True :=
    .program host heeds.ok fits
  unfold Chronicle.interpret
  cases outcome : Watching.program host chronicle.root 0 statements chronicle.watched with
  | ok _ after => exact heeds.left (keeps.of_ok outcome).1
  | error stop after =>
      have left := heeds.left (keeps.of_error outcome)
      cases stop with
      | error error => exact left.withSession rfl
      | defect defect => exact left
      | overflow => exact left
      | outOfPatience => exact left

include welcomes in
theorem run (heeds : chronicle.Heeds law) (text : String) :
    (chronicle.run host text).1.Heeds law := by
  have sourced : (chronicle.withSession (chronicle.session.setSource text)).Heeds law :=
    heeds.withSession rfl
  obtain ⟨checked, fits⟩ := sourced.check welcomes host text
  unfold Chronicle.run
  cases outcome : (chronicle.withSession (chronicle.session.setSource text)).check host text with
  | mk after result =>
      rw [outcome] at checked fits
      cases result with
      | error phase => exact checked.withSession rfl
      | ok statements =>
          have ran := checked.interpret host (fits statements rfl)
          dsimp only
          cases interpreted : after.interpret host statements with
          | mk last stop =>
              rw [interpreted] at ran
              cases stop <;> exact ran

include welcomes in
theorem evaluate (heeds : chronicle.Heeds law) (text : String) :
    (chronicle.evaluate host text).1.Heeds law := by
  obtain ⟨checked, fits⟩ := heeds.check welcomes host (text ++ ";")
  unfold Chronicle.evaluate
  cases outcome : chronicle.check host (text ++ ";") with
  | mk after result =>
      rw [outcome] at checked fits
      cases result with
      | error phase => exact checked
      | ok statements =>
          dsimp only
          cases first : Session.firstExpression statements with
          | none => exact checked
          | some expr =>
              have ready : after.Fits law statements := fits statements rfl
              have keeps : law.Keeps after.watched
                  (Watching.eval host host.room ((after.root.child 0).child 0) expr) law.Good :=
                .eval host host.room checked.ok (ready.firstExpression first)
              dsimp only
              cases evaluated : Watching.eval host host.room ((after.root.child 0).child 0) expr
                  after.watched with
              | ok value last => exact checked.left (keeps.of_ok evaluated).1
              | error stop last => exact checked.left (keeps.of_error evaluated)

include welcomes in
theorem step (heeds : chronicle.Heeds law) (step : Session.Step) :
    (chronicle.step host step).1.Heeds law := by
  have prepared : (chronicle.withSession (chronicle.session.prepared step)).Heeds law := by
    apply heeds.withSession
    unfold Session.prepared
    split <;> rfl
  unfold Chronicle.step
  cases step.action with
  | run text => exact prepared.run welcomes host text
  | check text => exact (prepared.check welcomes host text).1
  | evaluate text => exact prepared.evaluate welcomes host text

include welcomes in
theorem after (heeds : chronicle.Heeds law) (taken : List Session.Step) :
    (chronicle.after host taken).Heeds law := by
  induction taken generalizing chronicle with
  | nil => exact heeds
  | cons first rest induction => exact induction (heeds.step welcomes host first)

end Heeds

namespace Observes

variable {law : Discipline}

theorem inOrder (observes : chronicle.Observes law) : law.InOrder chronicle.watched :=
  .of_always (Heeds.ok observes)

theorem fresh (welcomes : law.Welcomes) (verbose : Bool) :
    (Chronicle.fresh verbose).Observes law :=
  Heeds.fresh welcomes.protocol verbose

theorem after (welcomes : law.Welcomes) (host : Host) (observes : chronicle.Observes law)
    (taken : List Session.Step) : (chronicle.after host taken).Observes law :=
  Heeds.after welcomes.protocol host observes taken

theorem ordered (observes : chronicle.Observes law) :
    chronicle.machines.Pairwise fun later earlier => law.Follows earlier later := by
  refine List.pairwise_cons.2 ⟨?_, List.pairwise_map.2 observes.inOrder.ordered⟩
  intro machine member
  obtain ⟨moment, isMoment, rfl⟩ := List.mem_map.1 member
  exact observes.inOrder.since moment isMoment

theorem ok (observes : chronicle.Observes law) :
    ∀ machine ∈ chronicle.machines, law.Ok machine := by
  refine List.forall_mem_cons.2 ⟨observes.inOrder.ok, ?_⟩
  intro machine member
  obtain ⟨moment, isMoment, rfl⟩ := List.mem_map.1 member
  exact (observes.inOrder.suits moment isMoment).ok

/-- What is true of a machine of a chronicle and of one that becomes of it. -/
theorem becomes (observes : chronicle.Observes law) {earlier later : Machine}
    (becomes : chronicle.Becomes earlier later) :
    law.Ok earlier ∧ law.Leads earlier later := by
  obtain ⟨near, far, inOrder, isLater, isEarlier⟩ := becomes
  refine ⟨observes.ok earlier (List.mem_of_getElem? isEarlier), ?_,
    observes.ok later (List.mem_of_getElem? isLater)⟩
  rcases Nat.eq_or_lt_of_le inOrder with rfl | before
  · cases isLater.symm.trans isEarlier
    exact law.refl _
  · obtain ⟨nearInside, rfl⟩ := List.getElem?_eq_some_iff.1 isLater
    obtain ⟨farInside, rfl⟩ := List.getElem?_eq_some_iff.1 isEarlier
    exact List.pairwise_iff_getElem.1 observes.ordered near far nearInside farInside before

end Observes

end Chronicle

end LoxLang
