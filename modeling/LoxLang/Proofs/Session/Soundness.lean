import LoxLang.Proofs.Run.Soundness
import LoxLang.Proofs.Scope.StatementLayout
import LoxLang.Proofs.Session.Chronicle

/-!
# Sound sessions

Between the steps of a session its machine is in a sound world, whatever texts
were accepted, rejected, or stopped half-way before.  The scopes of a text that
is accepted later make no difference to this, since notes on scopes are only
added.
-/

namespace LoxLang

/-- Nothing that was noted on scopes is missing. -/
structure Survey.Extends (later earlier : Survey) : Prop where
  put : earlier.put <:+ later.put
  visits : earlier.visits <:+ later.visits

theorem Survey.Extends.refl (survey : Survey) : survey.Extends survey :=
  ⟨List.suffix_refl _, List.suffix_refl _⟩

theorem Survey.Extends.trans {first second third : Survey} (later : third.Extends second)
    (earlier : second.Extends first) : third.Extends first :=
  ⟨earlier.put.trans later.put, earlier.visits.trans later.visits⟩

/-- The context of the statements of a program. -/
def Context.top : Context := ⟨[], [], .none, .none⟩

theorem World.Sound.mirrors_top {survey : Survey} {world : World} (sound : world.Sound survey) :
    world.Mirrors globalFrame Context.top where
  present := sound.root
  lengths := rfl
  chain := ⟨[], sound.top, rfl, nofun⟩
  bound := by
    intro distance name holds
    obtain ⟨scope, there, _⟩ := holds
    cases there

theorem Forest.bindings_root {V : Type} (frame : FrameId) :
    (Forest.root : Forest V).bindings frame = Table.empty := by
  cases frame <;> rfl

/-- The world of the machine on which nothing is bound at all. -/
theorem World.Sound.bare (survey : Survey) :
    World.Sound survey
      ⟨⟨{ Machine.fresh with forest := Forest.root }, History.blank⟩, fun _ => 0⟩ where
  root := Nat.zero_lt_one
  top := rfl
  names := by
    intro frame inside notGlobal
    exact absurd (Nat.lt_one_iff.1 inside) notGlobal
  values := by
    intro frame name value found
    have found : ((Forest.root : Forest Value).bindings frame).get? name = some value := found
    rw [Forest.bindings_root] at found
    cases found
  classes := by
    intro frame value found
    have found : ((Forest.root : Forest Value).bindings frame).get? "super" = some value := found
    rw [Forest.bindings_root] at found
    cases found
  fields := by
    intro id name value found
    cases found
  backed := nofun

/-- In the world of the fresh machine only the primitive functions are bound. -/
theorem World.Sound.fresh (survey : Survey) :
    World.Sound survey ⟨⟨Machine.fresh, History.blank⟩, fun _ => 0⟩ := by
  have clockSound (world : World) : (Value.primitive .clock).Sound survey world := trivial
  have notSuper : Primitive.clock.name ≠ "super" := by decide
  exact ((bare survey).define globalFrame Primitive.clock.name
    (fun notGlobal => absurd rfl notGlobal) (clockSound _)
    fun isSuper => absurd isSuper notSuper).sound

namespace Chronicle

variable (host : Host) {chronicle : Chronicle}

/-- What is true of a chronicle between steps. -/
structure Sound (chronicle : Chronicle) : Prop where
  worlds : ∀ survey : Survey, survey.Extends chronicle.survey →
    ∃ scopeOf, World.Sound survey ⟨chronicle.watched, scopeOf⟩
  atTop : chronicle.session.machine.current = globalFrame
  distinct : (chronicle.survey.visits.map Visit.address).Nodup
  numbered : ∀ visit ∈ chronicle.survey.visits, visit.address.program ≤ chronicle.programs

/-- The statements are those of the latest program, and their scopes are known. -/
def Ready (chronicle : Chronicle) (statements : List (Stmt Site)) : Prop :=
  ∀ survey : Survey, survey.Extends chronicle.survey →
    Stmt.ListScoped survey Context.top chronicle.root 0 statements

/-- A part of a run has left everything in order, and has not stopped with a defect. -/
def EndsInOrder {α : Type} (chronicle : Chronicle) :
    EStateM.Result Stop (Watched Machine History) α → Prop
  | .ok _ after => (chronicle.left after).Sound
  | .error stop after => (chronicle.left after).Sound ∧ ∀ defect, stop ≠ .defect defect

namespace Sound

theorem fresh (verbose : Bool) : (Chronicle.fresh verbose).Sound where
  worlds survey _ := ⟨_, World.Sound.fresh survey⟩
  atTop := rfl
  distinct := List.nodup_nil
  numbered := nofun

theorem withSession (sound : chronicle.Sound) {session : Session}
    (same : session.machine.silent = chronicle.session.machine.silent) :
    (chronicle.withSession session).Sound where
  worlds := by
    intro survey extended
    obtain ⟨scopeOf, worldSound⟩ := sound.worlds survey extended
    have leads := worldSound.withMachine session.machine (congrArg (·.forest) same)
      (congrArg (·.serial) same) (congrArg (·.current) same) (by
        intro id name value found
        have objects : session.machine.objects = chronicle.session.machine.objects :=
          congrArg (·.objects) same
        unfold Machine.fields at found ⊢
        rw [objects] at found
        exact .inl found)
    exact ⟨scopeOf, leads.sound⟩
  atTop := by
    have current : session.machine.current = chronicle.session.machine.current :=
      congrArg (·.current) same
    exact current.trans sound.atTop
  distinct := sound.distinct
  numbered := sound.numbered

/-- When a text is accepted, its scopes are noted, and its statements are ready to be run. -/
theorem accept (sound : chronicle.Sound) {text : String} {statements : List (Stmt Site)}
    {trees : List (Stmt Unit)} {state : ScopeState}
    (accepted : Accepted host text statements trees state) :
    (chronicle.accept host text).1.Sound ∧ (chronicle.accept host text).2 = .ok statements ∧
      (chronicle.accept host text).1.Ready statements := by
  obtain ⟨notes, surveyed, same⟩ := accept_eq chronicle accepted
  rw [same]
  let root : Address := ⟨chronicle.programs + 1, []⟩
  have adds : Surveying.Adds (·.IsInside root (0 ≤ ·)) _ :=
    Surveying.each_adds (fun index => Surveying.stmt_adds host.scopeRoom (root.child index)) 0 trees
  obtain ⟨grows, added, visits, addedDistinct, inside⟩ := adds _ _ _ surveyed
  have ofProgram : ∀ visit ∈ added, visit.address.program = chronicle.programs + 1 :=
    fun visit member => (inside visit member).isWithin.1
  have extended : notes.Extends chronicle.survey := ⟨grows.put, grows.visits⟩
  refine ⟨⟨?_, sound.atTop, ?_, ?_⟩, rfl, ?_⟩
  · exact fun survey later => sound.worlds survey (later.trans extended)
  · rw [visits, List.map_append]
    apply List.nodup_append.2
    refine ⟨addedDistinct, sound.distinct, ?_⟩
    intro address isAdded other isOlder sameAddress
    obtain ⟨visit, member, rfl⟩ := List.mem_map.1 isAdded
    obtain ⟨older, olderMember, rfl⟩ := List.mem_map.1 isOlder
    have bound := sound.numbered older olderMember
    rw [← sameAddress, ofProgram visit member] at bound
    omega
  · intro visit member
    rw [visits] at member
    rcases List.mem_append.1 member with isAdded | isOlder
    · exact Nat.le_of_eq (ofProgram visit isAdded)
    · exact Nat.le_succ_of_le (sound.numbered visit isOlder)
  · intro survey later
    have endsWell : Surveying.EndsWell ⟨state, survey⟩ ⟨state, notes⟩ :=
      ⟨⟨List.suffix_refl _, later.put, later.visits⟩, accepted.harmless⟩
    exact (Surveying.program_accepted accepted.grammatical accepted.worded rfl surveyed
      endsWell).2

/-- A check leaves everything in order, and its statements ready if it accepts the text. -/
theorem check (sound : chronicle.Sound) (text : String) :
    (chronicle.check host text).1.Sound ∧ ∀ statements,
      (chronicle.check host text).2 = .ok statements →
      (chronicle.check host text).1.Ready statements := by
  unfold Chronicle.check
  cases outcome : chronicle.session.check host text with
  | mk session result =>
      have sameMachine : session.machine = chronicle.session.machine :=
        congrArg (fun outcome => outcome.1.machine) outcome.symm
      have checkedSound : (chronicle.withSession session).Sound :=
        sound.withSession (congrArg Machine.silent sameMachine)
      cases result with
      | error phase => exact ⟨checkedSound, nofun⟩
      | ok statements =>
          have passed : (LoxLang.check host text chronicle.session.report
              chronicle.session.recorded).outcome = .ok statements :=
            congrArg Prod.snd outcome
          obtain ⟨trees, state, accepted⟩ := Accepted.of_check passed
          obtain ⟨acceptedSound, same, ready⟩ := checkedSound.accept host accepted
          refine ⟨acceptedSound, fun found isFound => ?_⟩
          cases same.symm.trans isFound
          exact ready

/-- A part that is run safely at the top level leaves everything in order. -/
theorem afterPart {α : Type} (sound : chronicle.Sound) (part : Watching α)
    (safe : ∀ (survey : Survey) (world : World), survey.Extends chronicle.survey →
      world.watched = chronicle.watched → world.Sound survey →
      world.Mirrors world.machine.current Context.top →
      Watching.Safe survey world part fun _ _ => True) :
    chronicle.EndsInOrder (part chronicle.watched) := by
  have safely (survey : Survey) (extended : survey.Extends chronicle.survey) :
      ∃ world : World, world.watched = chronicle.watched ∧
        Watching.Safe survey world part fun _ _ => True := by
    obtain ⟨scopeOf, worldSound⟩ := sound.worlds survey extended
    have mirrors := worldSound.mirrors_top
    rw [← sound.atTop] at mirrors
    exact ⟨_, rfl, safe survey _ extended rfl worldSound mirrors⟩
  have leftSound {after : Watched Machine History}
      (led : ∀ survey : Survey, survey.Extends chronicle.survey →
        ∃ world later : World, world.watched = chronicle.watched ∧ later.watched = after ∧
          world.Leads survey later) : (chronicle.left after).Sound := by
    refine ⟨?_, ?_, sound.distinct, sound.numbered⟩
    · intro survey extended
      obtain ⟨_, later, _, same, leads⟩ := led survey extended
      subst same
      exact ⟨later.scopeOf, leads.sound⟩
    · obtain ⟨world, later, start, same, leads⟩ := led _ (.refl _)
      subst same
      have current : later.machine.current = chronicle.session.machine.current := by
        rw [leads.current]
        exact congrArg (·.state.current) start
      exact current.trans sound.atTop
  cases outcome : part chronicle.watched with
  | ok result after =>
      apply leftSound
      intro survey extended
      obtain ⟨world, start, isSafe⟩ := safely survey extended
      unfold Watching.Safe at isSafe
      rw [start, outcome] at isSafe
      obtain ⟨later, same, leads, _⟩ := isSafe
      exact ⟨world, later, start, same, leads⟩
  | error stop after =>
      refine ⟨leftSound ?_, ?_⟩
      · intro survey extended
        obtain ⟨world, start, isSafe⟩ := safely survey extended
        unfold Watching.Safe at isSafe
        rw [start, outcome] at isSafe
        obtain ⟨_, later, same, leads⟩ := isSafe
        exact ⟨world, later, start, same, leads⟩
      · obtain ⟨world, start, isSafe⟩ := safely _ (.refl _)
        unfold Watching.Safe at isSafe
        rw [start, outcome] at isSafe
        exact isSafe.1

/-- Statements that are ready are executed without a defect. -/
theorem interpret (sound : chronicle.Sound) {statements : List (Stmt Site)}
    (ready : chronicle.Ready statements) :
    (chronicle.interpret host statements).1.Sound ∧
      ∀ defect, (chronicle.interpret host statements).2 ≠ some (.defect defect) := by
  have ends := sound.afterPart (Watching.program host chronicle.root 0 statements) (by
    intro survey world extended _ worldSound mirrors
    have laid := ready survey extended
    rw [← List.append_nil statements] at laid
    exact (Watching.program_safe host worldSound mirrors rfl laid).mono fun _ _ _ _ => trivial)
  unfold Chronicle.interpret
  cases outcome : Watching.program host chronicle.root 0 statements chronicle.watched with
  | ok _ after =>
      rw [outcome] at ends
      exact ⟨ends, nofun⟩
  | error stop after =>
      rw [outcome] at ends
      cases stop with
      | error error =>
          exact ⟨Sound.withSession ends.1 rfl, nofun⟩
      | defect defect => exact absurd rfl (ends.2 defect)
      | overflow => exact ⟨ends.1, nofun⟩
      | outOfPatience => exact ⟨ends.1, nofun⟩

end Sound

/-- The first expression of a program that is ready stands below its first statement. -/
theorem Ready.firstExpression {statements : List (Stmt Site)} {expr : Expr Site}
    (ready : chronicle.Ready statements) (first : Session.firstExpression statements = some expr)
    {survey : Survey} (extended : survey.Extends chronicle.survey) :
    expr.Scoped survey Context.top ((chronicle.root.child 0).child 0) := by
  have laid := ready survey extended
  unfold Session.firstExpression at first
  split at first
  · cases first
    cases laid with
    | cons firstLaid _ =>
        cases firstLaid with
        | mk _ parts =>
            cases parts with
            | expression value => exact value
  · cases first
    cases laid with
    | cons firstLaid _ =>
        cases firstLaid with
        | mk _ parts =>
            cases parts with
            | print value => exact value
  · cases first

namespace Sound

theorem firstExpression (sound : chronicle.Sound) {statements : List (Stmt Site)}
    {expr : Expr Site} (ready : chronicle.Ready statements)
    (first : Session.firstExpression statements = some expr) :
    chronicle.EndsInOrder
      (Watching.eval host host.room ((chronicle.root.child 0).child 0) expr
        chronicle.watched) := by
  apply sound.afterPart
  intro survey world extended _ worldSound mirrors
  have laid := ready.firstExpression first extended
  exact (Watching.eval_safe host host.room worldSound mirrors laid).mono fun _ _ _ _ => trivial

theorem run (sound : chronicle.Sound) (text : String) : (chronicle.run host text).1.Sound := by
  have sourceSound : (chronicle.withSession (chronicle.session.setSource text)).Sound :=
    sound.withSession rfl
  obtain ⟨checkedSound, ready⟩ := sourceSound.check host text
  unfold Chronicle.run
  cases checked : (chronicle.withSession (chronicle.session.setSource text)).check host text with
  | mk after outcome =>
      rw [checked] at checkedSound ready
      cases outcome with
      | error phase => exact checkedSound.withSession rfl
      | ok statements =>
          have ran := (checkedSound.interpret host (ready statements rfl)).1
          dsimp only
          cases interpreted : after.interpret host statements with
          | mk last stop =>
              rw [interpreted] at ran
              cases stop <;> exact ran

theorem evaluate (sound : chronicle.Sound) (text : String) :
    (chronicle.evaluate host text).1.Sound := by
  obtain ⟨checkedSound, ready⟩ := sound.check host (text ++ ";")
  unfold Chronicle.evaluate
  cases checked : chronicle.check host (text ++ ";") with
  | mk after outcome =>
      rw [checked] at checkedSound ready
      cases outcome with
      | error phase => exact checkedSound
      | ok statements =>
          dsimp only
          cases first : Session.firstExpression statements with
          | none => exact checkedSound
          | some expr =>
              have ends := checkedSound.firstExpression host (ready statements rfl) first
              dsimp only
              cases evaluated : Watching.eval host host.room ((after.root.child 0).child 0) expr
                  after.watched with
              | ok value last =>
                  rw [evaluated] at ends
                  exact ends
              | error stop last =>
                  rw [evaluated] at ends
                  exact ends.1

theorem act (sound : chronicle.Sound) (action : Session.Action) :
    (chronicle.act host action).1.Sound := by
  cases action with
  | run text => exact sound.run host text
  | check text => exact (sound.check host text).1
  | evaluate text => exact sound.evaluate host text

theorem step (sound : chronicle.Sound) (step : Session.Step) :
    (chronicle.step host step).1.Sound := by
  have preparedSound : (chronicle.withSession (chronicle.session.prepared step)).Sound := by
    apply sound.withSession
    unfold Session.prepared
    split <;> rfl
  exact preparedSound.act host step.action

theorem after (sound : chronicle.Sound) (taken : List Session.Step) :
    (chronicle.after host taken).Sound := by
  induction taken generalizing chronicle with
  | nil => exact sound
  | cons first rest induction => exact induction (sound.step host first)

end Sound

end Chronicle

end LoxLang
