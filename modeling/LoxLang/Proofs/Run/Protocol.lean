import LoxLang.Proofs.Run.Effects
import LoxLang.Proofs.Scope.Parts
import LoxLang.Proofs.Stateful

/-!
# Protocols

A protocol says which machines, taken with the notes on how they came about, are in order,
which values are good there, which parts of a program may be run in which frames, and
what cannot change from one moment to a later one.  Its laws ask this of the few steps
from which a run is made.  They are enough for whole runs: a part that may be run where
the machine is leaves everything in order and yields only good values.

Where a protocol is observed, it has been observed at all moments of the run before,
which is a protocol, too.
-/

namespace LoxLang

/-- The node as a part of a program. -/
def Node.part {S : Type} : Node S → Part S
  | .expr e => .expr e
  | .stmt s => .stmt s

/-- Whether a value is none of those that are made while a program runs. -/
def Value.IsPlain : Value → Prop
  | .closure _ | .class _ | .object _ _ => False
  | _ => True

/-- What methods are bound to: an object, or what a frame binds as `this`. -/
def Machine.IsReceiver (machine : Machine) (value : Value) : Prop :=
  (∃ id cls, value = .object id cls) ∨
    ∃ frame, (machine.forest.bindings frame).get? "this" = some value

/-- A machine with the notes on its run so far. -/
abbrev Running := Watched Machine History

namespace Watched

/-- The machine has become another one, and the run has come to no other node. -/
def become (running : Running) (machine : Machine) : Running := ⟨machine, running.notes⟩

/-- The run has come to a node. -/
def come (running : Running) (address : Address) (node : Node Site) : Running :=
  ⟨running.state, { running.notes with
    moments := ⟨address, node, running.state⟩ :: running.notes.moments }⟩

/-- The run has come to the statement, and the machine is as it was then; since then the run has
come to expressions only. -/
def At (running : Running) (s : Stmt Site) : Prop :=
  ∃ newer moment older, running.notes.moments = newer ++ moment :: older ∧
    moment.node = .stmt s ∧ moment.machine = running.state ∧
      ∀ later ∈ newer, ∃ e, later.node = .expr e

theorem at_come (running : Running) (address : Address) (s : Stmt Site) :
    (running.come address (.stmt s)).At s :=
  ⟨[], _, _, rfl, rfl, rfl, nofun⟩

theorem At.come {running : Running} {s : Stmt Site} (arrived : running.At s) (address : Address)
    (e : Expr Site) : (running.come address (.expr e)).At s := by
  obtain ⟨newer, moment, older, split, isStmt, sameMachine, exprs⟩ := arrived
  refine ⟨⟨address, .expr e, running.state⟩ :: newer, moment, older, ?_, isStmt, sameMachine,
    List.forall_mem_cons.2 ⟨⟨e, rfl⟩, exprs⟩⟩
  rw [List.cons_append, ← split]
  rfl

end Watched

/-- What a protocol is about. -/
structure Outlook where
  /-- The machine is in order, as are the notes. -/
  Ok : Running → Prop
  /-- The value is as it should be there. -/
  Good : Value → Running → Prop
  /-- The part may be run when the machine is in the frame. -/
  Fits : Running → FrameId → Part Site → Prop
  /-- The second may come after the first. -/
  Follows : Running → Running → Prop

/-- The second is in order and may come after the first. -/
structure Outlook.Leads (outlook : Outlook) (earlier later : Running) : Prop where
  follows : outlook.Follows earlier later
  ok : outlook.Ok later

/-- An outlook that the steps of a run respect. -/
structure Protocol extends Outlook where
  refl : ∀ running, Follows running running
  trans : ∀ {first second third}, Follows first second → Follows second third →
    Follows first third
  good_later : ∀ {value earlier later}, Follows earlier later → Good value earlier →
    Good value later
  fits_later : ∀ {earlier later frame part}, Follows earlier later → Fits earlier frame part →
    Fits later frame part
  come : ∀ {running address} {node : Node Site}, Ok running →
    Fits running running.state.current node.part →
    toOutlook.Leads running (running.come address node)
  /-- What is printed, the clock, where the machine is, and where functions were declared make no
  difference. -/
  rest : ∀ {earlier later : Running}, Ok earlier → later.state.forest = earlier.state.forest →
    later.state.objects = earlier.state.objects → earlier.state.serial ≤ later.state.serial →
    later.notes.moments = earlier.notes.moments → toOutlook.Leads earlier later
  plain : ∀ {value running}, value.IsPlain → Good value running
  bound : ∀ {running frame name value}, Ok running →
    (running.state.forest.bindings frame).get? name = some value → Good value running
  field : ∀ {running id name value}, Ok running →
    (running.state.fields id).get? name = some value → Good value running
  inside : ∀ {running frame part} (index : Nat) {child}, Fits running frame part →
    part.children[index]? = some child → part.opens index = [] → Fits running frame child
  superclass : ∀ {running frame parent}, Fits running frame (.superclass parent) →
    Fits running frame (.expr (.variable parent.name parent.site))
  block : ∀ {running body}, Ok running →
    Fits running running.state.current (.stmt (.block body)) →
    toOutlook.Leads running (running.become (running.state.child running.state.current)) ∧
      ∀ s ∈ body, Fits (running.become (running.state.child running.state.current))
        running.state.forest.size (.stmt s)
  call : ∀ {running closure args}, Ok running → Good (.closure closure) running →
    (∀ arg ∈ args, Good arg running) → args.length = closure.arity →
    toOutlook.Leads running (running.become (running.state.entered closure args)) ∧
      ∀ s ∈ closure.decl.body, Fits (running.become (running.state.entered closure args))
        running.state.forest.size (.stmt s)
  declareVar : ∀ {running name initializer value}, Ok running →
    Fits running running.state.current (.stmt (.var name initializer)) → Good value running →
    toOutlook.Leads running
      (running.become (running.state.define running.state.current name.lexeme value))
  assign : ∀ {running : Running} {name site source value frame}, Ok running →
    Fits running running.state.current (.expr (.assign name site source)) → Good value running →
    Run.target running.state.forest running.state.current name.lexeme site = .ok frame →
    toOutlook.Leads running (running.become (running.state.define frame name.lexeme value))
  declareFunction : ∀ {running decl}, Ok running →
    Fits running running.state.current (.stmt (.function decl)) →
    running.At (.function decl) →
    toOutlook.Leads running (running.become (running.state.withFunction decl))
  declareClass : ∀ {running name parent methods} {superclass : Option ClassValue}, Ok running →
    Fits running running.state.current (.stmt (.class name parent methods)) →
    running.At (.class name parent methods) → superclass.isSome = parent.isSome →
    (∀ cls ∈ superclass, Good (.class cls) running) →
    toOutlook.Leads running (running.become (running.state.withClass name superclass methods))
  classOf : ∀ {running id cls}, Good (.object id cls) running → Good (.class cls) running
  /-- Binding a method of a good class to a good object. -/
  tie : ∀ {running cls name method object}, Ok running → Good (.class cls) running →
    cls.method? name = some method → Good object running → running.state.IsReceiver object →
    toOutlook.Leads running (running.become (running.state.tied method object)) ∧
      Good (.closure (running.state.tie method)) (running.become (running.state.tied method object))
  create : ∀ {running cls}, Ok running → Good (.class cls) running →
    toOutlook.Leads running (running.become running.state.created) ∧
      Good (.object running.state.objects.size cls) (running.become running.state.created)
  set : ∀ {running id cls name value}, Ok running → Good (.object id cls) running →
    Good value running →
      toOutlook.Leads running (running.become (running.state.withField id name value))

namespace Protocol

open Watched (lift note consult)

variable (law : Protocol)

/-- All values are good. -/
def AllGood (values : List Value) (running : Running) : Prop :=
  ∀ value ∈ values, law.Good value running

/-- The value with which a statement returns is good, if it does return. -/
def GoodEnd : Completion → Running → Prop
  | .normal, _ => True
  | .returned value, running => law.Good value running

theorem goodEnd_later {completion : Completion} {earlier later : Running}
    (follows : law.Follows earlier later) (good : law.GoodEnd completion earlier) :
    law.GoodEnd completion later := by
  cases completion with
  | normal => trivial
  | returned value => exact law.good_later follows good

/-- What a part of a run leads to. -/
structure Led (start after : Running) : Prop extends law.Leads start after where
  current : after.state.current = start.state.current

/-- The part leaves everything in order and the machine in the frame where it was, however it ends;
if it does not stop its result is as it should be. -/
def Keeps {α : Type} (start : Running) (part : Watching α) (post : α → Running → Prop) : Prop :=
  match part start with
  | .ok result after => law.Led start after ∧ post result after
  | .error _ after => law.Led start after

variable {law} {α β : Type} {start middle last : Running}

theorem stay (ok : law.Ok start) : law.Led start start :=
  ⟨⟨law.refl _, ok⟩, rfl⟩

theorem Led.trans (first : law.Led start middle) (second : law.Led middle last) :
    law.Led start last :=
  ⟨⟨law.trans first.follows second.follows, second.ok⟩, second.current.trans first.current⟩

theorem Led.good (led : law.Led start middle) {value : Value} (good : law.Good value start) :
    law.Good value middle :=
  law.good_later led.follows good

/-- What may be run at the beginning may still be run where the machine then is. -/
theorem Led.fits (led : law.Led start middle) {part : Part Site}
    (fits : law.Fits start start.state.current part) :
    law.Fits middle middle.state.current part := by
  rw [led.current]
  exact law.fits_later led.follows fits

namespace Keeps

variable {part : Watching α} {post : α → Running → Prop}

theorem of_ok {result : α} {after : Running} (keeps : law.Keeps start part post)
    (ends : part start = .ok result after) : law.Led start after ∧ post result after := by
  unfold Keeps at keeps
  rwa [ends] at keeps

theorem of_error {stop : Stop} {after : Running} (keeps : law.Keeps start part post)
    (stops : part start = .error stop after) : law.Led start after := by
  unfold Keeps at keeps
  rwa [stops] at keeps

/-- A part that comes to an end without being watched does so when it is watched. -/
theorem of_plain {plain : Run α} {result : α} {after : Machine}
    (keeps : law.Keeps start part post) (retraces : Watched.Retraces part plain)
    (ends : plain start.state = .ok result after) :
    ∃ notes, law.Led start ⟨after, notes⟩ ∧ post result ⟨after, notes⟩ := by
  obtain ⟨notes, watchedEnds⟩ := retraces.of_ok ends
  exact ⟨notes, keeps.of_ok watchedEnds⟩

theorem pure {result : α} (ok : law.Ok start) (holds : post result start) :
    law.Keeps start (Pure.pure result) post :=
  ⟨stay ok, holds⟩

theorem throw {stop : Stop} (ok : law.Ok start) : law.Keeps start (throw stop) post :=
  stay ok

theorem fault {about : Token} {fault : Fault} (ok : law.Ok start) :
    law.Keeps start (lift (Run.fault about fault)) post :=
  stay ok

theorem defect {defect : Defect} (ok : law.Ok start) :
    law.Keeps start (lift (Run.defect defect)) post :=
  stay ok

/-- A part that only looks at the machine. -/
theorem look {part : Run α} (ok : law.Ok start)
    (outcome : (∃ result, part start.state = .ok result start.state ∧ post result start) ∨
      ∃ stop, part start.state = .error stop start.state) :
    law.Keeps start (lift part) post := by
  unfold Keeps lift
  rcases outcome with ⟨result, ends, holds⟩ | ⟨stop, stops⟩
  · rw [ends]
    exact ⟨stay ok, holds⟩
  · rw [stops]
    exact stay ok

/-- A part whose effects are known.  Where it notes the addresses of functions makes no
difference. -/
theorem effects {result : α} {later : Machine}
    (effects : Watching.Effects start.state start.notes part result later)
    (leads : law.Leads start (start.become later)) (current : later.current = start.state.current)
    (holds : ∀ notes, law.Follows (start.become later) ⟨later, notes⟩ →
      post result ⟨later, notes⟩) :
    law.Keeps start part post := by
  obtain ⟨origins, ends⟩ := effects
  have settles : law.Leads (start.become later) ⟨later, { start.notes with origins := origins }⟩ :=
    law.rest leads.ok rfl rfl (Nat.le_refl _) rfl
  unfold Keeps
  rw [show part start = _ from ends]
  exact ⟨⟨⟨law.trans leads.follows settles.follows, settles.ok⟩, current⟩,
    holds _ settles.follows⟩

/-- A part may begin with steps that are known to lead somewhere. -/
theorem via {remaining : Watching α} (led : law.Led start middle)
    (same : part start = remaining middle) (keeps : law.Keeps middle remaining post) :
    law.Keeps start part post := by
  unfold Keeps
  rw [same]
  cases outcome : remaining middle with
  | ok result after =>
      obtain ⟨more, holds⟩ := keeps.of_ok outcome
      exact ⟨led.trans more, holds⟩
  | error stop after => exact led.trans (keeps.of_error outcome)

theorem mono {weaker : α → Running → Prop} (keeps : law.Keeps start part post)
    (implies : ∀ result running, post result running → weaker result running) :
    law.Keeps start part weaker := by
  unfold Keeps
  cases outcome : part start with
  | ok result after =>
      obtain ⟨led, holds⟩ := keeps.of_ok outcome
      exact ⟨led, implies _ _ holds⟩
  | error stop after => exact keeps.of_error outcome

theorem bind {next : α → Watching β} {final : β → Running → Prop}
    (keeps : law.Keeps start part post)
    (nextKeeps : ∀ result middle, law.Led start middle → post result middle →
      law.Keeps middle (next result) final) : law.Keeps start (part >>= next) final := by
  cases outcome : part start with
  | ok result after =>
      obtain ⟨led, holds⟩ := keeps.of_ok outcome
      exact via led (bind_of_ok outcome) (nextKeeps result after led holds)
  | error stop after =>
      unfold Keeps
      rw [bind_of_error outcome]
      exact keeps.of_error outcome

theorem ite {condition : Prop} [Decidable condition] {other : Watching α}
    (keeps : condition → law.Keeps start part post)
    (otherKeeps : ¬condition → law.Keeps start other post) :
    law.Keeps start (if condition then part else other) post := by
  split
  · rename_i holds
    exact keeps holds
  · rename_i fails
    exact otherKeeps fails

theorem catchOverflow {about : Token} (keeps : law.Keeps start part post) :
    law.Keeps start (Watching.catchOverflow about part) post := by
  unfold Keeps Watching.catchOverflow
  cases outcome : part start with
  | ok result after => exact keeps.of_ok outcome
  | error stop after =>
      have led := keeps.of_error outcome
      cases stop <;> exact led

/-- The machine comes back from a part that is run inside a frame. -/
theorem inFrame {frame : FrameId} (ok : law.Ok start)
    (stable : ∀ result earlier later, law.Follows earlier later → post result earlier →
      post result later)
    (keeps : law.Leads start (start.become { start.state with current := frame }) →
      law.Keeps (start.become { start.state with current := frame }) part post) :
    law.Keeps start (Watching.inFrame frame part) post := by
  have entered : law.Leads start (start.become { start.state with current := frame }) :=
    law.rest ok rfl rfl (Nat.le_refl _) rfl
  have back {after : Running}
      (led : law.Led (start.become { start.state with current := frame }) after) :
      law.Follows after (after.become { after.state with current := start.state.current }) ∧
        law.Led start (after.become { after.state with current := start.state.current }) := by
    have leads :
        law.Leads after (after.become { after.state with current := start.state.current }) :=
      law.rest led.ok rfl rfl (Nat.le_refl _) rfl
    exact ⟨leads.follows,
      ⟨law.trans entered.follows (law.trans led.follows leads.follows), leads.ok⟩, rfl⟩
  unfold Keeps
  show match Watching.inFrame frame part start with
    | .ok result after => _
    | .error stop after => _
  unfold Watching.inFrame
  cases outcome : part (start.become { start.state with current := frame }) with
  | ok result after =>
      obtain ⟨led, holds⟩ := (keeps entered).of_ok outcome
      rw [show part ⟨{ start.state with current := frame }, start.notes⟩ = _ from outcome]
      exact ⟨(back led).2, stable _ _ _ (back led).1 holds⟩
  | error stop after =>
      have led := (keeps entered).of_error outcome
      rw [show part ⟨{ start.state with current := frame }, start.notes⟩ = _ from outcome]
      exact (back led).2

/-- A node may be noted that may be run where the machine is. -/
theorem come (address : Address) (node : Node Site) (ok : law.Ok start)
    (fits : law.Fits start start.state.current node.part) :
    law.Keeps start (Watching.come address node) fun _ running =>
      running = start.come address node :=
  ⟨⟨law.come ok fits, rfl⟩, rfl⟩

end Keeps

end Protocol

/-- The machine at a moment, with the moments before it. -/
def Moment.running (moment : Moment) (older : List Moment) : Running :=
  ⟨moment.machine, { History.blank with moments := older }⟩

namespace Protocol

variable (law : Protocol) {running later : Running}

/-- Everything is in order, as it was at all moments that were noted, where the nodes might be run;
and whatever is later follows. -/
structure Always (running : Running) : Prop where
  ok : law.Ok running
  suits : ∀ {moment older}, moment :: older <:+ running.notes.moments →
    law.Ok (moment.running older) ∧
      law.Fits (moment.running older) moment.machine.current moment.node.part
  since : ∀ {moment older}, moment :: older <:+ running.notes.moments →
    law.Follows (moment.running older) running
  ordered : ∀ {moment older earlier oldest}, moment :: older <:+ running.notes.moments →
    earlier :: oldest <:+ older → law.Follows (earlier.running oldest) (moment.running older)

variable {law}

namespace Always

/-- A run may be looked at from anywhere on where everything is in order. -/
theorem blank {machine : Machine} (ok : law.Ok ⟨machine, History.blank⟩) :
    law.Always ⟨machine, History.blank⟩ where
  ok := ok
  suits member := absurd (List.suffix_nil.1 member) (List.cons_ne_nil _ _)
  since member := absurd (List.suffix_nil.1 member) (List.cons_ne_nil _ _)
  ordered member := absurd (List.suffix_nil.1 member) (List.cons_ne_nil _ _)

/-- A step that brings no new moment. -/
theorem move (always : law.Always running) (leads : law.Leads running later)
    (sameMoments : later.notes.moments = running.notes.moments) : law.Always later where
  ok := leads.ok
  suits member := always.suits (sameMoments ▸ member)
  since member := law.trans (always.since (sameMoments ▸ member)) leads.follows
  ordered member := always.ordered (sameMoments ▸ member)

/-- Where functions were declared makes no difference at a moment. -/
theorem now (ok : law.Ok running) (address : Address) (node : Node Site) :
    let moment : Moment := ⟨address, node, running.state⟩
    law.Leads running (moment.running running.notes.moments) ∧
      law.Follows (moment.running running.notes.moments) running := by
  intro moment
  have there : law.Leads running (moment.running running.notes.moments) :=
    law.rest ok rfl rfl (Nat.le_refl _) rfl
  have back : law.Leads (moment.running running.notes.moments) running :=
    law.rest there.ok rfl rfl (Nat.le_refl _) rfl
  exact ⟨there, back.follows⟩

theorem come (always : law.Always running) (address : Address) {node : Node Site}
    (fits : law.Fits running running.state.current node.part) :
    law.Leads running (running.come address node) ∧
      law.Always (running.come address node) := by
  obtain ⟨there, back⟩ := now always.ok address node
  have leads : law.Leads running (running.come address node) := law.come always.ok fits
  refine ⟨leads, leads.ok, ?_, ?_, ?_⟩
  · intro moment older member
    rcases List.suffix_cons_iff.1 member with same | earlier
    · cases same
      exact ⟨there.ok, law.fits_later there.follows fits⟩
    · exact always.suits earlier
  · intro moment older member
    rcases List.suffix_cons_iff.1 member with same | earlier
    · cases same
      exact law.trans back leads.follows
    · exact law.trans (always.since earlier) leads.follows
  · intro moment older earlier oldest member before
    rcases List.suffix_cons_iff.1 member with same | isEarlier
    · cases same
      exact law.trans (always.since before) there.follows
    · exact always.ordered isEarlier before

end Always

/-- What a protocol is about, when it is asked of all moments. -/
def outlook (law : Protocol) : Outlook where
  Ok := law.Always
  Good := law.Good
  Fits := law.Fits
  Follows := law.Follows

theorem Always.become (always : law.Always running) {machine : Machine}
    (leads : law.Leads running (running.become machine)) :
    law.outlook.Leads running (running.become machine) :=
  ⟨leads.follows, always.move leads rfl⟩

/-- The protocol, when it is asked of all moments. -/
def always (law : Protocol) : Protocol where
  toOutlook := law.outlook
  refl := law.refl
  trans := law.trans
  good_later := law.good_later
  fits_later := law.fits_later
  come always fits :=
    have ⟨leads, ok⟩ := always.come _ fits
    ⟨leads.follows, ok⟩
  rest always sameForest sameObjects counted sameMoments :=
    have leads := law.rest always.ok sameForest sameObjects counted sameMoments
    ⟨leads.follows, always.move leads sameMoments⟩
  plain := law.plain
  bound always found := law.bound always.ok found
  field always found := law.field always.ok found
  inside := law.inside
  superclass := law.superclass
  block always fits :=
    have ⟨leads, inside⟩ := law.block always.ok fits
    ⟨always.become leads, inside⟩
  call always good argsGood lengths :=
    have ⟨leads, inside⟩ := law.call always.ok good argsGood lengths
    ⟨always.become leads, inside⟩
  declareVar always fits good := always.become (law.declareVar always.ok fits good)
  assign always fits good target := always.become (law.assign always.ok fits good target)
  declareFunction always fits arrived := always.become (law.declareFunction always.ok fits arrived)
  declareClass always fits arrived sameKind good :=
    always.become (law.declareClass always.ok fits arrived sameKind good)
  classOf := law.classOf
  tie always classGood found objectGood receiver :=
    have ⟨leads, good⟩ := law.tie always.ok classGood found objectGood receiver
    ⟨always.become leads, good⟩
  create always good :=
    have ⟨leads, created⟩ := law.create always.ok good
    ⟨always.become leads, created⟩
  set always objectGood good := always.become (law.set always.ok objectGood good)

end Protocol

end LoxLang
