import LoxLang.Proofs.Run.Protocol

/-!
# Disciplines

A discipline is a protocol that does not depend on the notes: it says which machines are
in order, which values are good on them, which parts of a program may be run in which
of their frames, and what cannot change from one machine to a later one.  Whoever
follows it finds that also whatever the run came to on the way was in order.
-/

namespace LoxLang

/-- What a discipline is about. -/
structure Judgement where
  /-- The machine is in order. -/
  Ok : Machine → Prop
  /-- The value is as it should be on the machine. -/
  Good : Value → Machine → Prop
  /-- The part may be run when the machine is in the frame. -/
  Fits : Machine → FrameId → Part Site → Prop
  /-- The first machine may become the second one. -/
  Follows : Machine → Machine → Prop

/-- The second machine is in order and may be what becomes of the first. -/
structure Judgement.Leads (judgement : Judgement) (earlier later : Machine) : Prop where
  follows : judgement.Follows earlier later
  ok : judgement.Ok later

/-- A judgement that the steps of a run respect. -/
structure Discipline extends Judgement where
  refl : ∀ machine, Follows machine machine
  trans : ∀ {first second third}, Follows first second → Follows second third →
    Follows first third
  good_later : ∀ {value earlier later}, Follows earlier later → Good value earlier →
    Good value later
  fits_later : ∀ {earlier later frame part}, Follows earlier later → Fits earlier frame part →
    Fits later frame part
  /-- What is printed, the clock, and where the machine is make no difference. -/
  rest : ∀ {earlier later : Machine}, Ok earlier → later.forest = earlier.forest →
    later.objects = earlier.objects → earlier.serial ≤ later.serial →
    toJudgement.Leads earlier later
  plain : ∀ {value machine}, value.IsPlain → Good value machine
  bound : ∀ {machine frame name value}, Ok machine →
    (machine.forest.bindings frame).get? name = some value → Good value machine
  field : ∀ {machine id name value}, Ok machine → (machine.fields id).get? name = some value →
    Good value machine
  inside : ∀ {machine frame part} (index : Nat) {child}, Fits machine frame part →
    part.children[index]? = some child → part.opens index = [] → Fits machine frame child
  superclass : ∀ {machine frame parent}, Fits machine frame (.superclass parent) →
    Fits machine frame (.expr (.variable parent.name parent.site))
  block : ∀ {machine body}, Ok machine → Fits machine machine.current (.stmt (.block body)) →
    toJudgement.Leads machine (machine.child machine.current) ∧
      ∀ s ∈ body, Fits (machine.child machine.current) machine.forest.size (.stmt s)
  call : ∀ {machine closure args}, Ok machine → Good (.closure closure) machine →
    (∀ arg ∈ args, Good arg machine) → args.length = closure.arity →
    toJudgement.Leads machine (machine.entered closure args) ∧
      ∀ s ∈ closure.decl.body, Fits (machine.entered closure args) machine.forest.size (.stmt s)
  declareVar : ∀ {machine name initializer value}, Ok machine →
    Fits machine machine.current (.stmt (.var name initializer)) → Good value machine →
    toJudgement.Leads machine (machine.define machine.current name.lexeme value)
  assign : ∀ {machine : Machine} {name site source value frame}, Ok machine →
    Fits machine machine.current (.expr (.assign name site source)) → Good value machine →
    Run.target machine.forest machine.current name.lexeme site = .ok frame →
    toJudgement.Leads machine (machine.define frame name.lexeme value)
  declareFunction : ∀ {machine decl}, Ok machine →
    Fits machine machine.current (.stmt (.function decl)) →
    toJudgement.Leads machine (machine.withFunction decl)
  declareClass : ∀ {machine name parent methods} {superclass : Option ClassValue}, Ok machine →
    Fits machine machine.current (.stmt (.class name parent methods)) →
    superclass.isSome = parent.isSome →
    (∀ cls ∈ superclass, Good (.class cls) machine) →
    toJudgement.Leads machine (machine.withClass name superclass methods)
  classOf : ∀ {machine id cls}, Good (.object id cls) machine → Good (.class cls) machine
  /-- Binding a method of a good class to a good object. -/
  tie : ∀ {machine cls name method object}, Ok machine → Good (.class cls) machine →
    cls.method? name = some method → Good object machine → machine.IsReceiver object →
    toJudgement.Leads machine (machine.tied method object) ∧
      Good (.closure (machine.tie method)) (machine.tied method object)
  create : ∀ {machine cls}, Ok machine → Good (.class cls) machine →
    toJudgement.Leads machine machine.created ∧
      Good (.object machine.objects.size cls) machine.created
  set : ∀ {machine id cls name value}, Ok machine → Good (.object id cls) machine →
    Good value machine → toJudgement.Leads machine (machine.withField id name value)

namespace Discipline

variable (law : Discipline)

/-- At the moment the machine is in order, and the node may be run where it is. -/
structure Suits (moment : Moment) : Prop where
  ok : law.Ok moment.machine
  fits : law.Fits moment.machine moment.machine.current moment.node.part

/-- The machine is in order, as it was at all moments that were noted, and each machine follows
those before. -/
structure InOrder (watched : Watched Machine History) : Prop where
  ok : law.Ok watched.state
  since : ∀ moment ∈ watched.notes.moments, law.Follows moment.machine watched.state
  suits : ∀ moment ∈ watched.notes.moments, law.Suits moment
  ordered : watched.notes.moments.Pairwise fun later earlier =>
    law.Follows earlier.machine later.machine

/-- A discipline as a protocol that leaves the notes alone. -/
def plainProtocol : Protocol where
  Ok running := law.Ok running.state
  Good value running := law.Good value running.state
  Fits running frame part := law.Fits running.state frame part
  Follows earlier later := law.Follows earlier.state later.state
  refl running := law.refl running.state
  trans one other := law.trans one other
  good_later follows good := law.good_later follows good
  fits_later follows fits := law.fits_later follows fits
  come ok _ := ⟨law.refl _, ok⟩
  rest ok sameForest sameObjects counted _ :=
    have leads := law.rest ok sameForest sameObjects counted
    ⟨leads.follows, leads.ok⟩
  plain := law.plain
  bound := law.bound
  field := law.field
  inside := law.inside
  superclass := law.superclass
  block ok fits :=
    have ⟨leads, inside⟩ := law.block ok fits
    ⟨⟨leads.follows, leads.ok⟩, inside⟩
  call ok good argsGood lengths :=
    have ⟨leads, inside⟩ := law.call ok good argsGood lengths
    ⟨⟨leads.follows, leads.ok⟩, inside⟩
  declareVar ok fits good :=
    have leads := law.declareVar ok fits good
    ⟨leads.follows, leads.ok⟩
  assign ok fits good target :=
    have leads := law.assign ok fits good target
    ⟨leads.follows, leads.ok⟩
  declareFunction ok fits _ :=
    have leads := law.declareFunction ok fits
    ⟨leads.follows, leads.ok⟩
  declareClass ok fits _ sameKind good :=
    have leads := law.declareClass ok fits sameKind good
    ⟨leads.follows, leads.ok⟩
  classOf := law.classOf
  tie ok classGood found objectGood receiver :=
    have ⟨leads, good⟩ := law.tie ok classGood found objectGood receiver
    ⟨⟨leads.follows, leads.ok⟩, good⟩
  create ok good :=
    have ⟨leads, created⟩ := law.create ok good
    ⟨⟨leads.follows, leads.ok⟩, created⟩
  set ok objectGood good :=
    have leads := law.set ok objectGood good
    ⟨leads.follows, leads.ok⟩

/-- The protocol that a discipline is, when it is asked of all moments. -/
def protocol : Protocol := law.plainProtocol.always

variable {law}

/-- A list is ordered if each element is in the relation to all elements behind it. -/
theorem pairwise_of_suffixes {α : Type} {relation : α → α → Prop} {elements : List α}
    (related : ∀ first rest, first :: rest <:+ elements → ∀ other ∈ rest, relation first other) :
    elements.Pairwise relation := by
  induction elements with
  | nil => exact .nil
  | cons first rest induction =>
      refine List.pairwise_cons.2 ⟨related first rest (List.suffix_refl _), induction ?_⟩
      exact fun next others suffix =>
        related next others (suffix.trans (List.suffix_cons first rest))

theorem InOrder.of_always {running : Running} (always : law.protocol.Ok running) :
    law.InOrder running where
  ok := always.ok
  since moment member := by
    obtain ⟨later, older, split⟩ := List.append_of_mem member
    exact always.since ⟨later, split.symm⟩
  suits moment member := by
    obtain ⟨later, older, split⟩ := List.append_of_mem member
    obtain ⟨ok, fits⟩ := always.suits ⟨later, split.symm⟩
    exact ⟨ok, fits⟩
  ordered := by
    refine pairwise_of_suffixes fun moment older suffix earlier member => ?_
    obtain ⟨between, oldest, split⟩ := List.append_of_mem member
    exact always.ordered suffix ⟨between, split.symm⟩

end Discipline

end LoxLang
