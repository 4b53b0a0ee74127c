import LoxLang.Proofs.Run.Provenance

/-!
# Runs derive what they keep

Each step of a run makes frames in older ones, and keeps nothing in them and in the
fields of objects but what derives from the statements that the run has come to.
-/

namespace LoxLang

theorem Forest.Descends.defineParams {frame : FrameId} {params : List Token} {args : List Value}
    {forest : Forest Value} (descends : forest.Descends) :
    (forest.defineParams frame params args).Descends := by
  induction params generalizing forest args with
  | nil => exact descends
  | cons param params induction =>
      cases args with
      | nil => exact descends
      | cons arg args => exact induction (descends.define frame param.lexeme arg)

/-- A new frame binds nothing. -/
theorem Forest.Unbound.child (forest : Forest Value) (parent : FrameId) :
    (forest.child parent).Unbound forest.size where
  present := by simp
  this := by rw [bindings_child_self, Table.get?_empty]

theorem Forest.Carries.present {forest : Forest Value} {frame : FrameId} {part : Part Site}
    (carries : forest.Carries frame part) : frame < forest.size := by
  obtain ⟨around, surrounds, -⟩ := carries
  exact surrounds.present

namespace Watched

variable {running later : Running} {machine : Machine}

/-- All values that the machine keeps derive from statements of the run, and its frames lie in older
ones. -/
structure Derived (running : Running) : Prop where
  settled : running.state.Settled
  frames : running.state.forest.Descends
  values : ∀ frame name value, (running.state.forest.bindings frame).get? name = some value →
    value.Derives running
  fields : ∀ id name value, (running.state.fields id).get? name = some value →
    value.Derives running

/-- What is asked of runs so that it is known where functions and classes come from. -/
def provenance : Outlook where
  Ok := Derived
  Good value running := value.Settled running.state.forest ∧ value.Derives running
  Fits running frame part := running.state.forest.Carries frame part ∧
    running.state.forest.Unbound frame
  Follows := Goes

namespace Derived

/-- Only what is new has to be looked at. -/
theorem step (derived : running.Derived) (settled : later.state.Settled)
    (goes : running.Goes later) (frames : later.state.forest.Descends)
    (values : ∀ frame name value, (later.state.forest.bindings frame).get? name = some value →
      (running.state.forest.bindings frame).get? name = some value ∨ value.Derives later)
    (fields : ∀ id name value, (later.state.fields id).get? name = some value →
      (running.state.fields id).get? name = some value ∨ value.Derives later) :
    provenance.Leads running later := by
  refine ⟨goes, settled, frames, ?_, ?_⟩
  · intro frame name value found
    rcases values frame name value found with before | derives
    · exact (derived.values frame name value before).mono goes
    · exact derives
  · intro id name value found
    rcases fields id name value found with before | derives
    · exact (derived.fields id name value before).mono goes
    · exact derives

theorem come (derived : running.Derived) (address : Address) (node : Node Site) :
    provenance.Leads running (running.come address node) :=
  derived.step derived.settled (.come running address node) derived.frames
    (fun _ _ _ found => .inl found) fun _ _ _ found => .inl found

theorem rest (derived : running.Derived)
    (sameForest : later.state.forest = running.state.forest)
    (sameObjects : later.state.objects = running.state.objects)
    (counted : running.state.serial ≤ later.state.serial)
    (sameMoments : later.notes.moments = running.notes.moments) :
    provenance.Leads running later := by
  obtain ⟨follows, settled⟩ := derived.settled.rest sameForest sameObjects
  have goes : running.Goes later :=
    ⟨follows, counted, Nat.le_of_eq (congrArg Array.size sameObjects.symm), [], sameMoments, nofun⟩
  refine derived.step settled goes (sameForest ▸ derived.frames) ?_ ?_
  · exact fun _ _ _ found => .inl (sameForest ▸ found)
  · exact fun id _ _ found => .inl (Machine.fields_eq sameObjects id ▸ found)

/-- What a step has led to that brings no new fields. -/
theorem move (derived : running.Derived) (leads : kin.Leads running.state machine)
    (serial : running.state.serial ≤ machine.serial)
    (sameObjects : machine.objects = running.state.objects) (frames : machine.forest.Descends)
    (values : running.Goes (running.become machine) → ∀ frame name value,
      (machine.forest.bindings frame).get? name = some value →
        (running.state.forest.bindings frame).get? name = some value ∨
          value.Derives (running.become machine)) :
    provenance.Leads running (running.become machine) := by
  have goes : running.Goes (running.become machine) :=
    .become leads.follows serial (Nat.le_of_eq (congrArg Array.size sameObjects.symm))
  have fields : ∀ id, machine.fields id = running.state.fields id :=
    Machine.fields_eq sameObjects
  exact derived.step leads.ok goes frames (values goes) fun id _ _ found => .inl (fields id ▸ found)

/-- A value that derives may be bound to a name. -/
theorem define (derived : running.Derived) {frame : FrameId} {name : String} {value : Value}
    (leads : kin.Leads running.state (running.state.define frame name value))
    (derives : value.Derives running) :
    provenance.Leads running (running.become (running.state.define frame name value)) := by
  refine derived.move leads (Nat.le_refl _) rfl (derived.frames.define frame name value) ?_
  intro goes other key found there
  exact (Forest.get?_define there).imp_right fun ⟨_, _, same⟩ => same ▸ derives.mono goes

theorem block (derived : running.Derived) {body : List (Stmt Site)}
    (fits : provenance.Fits running running.state.current (.stmt (.block body))) :
    provenance.Leads running (running.become (running.state.child running.state.current)) ∧
      ∀ s ∈ body, provenance.Fits (running.become (running.state.child running.state.current))
        running.state.forest.size (.stmt s) := by
  obtain ⟨leads, inside⟩ := derived.settled.block fits.1
  refine ⟨derived.move leads (Nat.le_refl _) rfl (derived.frames.child fits.1.present) ?_, ?_⟩
  · exact fun _ _ _ _ there => .inl (Machine.get?_child there)
  · exact fun s member => ⟨inside s member, .child _ _⟩

theorem call (derived : running.Derived) {closure : Closure} {args : List Value}
    (settled : closure.Settled running.state.forest)
    (good : ∀ arg ∈ args, provenance.Good arg running) :
    provenance.Leads running (running.become (running.state.entered closure args)) ∧
      ∀ s ∈ closure.decl.body, provenance.Fits (running.become (running.state.entered closure args))
        running.state.forest.size (.stmt s) := by
  obtain ⟨leads, inside⟩ := derived.settled.call settled fun arg member => (good arg member).1
  have frames : (running.state.entered closure args).forest.Descends :=
    (derived.frames.child settled.present).defineParams
  refine ⟨derived.move leads (Nat.le_refl _) rfl frames ?_, ?_⟩
  · intro goes frame name value there
    exact (Machine.get?_entered there).imp_right fun member => (good value member).2.mono goes
  · -- The parameters are names, so none of them is `this`.
    obtain ⟨_, _, _, isSettled⟩ := settled
    have filled : (running.state.forest.child closure.frame).Precedes
        (running.state.entered closure args).forest :=
      .defineParams _ _ isSettled.root.ordinary.2
    exact fun s member => ⟨inside s member, Forest.Unbound.mono (.child _ _) filled⟩

theorem function (derived : running.Derived) {decl : FunctionDecl Site}
    (fits : provenance.Fits running running.state.current (.stmt (.function decl)))
    (arrived : running.At (.function decl)) :
    provenance.Leads running (running.become (running.state.withFunction decl)) := by
  have leads := derived.settled.function fits.1
  have serial : running.state.serial + 1 ≤ (running.state.withFunction decl).serial :=
    Nat.le_refl _
  obtain ⟨moment, isStatement, sameMachine, spent⟩ := arrived.spent serial
  refine derived.move leads (Nat.le_succ _) rfl (derived.frames.define _ _ _) ?_
  intro goes frame name value there
  refine (Machine.get?_withFunction there).imp_right ?_
  rintro rfl
  exact .inl ⟨⟨moment, decl, isStatement, spent, by rw [sameMachine]⟩, fits.2.mono goes.precedes⟩

end Derived

/-- A class has got its number before now. -/
theorem MakesClass.counted {moment : Moment} {methods : List (FunctionDecl Site)} {cls : ClassValue}
    (makes : running.MakesClass moment methods cls) : cls.own.serial < running.state.serial := by
  obtain ⟨name, parent, superclass, -, -, rfl, -⟩ := makes.made
  exact makes.spent.counted

end Watched

namespace Machine

variable {machine : Machine} {superclass : Option ClassValue}

/-- The methods of a class are made in a frame that does not bind `this`. -/
theorem unbound_methodFrame (unbound : machine.forest.Unbound machine.current) :
    (machine.aroundMethods superclass).forest.Unbound (machine.methodFrame superclass) := by
  cases superclass with
  | none => exact unbound
  | some cls =>
      have bindings : (machine.aroundMethods (some cls)).forest.bindings machine.forest.size =
          Table.empty.insert "super" (.class cls) := Forest.bindings_define_child _ _ _ _
      refine ⟨by simp [methodFrame, aroundMethods], ?_⟩
      rw [methodFrame, bindings, Table.get?_insert_of_ne _ _ (by decide), Table.get?_empty]

theorem descends_aroundMethods (descends : machine.forest.Descends)
    (present : machine.current < machine.forest.size) :
    (machine.aroundMethods superclass).forest.Descends := by
  cases superclass with
  | none => exact descends
  | some cls => exact (descends.child present).define _ _ _

theorem objects_withClass (machine : Machine) (name : Token) (superclass : Option ClassValue)
    (methods : List (FunctionDecl Site)) :
    (machine.withClass name superclass methods).objects = machine.objects := by
  cases superclass <;> rfl

end Machine

namespace Watched.Derived

variable {running : Running}

section Class

variable {name : Token} {parent : Option (Superclass Site)} {methods : List (FunctionDecl Site)}
  {superclass : Option ClassValue}

/-- The frame of the methods does not bind `this` when the class has been declared, either. -/
theorem unbound_withClass
    (fits : provenance.Fits running running.state.current (.stmt (.class name parent methods))) :
    (running.state.withClass name superclass methods).forest.Unbound
      (running.state.methodFrame superclass) := by
  obtain ⟨_, _, _, isSettled⟩ := fits.1
  have isName : IsName name.lexeme := isSettled.root.ordinary
  have named : (running.state.define running.state.current name.lexeme .nil).forest.Unbound
      running.state.current := fits.2.mono (.define _ _ _ isName)
  have around : ((running.state.define running.state.current name.lexeme .nil).aroundMethods
      superclass).forest.Unbound _ := Machine.unbound_methodFrame named
  rw [Machine.methodFrame_define] at around
  exact around.mono (.define _ _ _ isName)

/-- A class that is declared derives from its statement, and its superclasses from theirs. -/
theorem newClass
    (fits : provenance.Fits running running.state.current (.stmt (.class name parent methods)))
    (arrived : running.At (.class name parent methods))
    (sameKind : superclass.isSome = parent.isSome)
    (good : ∀ cls ∈ superclass, cls.Derives running)
    (goes : running.Goes (running.become (running.state.withClass name superclass methods))) :
    (running.state.newClass name superclass methods).Derives
      (running.become (running.state.withClass name superclass methods)) := by
  have serial : running.state.serial + (methods.length + 1) ≤
      (running.state.withClass name superclass methods).serial := Nat.le_refl _
  obtain ⟨moment, isStatement, sameMachine, spent⟩ := arrived.spent serial
  intro other suffix
  rcases List.suffix_cons_iff.1 suffix with isNew | inherited
  · cases ClassValue.eq_of_chain_eq isNew
    refine ⟨moment, methods, ⟨name, parent, superclass, isStatement, sameKind, ?_, ?_⟩, spent, ?_⟩
    · rw [sameMachine]
    · intro above isSuperclass
      obtain ⟨_, _, makes⟩ := good above isSuperclass above (List.suffix_refl _)
      rw [sameMachine]
      exact makes.counted
    · intro key method found
      rw [(Machine.of_newClass found).1]
      exact unbound_withClass fits
  · -- What is above has been made before.
    cases superclass with
    | none => cases List.suffix_nil.1 inherited
    | some cls =>
        obtain ⟨before, itsMethods, makes⟩ := good cls rfl other inherited
        exact ⟨before, itsMethods, makes.mono goes⟩

theorem declareClass (derived : running.Derived)
    (fits : provenance.Fits running running.state.current (.stmt (.class name parent methods)))
    (arrived : running.At (.class name parent methods))
    (sameKind : superclass.isSome = parent.isSome)
    (good : ∀ cls ∈ superclass, provenance.Good (.class cls) running) :
    provenance.Leads running
      (running.become (running.state.withClass name superclass methods)) := by
  have leads := derived.settled.withClass fits.1 sameKind fun cls member => (good cls member).1
  have serial : running.state.serial ≤
      (running.state.withClass name superclass methods).serial :=
    Nat.le_add_right _ (methods.length + 1)
  have named : (running.state.define running.state.current name.lexeme .nil).forest.Descends :=
    derived.frames.define _ _ _
  have present : running.state.current <
      (running.state.define running.state.current name.lexeme .nil).forest.size := by
    simpa using fits.2.present
  have around : ((running.state.define running.state.current name.lexeme .nil).aroundMethods
      superclass).forest.Descends := Machine.descends_aroundMethods named present
  refine derived.move leads serial (Machine.objects_withClass _ _ _ _) (around.define _ _ _) ?_
  intro goes frame key value there
  rcases Machine.get?_withClass there with before | rfl | ⟨cls, isSuperclass, rfl⟩ | rfl
  · exact .inl before
  · exact .inr trivial
  · exact .inr ((good cls isSuperclass).2.mono goes)
  · exact .inr (newClass fits arrived sameKind (fun cls member => (good cls member).2) goes)

end Class

/-- Binding a method keeps it apart from the value. -/
theorem tie (derived : running.Derived) {cls : ClassValue} {name : String} {method : Closure}
    {object : Value} (classGood : provenance.Good (.class cls) running)
    (found : cls.method? name = some method) (objectGood : provenance.Good object running)
    (receiver : running.state.IsReceiver object) :
    provenance.Leads running (running.become (running.state.tied method object)) ∧
      provenance.Good (.closure (running.state.tie method))
        (running.become (running.state.tied method object)) := by
  obtain ⟨leads, settled⟩ := derived.settled.tie classGood.1 found objectGood.1 receiver
  obtain ⟨entry, ancestors, suffix, inEntry⟩ := ClassValue.suffix_of_method? found
  obtain ⟨moment, methods, makes⟩ := classGood.2 ⟨entry, ancestors⟩ suffix
  have home := makes.unbound name method inEntry
  have frames : (running.state.tied method object).forest.Descends :=
    (derived.frames.child home.present).define _ _ _
  have led : provenance.Leads running (running.become (running.state.tied method object)) := by
    refine derived.move leads (Nat.le_succ _) rfl frames fun goes frame key value there => ?_
    refine (Machine.get?_tied there).imp_right ?_
    rintro rfl
    exact objectGood.2.mono goes
  have isObject : ∃ id cls, object = .object id cls ∧ id < running.state.objects.size := by
    have known : ∃ id cls, object = .object id cls := by
      rcases receiver with isObject | ⟨frame, bound⟩
      · exact isObject
      · exact (derived.settled.values frame "this" object bound).2.this rfl
    obtain ⟨id, cls, rfl⟩ := known
    exact ⟨id, cls, rfl, objectGood.2.1⟩
  have bindings : (running.state.tied method object).forest.bindings running.state.forest.size =
      Table.empty.insert "this" object := Forest.bindings_define_child _ _ _ _
  have ties : (running.state.tied method object).Ties method (running.state.tie method) object := by
    refine ⟨rfl, rfl, ?_, ?_, ?_, isObject⟩
    · simp [Machine.tie, Machine.tied]
    · rw [leads.follows.chain method.frame home.present]
      exact (List.cons.inj ((Forest.chain_define _ _ _ _ _).trans
        (Forest.chain_child_self _ _))).2
    · rw [Machine.tie, bindings, Table.get?_insert_self]
  exact ⟨led, settled, .inr ⟨moment, methods, ⟨entry, ancestors⟩, name, method, object,
    makes.mono led.follows, inEntry, ties⟩⟩

theorem create (derived : running.Derived) {cls : ClassValue}
    (good : provenance.Good (.class cls) running) :
    provenance.Leads running (running.become running.state.created) ∧
      provenance.Good (.object running.state.objects.size cls)
        (running.become running.state.created) := by
  obtain ⟨leads, settled⟩ := derived.settled.create good.1
  have grown : running.state.created.objects.size = running.state.objects.size + 1 :=
    Array.size_push _
  have goes : running.Goes (running.become running.state.created) :=
    .become leads.follows (Nat.le_refl _) (by omega)
  refine ⟨derived.step leads.ok goes derived.frames (fun _ _ _ found => .inl found) ?_, settled, ?_,
    good.2.mono goes⟩
  · intro id name value found
    have same := Machine.fields_created running.state id
    exact .inl (same ▸ found)
  · show running.state.objects.size < running.state.created.objects.size
    omega

theorem set (derived : running.Derived) {id : Nat} {name : String} {value : Value}
    (good : provenance.Good value running) :
    provenance.Leads running (running.become (running.state.withField id name value)) := by
  have leads : kin.Leads running.state (running.state.withField id name value) :=
    derived.settled.set good.1
  have goes : running.Goes (running.become (running.state.withField id name value)) :=
    .become leads.follows (Nat.le_refl _) (Nat.le_of_eq Array.size_modify.symm)
  refine derived.step leads.ok goes derived.frames (fun _ _ _ found => .inl found) ?_
  intro other key found there
  refine (Machine.get?_withField there).imp_right ?_
  rintro rfl
  exact good.2.mono goes

end Watched.Derived

open Watched in
/-- Runs keep nothing but what derives from the statements that they have come to. -/
def derivation : Protocol where
  toOutlook := provenance
  refl := Goes.refl
  trans one other := one.trans other
  good_later goes good := ⟨good.1.mono goes.precedes, good.2.mono goes⟩
  fits_later goes fits := ⟨fits.1.mono goes.precedes, fits.2.mono goes.precedes⟩
  come derived _ := derived.come _ _
  rest derived sameForest sameObjects counted sameMoments :=
    derived.rest sameForest sameObjects counted sameMoments
  plain := by
    intro value running isPlain
    cases value <;> first | exact ⟨trivial, trivial⟩ | exact isPlain.elim
  bound derived found :=
    ⟨(derived.settled.values _ _ _ found).1, derived.values _ _ _ found⟩
  field derived found := ⟨derived.settled.fields _ _ _ found, derived.fields _ _ _ found⟩
  inside index _ fits there noOpen := ⟨kinship.inside index fits.1 there noOpen, fits.2⟩
  superclass fits := ⟨kinship.superclass fits.1, fits.2⟩
  block derived fits := derived.block fits
  call derived good argsGood _ := derived.call good.1 argsGood
  declareVar derived fits good :=
    derived.define (kinship.declareVar derived.settled fits.1 good.1) good.2
  assign derived fits good target :=
    derived.define (kinship.assign derived.settled fits.1 good.1 target) good.2
  declareFunction derived fits arrived := derived.function fits arrived
  declareClass derived fits arrived sameKind good :=
    derived.declareClass fits arrived sameKind good
  classOf good := ⟨good.1, good.2.2⟩
  tie derived classGood found objectGood receiver :=
    derived.tie classGood found objectGood receiver
  create derived good := derived.create good
  set derived _ good := derived.set good

end LoxLang
