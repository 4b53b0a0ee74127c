import LoxLang.Proofs.Links
import LoxLang.Proofs.Run.Lineage

/-!
# Where functions and classes come from

Functions and classes get numbers as they are made, and no number twice.  So the notes
on a run tell where each of them comes from.  A function that a program can get hold of
has been made by a function statement, or else it is a method bound to an object.  The
methods themselves have been made by a class statement, and stay in the table of their
class.
-/

namespace LoxLang

namespace Machine

variable {machine : Machine} {name : Token} {superclass : Option ClassValue}
  {methods : List (FunctionDecl Site)} {key : String} {method : Closure}

/-- The class has the last method of the name that is declared in its body. -/
theorem decl_of_newClass (machine : Machine) (name : Token) (superclass : Option ClassValue)
    (methods : List (FunctionDecl Site)) (key : String) :
    ((machine.newClass name superclass methods).own.methods.get? key).map Closure.decl =
      methods.reverse.find? fun decl => decl.name.lexeme = key := by
  have bodies : methods.reverse = (methods.zipIdx machine.serial).reverse.map Prod.fst := by
    rw [List.map_reverse, List.zipIdx_map_fst]
  rw [newClass, get?_methodsFrom, Table.get?_empty, Option.or_none, Option.map_map, bodies,
    List.find?_map]
  rfl

/-- A method of a class has got one of the numbers before that of the class. -/
theorem of_newClass
    (found : (machine.newClass name superclass methods).own.methods.get? key = some method) :
    method.frame = machine.methodFrame superclass ∧ machine.serial ≤ method.serial ∧
      method.serial < machine.serial + methods.length ∧ method.decl.name.lexeme = key ∧
      method.isInitializer = decide (key = initializerName) := by
  rw [newClass, get?_methodsFrom, Table.get?_empty, Option.or_none] at found
  obtain ⟨entry, isLast, rfl⟩ := Option.map_eq_some_iff.1 found
  have member := List.mem_reverse.1 (List.mem_of_find?_eq_some isLast)
  have within := List.mem_zipIdx member
  have named : entry.1.name.lexeme = key := by
    have test := List.find?_some isLast
    simpa using test
  exact ⟨rfl, within.1, within.2.1, named, by rw [named]⟩

end Machine

namespace Watched

variable {running : Running} {moment : Moment} {count : Nat}

/-- The second run goes on where the first one has come to. -/
structure Goes (earlier later : Running) : Prop where
  precedes : earlier.state.forest.Precedes later.state.forest
  serial : earlier.state.serial ≤ later.state.serial
  objects : earlier.state.objects.size ≤ later.state.objects.size
  moments : ∃ newer, later.notes.moments = newer ++ earlier.notes.moments ∧
    ∀ moment ∈ newer, earlier.state.serial ≤ moment.machine.serial

namespace Goes

theorem refl (running : Running) : running.Goes running where
  precedes := .refl _
  serial := Nat.le_refl _
  objects := Nat.le_refl _
  moments := ⟨[], rfl, nofun⟩

theorem trans {first second third : Running} (one : first.Goes second)
    (other : second.Goes third) : first.Goes third where
  precedes := one.precedes.trans other.precedes
  serial := Nat.le_trans one.serial other.serial
  objects := Nat.le_trans one.objects other.objects
  moments := by
    obtain ⟨newer, moments, since⟩ := one.moments
    obtain ⟨newest, laterMoments, laterSince⟩ := other.moments
    refine ⟨newest ++ newer, by rw [laterMoments, moments, List.append_assoc], ?_⟩
    exact List.forall_mem_append.2
      ⟨fun moment member => Nat.le_trans one.serial (laterSince moment member), since⟩

/-- The run has come to no other node. -/
theorem become {machine : Machine} (precedes : running.state.forest.Precedes machine.forest)
    (serial : running.state.serial ≤ machine.serial)
    (objects : running.state.objects.size ≤ machine.objects.size) :
    running.Goes (running.become machine) :=
  ⟨precedes, serial, objects, [], rfl, nofun⟩

theorem come (running : Running) (address : Address) (node : Node Site) :
    running.Goes (running.come address node) where
  precedes := .refl _
  serial := Nat.le_refl _
  objects := Nat.le_refl _
  moments := ⟨[⟨address, node, running.state⟩], rfl, by
    rintro moment member
    cases List.mem_singleton.1 member
    exact Nat.le_refl _⟩

end Goes

/-- The run has come to the moment, and has since used up the next few numbers, all before it came
to another statement. -/
structure Spent (running : Running) (moment : Moment) (count : Nat) : Prop where
  counted : moment.machine.serial + count ≤ running.state.serial
  since : ∃ newer older, running.notes.moments = newer ++ moment :: older ∧
    ∀ later ∈ newer, ∀ s, later.node = .stmt s →
      moment.machine.serial + count ≤ later.machine.serial

theorem Spent.mono {earlier later : Running} (spent : earlier.Spent moment count)
    (goes : earlier.Goes later) : later.Spent moment count := by
  obtain ⟨newer, older, split, since⟩ := spent.since
  obtain ⟨newest, moments, laterSince⟩ := goes.moments
  refine ⟨Nat.le_trans spent.counted goes.serial, newest ++ newer, older, ?_, ?_⟩
  · rw [moments, split, List.append_assoc]
  · refine List.forall_mem_append.2 ⟨fun next member _ _ => ?_, since⟩
    exact Nat.le_trans spent.counted (laterSince next member)

/-- A statement uses up numbers. -/
theorem At.spent {s : Stmt Site} (arrived : running.At s) {machine : Machine}
    (counted : running.state.serial + count ≤ machine.serial) :
    ∃ moment, moment.node = .stmt s ∧ moment.machine = running.state ∧
      (running.become machine).Spent moment count := by
  obtain ⟨newer, moment, older, split, isStmt, sameMachine, exprs⟩ := arrived
  rw [← sameMachine] at counted
  refine ⟨moment, isStmt, sameMachine, counted, newer, older, split, ?_⟩
  intro next member s isOther
  obtain ⟨e, isExpr⟩ := exprs next member
  cases isExpr.symm.trans isOther

/-- Of two statements the later one uses up later numbers. -/
theorem Spent.apart {first second : Moment} {number : Nat} (spent : running.Spent first count)
    (other : running.Spent second number) {s t : Stmt Site} (isFirst : first.node = .stmt s)
    (isSecond : second.node = .stmt t) (distinct : s ≠ t) :
    first.machine.serial + count ≤ second.machine.serial ∨
      second.machine.serial + number ≤ first.machine.serial := by
  obtain ⟨newer, older, split, since⟩ := spent.since
  obtain ⟨newest, oldest, otherSplit, otherSince⟩ := other.since
  have differ : first ≠ second := by
    rintro rfl
    cases isFirst.symm.trans isSecond
    exact distinct rfl
  rw [split] at otherSplit
  rcases List.append_eq_append_iff.1 otherSplit with ⟨between, rfl, rest⟩ | ⟨between, rfl, rest⟩
  · cases between with
    | nil => exact absurd (List.cons.inj rest).1 differ
    | cons next between =>
        obtain ⟨rfl, -⟩ := List.cons.inj rest
        exact .inr (otherSince first (by simp) s isFirst)
  · cases between with
    | nil => exact absurd (List.cons.inj rest).1.symm differ
    | cons next between =>
        obtain ⟨rfl, -⟩ := List.cons.inj rest
        exact .inl (since second (by simp) t isSecond)

end Watched

/-- The frame does not bind `this`. -/
structure Forest.Unbound (forest : Forest Value) (frame : FrameId) : Prop where
  present : frame < forest.size
  this : (forest.bindings frame).get? "this" = none

namespace Watched

/-- A function statement has made the function. -/
structure MakesFunction (running : Running) (closure : Closure) : Prop where
  made : ∃ moment decl, moment.node = .stmt (.function decl) ∧ running.Spent moment 1 ∧
    closure = moment.machine.declared decl
  unbound : running.state.forest.Unbound closure.frame

/-- A class statement with these methods has made the class, and its superclass had been made
before. -/
structure MakesClass (running : Running) (moment : Moment) (methods : List (FunctionDecl Site))
    (cls : ClassValue) : Prop where
  made : ∃ name parent superclass, moment.node = .stmt (.class name parent methods) ∧
    superclass.isSome = parent.isSome ∧ cls = moment.machine.newClass name superclass methods ∧
      ∀ above ∈ superclass, above.own.serial < moment.machine.serial
  spent : running.Spent moment (methods.length + 1)
  unbound : ∀ name method, cls.own.methods.get? name = some method →
    running.state.forest.Unbound method.frame

end Watched

/-- The machine has bound the method to the object: the function has the body of the method, and its
frame lies directly in that of the method and binds `this` to the object. -/
structure Machine.Ties (machine : Machine) (method bound : Closure) (object : Value) : Prop where
  decl : bound.decl = method.decl
  isInitializer : bound.isInitializer = method.isInitializer
  present : bound.frame < machine.forest.size
  outer : machine.forest.outer bound.frame = machine.forest.chain method.frame
  this : (machine.forest.bindings bound.frame).get? "this" = some object
  isObject : ∃ id cls, object = .object id cls ∧ id < machine.objects.size

/-- The function is a method of a class that has been made, bound to an object. -/
def Watched.BindsMethod (running : Running) (bound : Closure) : Prop :=
  ∃ moment methods cls name method object, running.MakesClass moment methods cls ∧
    cls.own.methods.get? name = some method ∧ running.state.Ties method bound object

section Derivation

variable (running : Running)

/-- The class and its superclasses have been made by class statements. -/
def ClassValue.Derives (cls : ClassValue) : Prop :=
  ∀ other : ClassValue, other.chain <:+ cls.chain →
    ∃ moment methods, running.MakesClass moment methods other

/-- Whatever functions and classes can be reached from the value have been made by statements of the
run, and methods have been bound. -/
def Value.Derives : Value → Prop
  | .closure function => running.MakesFunction function ∨ running.BindsMethod function
  | .class cls => cls.Derives running
  | .object id cls => id < running.state.objects.size ∧ cls.Derives running
  | _ => True

end Derivation

section Later

variable {earlier later : Running}

theorem Forest.Unbound.mono {before after : Forest Value} {frame : FrameId}
    (unbound : before.Unbound frame) (precedes : before.Precedes after) :
    after.Unbound frame where
  present := Nat.lt_of_lt_of_le unbound.present precedes.size
  this := by
    rw [precedes.kin frame unbound.present "this" fun isName => isName.1 rfl, unbound.this]

theorem Machine.Ties.mono {before after : Machine} {method bound : Closure} {object : Value}
    (ties : before.Ties method bound object) (unbound : before.forest.Unbound method.frame)
    (precedes : before.forest.Precedes after.forest)
    (objects : before.objects.size ≤ after.objects.size) : after.Ties method bound object where
  decl := ties.decl
  isInitializer := ties.isInitializer
  present := Nat.lt_of_lt_of_le ties.present precedes.size
  outer := by
    rw [precedes.chain method.frame unbound.present, ← ties.outer]
    exact (List.cons.inj (precedes.chain bound.frame ties.present)).2
  this := by
    rw [precedes.kin bound.frame ties.present "this" fun isName => isName.1 rfl, ties.this]
  isObject := by
    obtain ⟨id, cls, same, inside⟩ := ties.isObject
    exact ⟨id, cls, same, Nat.lt_of_lt_of_le inside objects⟩

variable (goes : earlier.Goes later)

include goes

theorem Watched.MakesClass.mono {moment : Moment} {methods : List (FunctionDecl Site)}
    {cls : ClassValue} (makes : earlier.MakesClass moment methods cls) :
    later.MakesClass moment methods cls where
  made := makes.made
  spent := makes.spent.mono goes
  unbound name method found := (makes.unbound name method found).mono goes.precedes

theorem Watched.MakesFunction.mono {closure : Closure} (makes : earlier.MakesFunction closure) :
    later.MakesFunction closure where
  made := by
    obtain ⟨moment, decl, isStatement, spent, same⟩ := makes.made
    exact ⟨moment, decl, isStatement, spent.mono goes, same⟩
  unbound := makes.unbound.mono goes.precedes

theorem Watched.BindsMethod.mono {bound : Closure} (binds : earlier.BindsMethod bound) :
    later.BindsMethod bound := by
  obtain ⟨moment, methods, cls, name, method, object, makes, found, binds⟩ := binds
  exact ⟨moment, methods, cls, name, method, object, makes.mono goes, found,
    binds.mono (makes.unbound name method found) goes.precedes goes.objects⟩

theorem ClassValue.Derives.mono {cls : ClassValue} (derives : cls.Derives earlier) :
    cls.Derives later := by
  intro other suffix
  obtain ⟨moment, methods, makes⟩ := derives other suffix
  exact ⟨moment, methods, makes.mono goes⟩

theorem Value.Derives.mono {value : Value} (derives : value.Derives earlier) :
    value.Derives later := by
  cases value with
  | closure closure =>
      exact derives.imp (Watched.MakesFunction.mono goes) (Watched.BindsMethod.mono goes)
  | «class» cls => exact ClassValue.Derives.mono goes derives
  | object id cls =>
      exact ⟨Nat.lt_of_lt_of_le derives.1 goes.objects, ClassValue.Derives.mono goes derives.2⟩
  | _ => trivial

end Later

section Apart

variable {running : Running} {moment : Moment} {methods : List (FunctionDecl Site)}
  {cls : ClassValue} {name : String} {method : Closure}

/-- What a function statement has made is no method. -/
theorem Watched.MakesFunction.ne_method {closure : Closure} (makes : running.MakesFunction closure)
    (makesClass : running.MakesClass moment methods cls)
    (found : cls.own.methods.get? name = some method) : closure.serial ≠ method.serial := by
  obtain ⟨first, decl, isFunction, spent, rfl⟩ := makes.made
  obtain ⟨className, parent, superclass, isClass, -, rfl, -⟩ := makesClass.made
  obtain ⟨-, after, before, -⟩ := Machine.of_newClass found
  have apart := spent.apart makesClass.spent isFunction isClass nofun
  have same : (first.machine.declared decl).serial = first.machine.serial := rfl
  omega

/-- No method that stays in the table of its class is a value. -/
theorem Value.Derives.ne_method (derives : (Value.closure method).Derives running)
    (makes : running.MakesClass moment methods cls) :
    cls.own.methods.get? name ≠ some method := by
  intro found
  rcases derives with makesFunction | ⟨_, _, _, _, _, object, _, _, binds⟩
  · exact makesFunction.ne_method makes found rfl
  · have this := (makes.unbound name method found).this
    rw [binds.this] at this
    cases this

end Apart

end LoxLang
