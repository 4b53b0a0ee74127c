import LoxLang.Proofs.Run.Derivation
import LoxLang.Proofs.Run.Operands
import LoxLang.Proofs.Session.Inheritance

/-!
# What a session comes to

A session comes to a machine between its steps, and while it runs a program before each
node and after it.  There are values that the machine keeps, in frames and as fields,
and values that are at hand: that of an expression, that of a callee with the arguments,
and the one that a statement returns.  Classes are known from their objects, too, and
superclasses from classes.
-/

namespace LoxLang

/-- The value with which a statement returns, if it does. -/
def Completion.values : Completion → List Value
  | .normal => []
  | .returned value => [value]

/-- The session comes to where the run is, with these values at hand. -/
inductive Chronicle.Reaches (host : Host) (chronicle : Chronicle) :
    Running → List Value → Prop where
  | between : Reaches host chronicle chronicle.watched []
  | before {moment : Moment} {older : List Moment}
      (noted : moment :: older <:+ chronicle.history.moments) :
      Reaches host chronicle (moment.running older) []
  | evaluated {moment : Moment} {older : List Moment} {e : Expr Site} {room : Nat} {value : Value}
      {after : Running} (noted : moment :: older <:+ chronicle.history.moments)
      (isExpr : moment.node = .expr e)
      (ends : Watching.eval host room moment.address e (moment.running older) = .ok value after) :
      Reaches host chronicle after [value]
  | operands {moment : Moment} {older : List Moment} {callee : Expr Site} {paren : Token}
      {args : List (Expr Site)} {room : Nat} {value : Value} {values : List Value}
      {after : Running} (noted : moment :: older <:+ chronicle.history.moments)
      (isCall : moment.node = .expr (.call callee paren args))
      (ends : Watching.operands host room moment.address callee args (moment.running older) =
        .ok (value, values) after) :
      Reaches host chronicle after (value :: values)
  | executed {moment : Moment} {older : List Moment} {s : Stmt Site} {room : Nat}
      {completion : Completion} {after : Running}
      (noted : moment :: older <:+ chronicle.history.moments) (isStmt : moment.node = .stmt s)
      (ends : Watching.exec host room moment.address s (moment.running older) =
        .ok completion after) :
      Reaches host chronicle after completion.values

/-- The value is at hand or kept by the machine, or a class that is known from such a value. -/
inductive Machine.Knows (machine : Machine) (atHand : List Value) : Value → Prop where
  | atHand {value : Value} (member : value ∈ atHand) : Knows machine atHand value
  | held {value : Value} (holds : machine.Holds value) : Knows machine atHand value
  | classOf {id : Nat} {cls : ClassValue} (knows : Knows machine atHand (.object id cls)) :
      Knows machine atHand (.class cls)
  | superclass {cls above : ClassValue} (knows : Knows machine atHand (.class cls))
      (isSuperclass : cls.superclass? = some above) : Knows machine atHand (.class above)

theorem ClassValue.chain_of_superclass? {cls above : ClassValue}
    (isSuperclass : cls.superclass? = some above) : above.chain = cls.ancestors := by
  obtain ⟨own, ancestors⟩ := cls
  cases ancestors with
  | nil => cases isSuperclass
  | cons parent others =>
      cases isSuperclass
      rfl

section Good

variable {running : Running}

open Watched

/-- The superclass of a class derives from its own statement. -/
theorem Watched.good_superclass {cls above : ClassValue}
    (good : provenance.Good (.class cls) running) (isSuperclass : cls.superclass? = some above) :
    provenance.Good (.class above) running := by
  have suffix : above.chain <:+ cls.chain := by
    rw [ClassValue.chain_of_superclass? isSuperclass]
    exact List.suffix_cons _ _
  exact ⟨fun entry ancestors inner => good.1 entry ancestors (inner.trans suffix),
    fun other inner => good.2 other (inner.trans suffix)⟩

/-- Whatever is known derives from statements of the run. -/
theorem Machine.Knows.good {atHand : List Value} {value : Value} (derived : running.Derived)
    (good : ∀ value ∈ atHand, provenance.Good value running)
    (knows : running.state.Knows atHand value) : provenance.Good value running := by
  induction knows with
  | atHand member => exact good _ member
  | held holds =>
      rcases holds with ⟨frame, name, found⟩ | ⟨id, name, found⟩
      · exact derivation.bound derived found
      · exact derivation.field derived found
  | classOf _ induction => exact derivation.classOf induction
  | superclass _ isSuperclass induction => exact good_superclass induction isSuperclass

end Good

/-- On the fresh machine there is but a primitive function. -/
theorem Watched.Derived.start : Watched.Derived ⟨Machine.fresh, History.blank⟩ where
  settled := .start
  frames := Forest.Descends.root.define _ _ _
  values frame name value found := by
    rcases Forest.get?_define found with bare | ⟨-, -, rfl⟩
    · rw [Forest.bindings_root] at bare
      cases bare
    · trivial
  fields id name value found := by cases found

/-- Nothing binds `this` at the top level. -/
theorem Machine.Settled.unbound_top {machine : Machine} (settled : machine.Settled) :
    machine.forest.Unbound globalFrame where
  present := settled.top.present
  this := by
    have unbound := settled.top.kin "this" fun isName => isName.1 rfl
    simpa [Forest.chain, Table.binds] using (List.cons.inj unbound).1

theorem derivation_welcomes : derivation.Welcomes where
  fresh := .start
  accepted accepted derived s member :=
    ⟨⟨[], derived.settled.top, .nil, accepted.settled s member⟩, derived.settled.unbound_top⟩

namespace Chronicle

variable {host : Host} {chronicle : Chronicle} {running : Running} {atHand : List Value}

/-- At all moments whatever is kept derives from the statements before. -/
theorem heeds_derivation (host : Host) (verbose : Bool) (taken : List Session.Step) :
    ((Chronicle.fresh verbose).after host taken).Heeds derivation.always :=
  (Heeds.fresh derivation_welcomes.always verbose).after derivation_welcomes.always host taken

/-- What holds at a moment. -/
theorem Heeds.atMoment (heeds : chronicle.Heeds derivation.always) {moment : Moment}
    {older : List Moment} (noted : moment :: older <:+ chronicle.history.moments) :
    (moment.running older).Derived ∧
      Watched.provenance.Fits (moment.running older) moment.machine.current moment.node.part :=
  heeds.ok.suits noted

/-- Where the session comes to, everything derives from statements of the run, and the machine is in
one of its frames. -/
theorem Reaches.derived (heeds : chronicle.Heeds derivation.always)
    (reaches : chronicle.Reaches host running atHand) :
    running.Derived ∧ running.state.current < running.state.forest.size ∧
      ∀ value ∈ atHand, Watched.provenance.Good value running := by
  cases reaches with
  | between =>
      have derived : chronicle.watched.Derived := heeds.ok.ok
      have present : chronicle.watched.state.current < chronicle.watched.state.forest.size := by
        rw [show chronicle.watched.state.current = _ from heeds.atTop]
        exact derived.frames.present
      exact ⟨derived, present, nofun⟩
  | before noted =>
      obtain ⟨derived, fits⟩ := heeds.atMoment noted
      exact ⟨derived, fits.2.present, nofun⟩
  | @evaluated moment older e room value _ noted isExpr ends =>
      obtain ⟨derived, fits⟩ := heeds.atMoment noted
      rw [isExpr] at fits
      have keeps : derivation.Keeps (moment.running older)
          (Watching.eval host room moment.address e) derivation.Good :=
        .eval host room derived fits
      obtain ⟨led, good⟩ := keeps.of_ok ends
      exact ⟨led.ok, (led.fits fits).2.present, List.forall_mem_singleton.2 good⟩
  | @operands moment older callee paren args room value values _ noted isCall ends =>
      obtain ⟨derived, fits⟩ := heeds.atMoment noted
      rw [isCall] at fits
      have keeps : derivation.Keeps (moment.running older)
          (Watching.operands host room moment.address callee args) fun called running =>
            derivation.Good called.1 running ∧ derivation.AllGood called.2 running :=
        .operands host room derived fits
      obtain ⟨led, good, argsGood⟩ := keeps.of_ok ends
      exact ⟨led.ok, (led.fits fits).2.present, List.forall_mem_cons.2 ⟨good, argsGood⟩⟩
  | @executed moment older s room completion _ noted isStmt ends =>
      obtain ⟨derived, fits⟩ := heeds.atMoment noted
      rw [isStmt] at fits
      have keeps : derivation.Keeps (moment.running older)
          (Watching.exec host room moment.address s) derivation.GoodEnd :=
        .exec host room _ _ s derived fits
      obtain ⟨led, good⟩ := keeps.of_ok ends
      refine ⟨led.ok, (led.fits fits).2.present, ?_⟩
      cases completion with
      | normal => nofun
      | returned value => exact List.forall_mem_singleton.2 good

end Chronicle

end LoxLang
