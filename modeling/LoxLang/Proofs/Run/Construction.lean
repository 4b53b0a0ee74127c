import LoxLang.Proofs.Run.Arity
import LoxLang.Proofs.Run.Derivation
import LoxLang.Proofs.Run.Observance
import LoxLang.Proofs.Run.Retracing

/-!
# Making objects

To call a class is to make an object and to let the initializer of the class, if it has
one, work on it.  When the body of the initializer has ended, in whatever way, its
object is looked up where it was bound; and there it still is, as no statement can bind
`this`.
-/

namespace LoxLang

namespace Run

variable {execute : Stmt Site → Run Completion} {machine after : Machine} {result : Value}
  {args : List Value}

/-- A call that comes to an end had as many arguments as it takes, and its body came to this end. -/
theorem of_callWith {paren : Token} {arity : Nat} {body : Run Value}
    (ends : callWith paren arity args body machine = .ok result after) :
    args.length = arity ∧ body machine = .ok result after := by
  unfold callWith at ends
  split at ends
  · rename_i lengths
    refine ⟨lengths, ?_⟩
    unfold catchOverflow at ends
    split at ends
    · rename_i outcome
      rw [outcome, ends]
    · cases ends
    · cases ends
  · cases ends

/-- What an initializer yields is bound to `this` in its frame, however its body has ended. -/
theorem this_of_callClosure {closure : Closure} (isInitializer : closure.isInitializer = true)
    (ends : callClosure execute closure args machine = .ok result after) :
    (after.forest.bindings closure.frame).get? "this" = some result := by
  rw [callClosure_eq] at ends
  obtain ⟨completion, middle, -, ends⟩ := bind_eq_ok.1 ends
  unfold answer at ends
  rw [if_pos isInitializer] at ends
  unfold lookUpAt Forest.getAt Forest.ancestor at ends
  simp only [Forest.chain, List.getElem?_cons_zero, Bind.bind, Except.bind] at ends
  cases bound : (middle.forest.bindings closure.frame).get? "this" with
  | none =>
      rw [bound] at ends
      cases ends
  | some object =>
      rw [bound] at ends
      cases ends
      exact bound

/-- A new object of the class has been initialized: the initializer has been run once as a method of
the object and has yielded it, or there is none and nothing else has happened. -/
def Initializes (execute : Stmt Site → Run Completion) (cls : ClassValue) (args : List Value)
    (machine after : Machine) : Prop :=
  match cls.initializer? with
  | none => after = machine.created
  | some initializer =>
      callClosure execute (machine.created.tie initializer) args
          (machine.created.tied initializer (.object machine.objects.size cls)) =
        .ok (.object machine.objects.size cls) after

theorem callClass_of_none {cls : ClassValue} (without : cls.initializer? = none) :
    callClass execute cls args machine =
      .ok (.object machine.objects.size cls) machine.created := by
  unfold callClass
  rw [without]
  rfl

/-- The initializer is bound to the new object and called, and what it yields is forgotten. -/
theorem callClass_of_some {cls : ClassValue} {initializer : Closure}
    (has : cls.initializer? = some initializer) :
    callClass execute cls args machine =
      (callClosure execute (machine.created.tie initializer) args >>= fun _ =>
        return .object machine.objects.size cls)
          (machine.created.tied initializer (.object machine.objects.size cls)) := by
  unfold callClass
  rw [has]
  rfl

end Run

/-- A function whose frame binds `this` is a method, and is an initializer if it has the name. -/
theorem Value.Derives.isInitializer {running : Running} {closure : Closure} {object : Value}
    (derives : (Value.closure closure).Derives running)
    (this : (running.state.forest.bindings closure.frame).get? "this" = some object) :
    closure.isInitializer = decide (closure.decl.name.lexeme = initializerName) := by
  rcases derives with makes | ⟨_, _, cls, name, method, _, makes, found, ties⟩
  · rw [makes.unbound.this] at this
    cases this
  · obtain ⟨className, parent, superclass, -, -, rfl, -⟩ := makes.made
    obtain ⟨-, -, -, named, isInitializer⟩ := Machine.of_newClass found
    rw [ties.isInitializer, ties.decl, named, isInitializer]

/-- A class's initializer is one. -/
theorem ClassValue.Derives.isInitializer {running : Running} {cls : ClassValue}
    {initializer : Closure} (derives : cls.Derives running)
    (found : cls.initializer? = some initializer) : initializer.isInitializer = true := by
  obtain ⟨entry, ancestors, suffix, inEntry⟩ := ClassValue.suffix_of_method? found
  obtain ⟨moment, methods, makes⟩ := derives ⟨entry, ancestors⟩ suffix
  obtain ⟨className, parent, superclass, -, -, same, -⟩ := makes.made
  have own := congrArg (fun cls : ClassValue => cls.own.methods.get? initializerName) same
  obtain ⟨-, -, -, -, isInitializer⟩ := Machine.of_newClass (own.symm.trans inEntry)
  rw [isInitializer, decide_eq_true rfl]

namespace Watched

variable {running : Running} {host : Host} {room : Nat} {args : List Value} {after : Machine}
  {result : Value}

/-- An initializer yields the object that it is bound to. -/
theorem Derived.yields_this (derived : running.Derived) {closure : Closure} {object : Value}
    (good : provenance.Good (.closure closure) running)
    (argsGood : ∀ arg ∈ args, provenance.Good arg running)
    (this : (running.state.forest.bindings closure.frame).get? "this" = some object)
    (isInitializer : closure.isInitializer = true) (lengths : args.length = closure.arity)
    (ends : Run.callClosure (Run.exec host room) closure args running.state =
      .ok result after) : result = object := by
  have keeps : derivation.Keeps running
      (Watching.callClosure (Watching.exec host room) closure args) derivation.Good :=
    .callClosure (.exec host room) derived good argsGood lengths
  obtain ⟨notes, led, -⟩ :=
    keeps.of_plain (Watching.callClosure_retraces (Watching.exec_retraces host room) _ _) ends
  have settled : closure.Settled running.state.forest := good.1
  have kept := led.follows.precedes.kin closure.frame settled.present "this"
    fun isName => isName.1 rfl
  have yielded := Run.this_of_callClosure isInitializer ends
  exact Option.some.inj (yielded.symm.trans (kept.trans this))

/-- A class yields a new object, which has been initialized. -/
theorem Derived.yields_object (derived : running.Derived) {cls : ClassValue}
    (good : provenance.Good (.class cls) running)
    (argsGood : ∀ arg ∈ args, provenance.Good arg running) (lengths : args.length = cls.arity)
    (ends : Run.callClass (Run.exec host room) cls args running.state = .ok result after) :
    result = .object running.state.objects.size cls ∧
      Run.Initializes (Run.exec host room) cls args running.state after := by
  unfold Run.Initializes
  cases found : cls.initializer? with
  | none =>
      rw [Run.callClass_of_none found] at ends
      cases ends
      exact ⟨rfl, rfl⟩
  | some initializer =>
      rw [Run.callClass_of_some found] at ends
      obtain ⟨yielded, last, called, ends⟩ := bind_eq_ok.1 ends
      cases ends
      obtain ⟨made, objectGood⟩ := derived.create good
      have grown : provenance.Good (.class cls) (running.become running.state.created) :=
        derivation.good_later made.follows good
      obtain ⟨tied, boundGood⟩ := made.ok.tie grown found objectGood (.inl ⟨_, _, rfl⟩)
      have classDerives : cls.Derives running := good.2
      have isInitializer := classDerives.isInitializer found
      have follows := made.follows.trans tied.follows
      have bindings : (running.state.created.tied initializer
          (.object running.state.objects.size cls)).forest.bindings running.state.forest.size =
            Table.empty.insert "this" (.object running.state.objects.size cls) :=
        Forest.bindings_define_child _ _ _ _
      have isObject : yielded = .object running.state.objects.size cls := by
        refine tied.ok.yields_this boundGood
          (fun arg member => derivation.good_later follows (argsGood arg member)) ?_
          isInitializer ?_ called
        · exact (congrArg (Table.get? · "this") bindings).trans (Table.get?_insert_self _ _ _)
        · rw [lengths, ClassValue.arity, found]
          rfl
      exact ⟨rfl, isObject ▸ called⟩

end Watched

end LoxLang
