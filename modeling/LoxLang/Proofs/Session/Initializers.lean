import LoxLang.Proofs.Run.Construction
import LoxLang.Proofs.Session.Reaching

/-!
# Initializers yield their objects

A method is kept in the table of its class, and wherever it comes to be a value it has
been bound to an object.  So a call of an initializer, by its class or like that of any
method, yields the object, and a call of a class yields a new one.
-/

namespace LoxLang

section Calls

variable {chronicle : Chronicle} {host : Host} {moment : Moment} {paren : Token} {value : Value}
  {values : List Value} {ready : Machine}

/-- When a call is made, what is called and the arguments derive from statements of the run. -/
theorem Moment.Calls.derived (calls : moment.Calls host paren value values ready)
    (heeds : chronicle.Heeds derivation.always) (member : moment ∈ chronicle.history.moments) :
    ∃ running : Running, running.state = ready ∧ running.Derived ∧
      ∀ given ∈ value :: values, Watched.provenance.Good given running := by
  obtain ⟨callee, args, room, isCall, ends⟩ := calls
  obtain ⟨newer, older, split⟩ := List.append_of_mem member
  obtain ⟨derived, fits⟩ := heeds.atMoment ⟨newer, split.symm⟩
  rw [isCall] at fits
  have keeps : derivation.Keeps (moment.running older)
      (Watching.operands host room moment.address callee args) fun called running =>
        derivation.Good called.1 running ∧ derivation.AllGood called.2 running :=
    .operands host room derived fits
  obtain ⟨notes, led, good, argsGood⟩ :=
    keeps.of_plain (Watching.operands_retraces host room moment.address callee args) ends
  exact ⟨⟨ready, notes⟩, rfl, led.ok, List.forall_mem_cons.2 ⟨good, argsGood⟩⟩

/-- A call of a class that comes to an end yields a new object of the class. -/
theorem Moment.Calls.yields_object {cls : ClassValue}
    (calls : moment.Calls host paren (.class cls) values ready)
    (heeds : chronicle.Heeds derivation.always) (member : moment ∈ chronicle.history.moments) :
    (∀ id other, ready.Knows (.class cls :: values) (.object id other) →
      id < ready.objects.size) ∧
      ∀ room result after, Run.callValue host (Run.exec host room) paren (.class cls) values ready =
        .ok result after → result = .object ready.objects.size cls ∧
          Run.Initializes (Run.exec host room) cls values ready after := by
  obtain ⟨running, rfl, derived, good⟩ := calls.derived heeds member
  obtain ⟨classGood, argsGood⟩ := List.forall_mem_cons.1 good
  refine ⟨fun id other knows => (knows.good derived good).2.1, fun room result after ends => ?_⟩
  obtain ⟨lengths, called⟩ := Run.of_callWith ends
  exact derived.yields_object classGood argsGood lengths called

/-- A call of an initializer that comes to an end yields the object to which it has been bound. -/
theorem Moment.Calls.yields_this {closure : Closure} {object : Value}
    (calls : moment.Calls host paren (.closure closure) values ready)
    (heeds : chronicle.Heeds derivation.always) (member : moment ∈ chronicle.history.moments)
    (named : closure.decl.name.lexeme = initializerName)
    (this : (ready.forest.bindings closure.frame).get? "this" = some object) :
    (∃ id cls, object = .object id cls) ∧
      ∀ room result after, Run.callValue host (Run.exec host room) paren (.closure closure) values
        ready = .ok result after → result = object := by
  obtain ⟨running, rfl, derived, good⟩ := calls.derived heeds member
  obtain ⟨closureGood, argsGood⟩ := List.forall_mem_cons.1 good
  refine ⟨(derived.settled.values _ _ _ this).2.this rfl, fun room result after ends => ?_⟩
  have isInitializer : closure.isInitializer = true := by
    rw [closureGood.2.isInitializer this, decide_eq_true named]
  obtain ⟨lengths, called⟩ := Run.of_callWith ends
  exact derived.yields_this closureGood argsGood this isInitializer lengths called

end Calls

/-- Initializers yield their objects.  Wherever a session comes to, every function that is known has
been made by a function statement, or it is a method that has been bound to an object, and it is
none of those in the table of a class; and what a frame binds to `this` it binds to it for ever.
Hence, whenever a call of a class comes to an end, it yields an object that had not been there, and
the initializer of the class, if it has one, has been run once and has yielded the object.  Whenever
a call of a bound initializer comes to an end, it yields the object to which it has been bound. -/
theorem initializers_yield_objects (host : Host) (verbose : Bool) (taken : List Session.Step) :
    let chronicle := (Chronicle.fresh verbose).after host taken
    chronicle.session = (Session.fresh verbose).after host taken ∧
      (∀ running atHand, chronicle.Reaches host running atHand → ∀ closure,
        running.state.Knows atHand (.closure closure) →
          (running.MakesFunction closure ∨ running.BindsMethod closure) ∧
            ∀ cls, running.state.Knows atHand (.class cls) →
              ∀ name, cls.own.methods.get? name ≠ some closure) ∧
      (∀ earlier later, chronicle.Becomes earlier later → ∀ frame < earlier.forest.size,
        (later.forest.bindings frame).get? "this" =
          (earlier.forest.bindings frame).get? "this") ∧
      ∀ moment ∈ chronicle.history.moments, ∀ paren values ready,
        (∀ cls, moment.Calls host paren (.class cls) values ready →
          (∀ id other, ready.Knows (.class cls :: values) (.object id other) →
            id < ready.objects.size) ∧
            ∀ room result after,
              Run.callValue host (Run.exec host room) paren (.class cls) values ready =
                .ok result after → result = .object ready.objects.size cls ∧
                  Run.Initializes (Run.exec host room) cls values ready after) ∧
        ∀ closure object, moment.Calls host paren (.closure closure) values ready →
          closure.decl.name.lexeme = initializerName →
          (ready.forest.bindings closure.frame).get? "this" = some object →
            (∃ id cls, object = .object id cls) ∧ ∀ room result after,
              Run.callValue host (Run.exec host room) paren (.closure closure) values ready =
                .ok result after → result = object := by
  intro chronicle
  have heeds : chronicle.Heeds derivation.always := Chronicle.heeds_derivation host verbose taken
  refine ⟨Chronicle.session_after taken, ?_, ?_, ?_⟩
  · intro running atHand reaches closure knows
    obtain ⟨derived, -, good⟩ := reaches.derived heeds
    have derives := (knows.good derived good).2
    refine ⟨derives, fun cls knowsClass name => ?_⟩
    have classDerives : cls.Derives running := (knowsClass.good derived good).2
    obtain ⟨moment, methods, makes⟩ := classDerives cls (List.suffix_refl _)
    exact derives.ne_method makes
  · intro earlier later becomes frame inside
    have observes : chronicle.Observes kinship :=
      (Chronicle.Observes.fresh kinship_welcomes verbose).after kinship_welcomes host taken
    obtain ⟨-, leads⟩ := observes.becomes becomes
    exact leads.follows.kin frame inside "this" fun isName => isName.1 rfl
  · intro moment member paren values ready
    exact ⟨fun cls calls => calls.yields_object heeds member,
      fun closure object calls named this => calls.yields_this heeds member named this⟩

/-- The function that a value is. -/
def Value.closure? : Value → Option Closure
  | .closure function => some function
  | _ => none

theorem Value.closure?_eq_some {value : Value} {function : Closure} :
    value.closure? = some function ↔ value = .closure function := by
  cases value <;> simp [closure?]

/-- An initializer that returns from nested loops, after it has called a function that returns a
number, is called by its class and then by itself. -/
theorem initializers_yield_objects_returned :
    let host := Host.standard fun _ => 0
    let chronicle := (Chronicle.fresh false).after host
      [⟨.run ("class A \x7b init(x) \x7b while (true) for (;;) \x7b fun f() \x7b return 1; \x7d " ++
        "this.x = f(); return; \x7d \x7d \x7d var a = A(1); a.init(2);"), true⟩]
    ∃ made ∈ chronicle.history.moments, ∃ again ∈ chronicle.history.moments,
      (∃ paren values ready cls after, made.Calls host paren (.class cls) values ready ∧
        cls.initializer?.isSome = true ∧
        Run.callValue host (Run.exec host 40) paren (.class cls) values ready =
          .ok (.object ready.objects.size cls) after ∧
        Run.Initializes (Run.exec host 40) cls values ready after) ∧
      ∃ paren values ready closure object after,
        again.Calls host paren (.closure closure) values ready ∧
          (ready.forest.bindings closure.frame).get? "this" = some object ∧
          Run.callValue host (Run.exec host 40) paren (.closure closure) values ready =
            .ok object after := by
  intro host chronicle
  have facts : (chronicle.history.moments[35]?.any fun made =>
      chronicle.history.moments[17]?.any fun again =>
        ((made.call? host 40).any fun call =>
          (call.value.class?.any fun cls => cls.initializer?.isSome) &&
            (outcome? (call.run host 40) call.ready).isSome) &&
        (again.call? host 40).any fun call =>
          (call.value.closure?.any fun closure => closure.decl.name.lexeme == initializerName &&
            ((call.ready.forest.bindings closure.frame).get? "this").isSome) &&
            (outcome? (call.run host 40) call.ready).isSome) = true := by
    decide +kernel
  simp only [Option.any_eq_true, Bool.and_eq_true, Option.isSome_iff_exists, beq_iff_eq,
    Prod.exists, outcome?_eq_some, Value.class?_eq_some, Value.closure?_eq_some] at facts
  obtain ⟨made, isMade, again, isAgain, first, second⟩ := facts
  have madeThere : made ∈ chronicle.history.moments := List.mem_of_getElem? isMade
  have againThere : again ∈ chronicle.history.moments := List.mem_of_getElem? isAgain
  obtain ⟨-, -, -, yield⟩ := initializers_yield_objects host false
    [⟨.run ("class A \x7b init(x) \x7b while (true) for (;;) \x7b fun f() \x7b return 1; \x7d " ++
      "this.x = f(); return; \x7d \x7d \x7d var a = A(1); a.init(2);"), true⟩]
  refine ⟨made, madeThere, again, againThere, ?_, ?_⟩
  · obtain ⟨⟨paren, _, values, ready⟩, called, ⟨cls, rfl, initializer, found⟩, result, after,
      ends⟩ := first
    have calls := Moment.Calls.of_call? called
    obtain ⟨rfl, initializes⟩ :=
      ((yield made madeThere paren values ready).1 cls calls).2 40 result after ends
    exact ⟨paren, values, ready, cls, after, calls,
      Option.isSome_iff_exists.2 ⟨initializer, found⟩, ends, initializes⟩
  · obtain ⟨⟨paren, _, values, ready⟩, called, ⟨closure, rfl, named, object, this⟩, result, after,
      ends⟩ := second
    have calls := Moment.Calls.of_call? called
    cases ((yield again againThere paren values ready).2 closure object calls named this).2 40
      result after ends
    exact ⟨paren, values, ready, closure, object, after, calls, this, ends⟩

end LoxLang
