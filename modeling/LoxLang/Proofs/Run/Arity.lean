import LoxLang.Proofs.Run.Effects
import LoxLang.Session.Step

/-!
# Calls and the number of their arguments

A run enters a declared function by `Run.callClosure`, whether the function is called by
itself, as a method, or to initialize an object.  Here the way in is left open: a run
with another way in is the same run, as long as that way differs only where there are
more or fewer arguments than parameters.  So no run ever enters a function like that.
-/

namespace LoxLang

/-- How many arguments the value takes, if it can be called. -/
def Value.arity? : Value → Option Nat
  | .primitive function => some function.arity
  | .closure function => some function.arity
  | .class cls => some cls.arity
  | _ => none

namespace Run

/-- A way to enter a declared function with some arguments, given how statements are executed. -/
abbrev Entry := (Stmt Site → Run Completion) → Closure → List Value → Run Value

section By

variable (enter : Entry)

/-- Make an object, and let the class's initializer work on it, which is entered in this way. -/
def callClassBy (execute : Stmt Site → Run Completion) (cls : ClassValue) (args : List Value) :
    Run Value := do
  let object ← newObject cls
  match cls.initializer? with
  | none => return object
  | some initializer =>
      let bound ← bind initializer object
      let _ ← enter execute bound args
      return object

/-- Call a value; declared functions are entered in this way. -/
def callValueBy (host : Host) (execute : Stmt Site → Run Completion) (paren : Token)
    (callee : Value) (args : List Value) : Run Value :=
  match callee with
  | .primitive function => callWith paren function.arity args (readClock host)
  | .closure closure => callWith paren closure.arity args (enter execute closure args)
  | .class cls => callWith paren cls.arity args (callClassBy enter execute cls args)
  | _ => fault paren .notCallable

mutual

/-- Evaluate an expression; declared functions are entered in this way. -/
def evalBy (host : Host) : (room : Nat) → Expr Site → Run Value
  | 0, _ => throw .overflow
  | room + 1, e =>
      match e with
      | .literal value => return .ofLiteral value
      | .grouping inner => evalBy host room inner
      | .unary op operand => do
          let value ← evalBy host room operand
          applyUnary op value
      | .binary left op right => do
          let left ← evalBy host room left
          let right ← evalBy host room right
          applyBinary op left right
      | .logical left op right => do
          let left ← evalBy host room left
          if decides op left then return left else evalBy host room right
      | .variable name site => lookUp name site
      | .assign name site value => do
          let value ← evalBy host room value
          store name site value
          return value
      | .call callee paren args => do
          let callee ← evalBy host room callee
          let args ← evalEach (evalBy host room) args
          callValueBy enter host (execBy host room) paren callee args
      | .get object name => do
          let object ← evalBy host room object
          property object name
      | .set object name value => do
          match ← evalBy host room object with
          | .object id _ =>
              let value ← evalBy host room value
              setField id name.lexeme value
              return value
          | _ => fault name .noFields
      | .this keyword site => lookUp keyword site
      | .super _ method site => superMethod method site

/-- Execute a statement; declared functions are entered in this way. -/
def execBy (host : Host) : (room : Nat) → Stmt Site → Run Completion
  | 0, _ => throw .overflow
  | room + 1, s =>
      match s with
      | .expression value => do
          let _ ← evalBy host room value
          return .normal
      | .print value => do
          let value ← evalBy host room value
          emit value.shown
          return .normal
      | .var name none => do
          defineHere name.lexeme .nil
          return .normal
      | .var name (some initializer) => do
          let value ← evalBy host room initializer
          defineHere name.lexeme value
          return .normal
      | .block body => do
          let frame ← childOf (← here)
          inFrame frame (execEach (execBy host room) body)
      | .conditional condition thenBranch elseBranch => do
          let value ← evalBy host room condition
          if value.isTruthy then execBy host room thenBranch
          else
            match elseBranch with
            | some branch => execBy host room branch
            | none => return .normal
      | .loop condition body =>
          iterate (evalBy host room condition) (execBy host room body) host.patience
      | .function decl => do
          let closure ← makeClosure decl (← here) false
          defineHere decl.name.lexeme (.closure closure)
          return .normal
      | .return _ none => return .returned .nil
      | .return _ (some value) => do
          let value ← evalBy host room value
          return .returned value
      | .class name parent methods => do
          declareClass name parent methods
          return .normal
      | .lost => defect .lostStatement

end

/-- Execute the statements of a program; declared functions are entered in this way. -/
def programBy (host : Host) : List (Stmt Site) → Run Unit
  | [] => return ()
  | first :: rest => do
      let _ ← execBy enter host host.room first
      programBy host rest

/-- The way in is the usual one wherever there are as many arguments as parameters. -/
def Entry.Usual (enter : Entry) : Prop :=
  ∀ execute closure args, args.length = closure.arity →
    enter execute closure args = callClosure execute closure args

end By

section Agreement

variable {enter : Entry} (usual : enter.Usual)

include usual

/-- The initializer that is bound to the new object takes the arguments that the class takes: it is
found again where it was found when they were counted. -/
theorem callClassBy_eq (execute : Stmt Site → Run Completion) {cls : ClassValue}
    {args : List Value} (fits : args.length = cls.arity) :
    callClassBy enter execute cls args = callClass execute cls args := by
  unfold callClassBy callClass
  refine bind_congr fun object => ?_
  unfold ClassValue.arity at fits
  cases found : cls.initializer? with
  | none => rfl
  | some initializer =>
      rw [found] at fits
      funext machine
      have tied : bind initializer object machine =
          .ok (machine.tie initializer) (machine.tied initializer object) := rfl
      have entered := usual execute (machine.tie initializer) args fits
      dsimp only
      rw [bind_of_ok tied, bind_of_ok tied, entered]

theorem callValueBy_eq (host : Host) (execute : Stmt Site → Run Completion) (paren : Token)
    (callee : Value) (args : List Value) :
    callValueBy enter host execute paren callee args =
      callValue host execute paren callee args := by
  cases callee with
  | closure function =>
      unfold callValueBy callValue callWith
      dsimp only
      split
      · rename_i fits
        rw [usual execute function args fits]
      · rfl
  | «class» cls =>
      unfold callValueBy callValue callWith
      dsimp only
      split
      · rename_i fits
        rw [callClassBy_eq usual execute fits]
      · rfl
  | _ => rfl

theorem evalBy_succ (host : Host) {room : Nat} (evaluates : evalBy enter host room = eval host room)
    (executes : execBy enter host room = exec host room) (e : Expr Site) :
    evalBy enter host (room + 1) e = eval host (room + 1) e := by
  cases e with
  | call callee paren args => simp only [evalBy, eval, evaluates, executes, callValueBy_eq usual]
  -- The two evaluators need not share the match on the object, so the sides agree by computation.
  | set object name value =>
      unfold evalBy eval
      generalize evalBy enter host room = evaluate at evaluates
      subst evaluates
      rfl
  | _ => simp only [evalBy, eval, evaluates]

omit usual in
theorem execBy_succ (host : Host) {room : Nat} (evaluates : evalBy enter host room = eval host room)
    (executes : execBy enter host room = exec host room) (s : Stmt Site) :
    execBy enter host (room + 1) s = exec host (room + 1) s := by
  cases s with
  | var name initializer => cases initializer <;> simp only [execBy, exec, evaluates]
  | «return» keyword value => cases value <;> simp only [execBy, exec, evaluates]
  | conditional condition thenBranch elseBranch =>
      unfold execBy exec
      generalize evalBy enter host room = evaluate at evaluates
      generalize execBy enter host room = execute at executes
      subst evaluates executes
      rfl
  | _ => simp only [execBy, exec, evaluates, executes]

/-- The induction is on the room, for expressions and statements together: in a call, what is in
the body has one unit less. -/
theorem runsBy_eq (host : Host) (room : Nat) :
    evalBy enter host room = eval host room ∧ execBy enter host room = exec host room := by
  induction room with
  | zero => exact ⟨rfl, rfl⟩
  | succ room induction =>
      obtain ⟨evaluates, executes⟩ := induction
      exact ⟨funext (evalBy_succ usual host evaluates executes),
        funext (execBy_succ host evaluates executes)⟩

theorem programBy_eq (host : Host) (statements : List (Stmt Site)) :
    programBy enter host statements = program host statements := by
  induction statements with
  | nil => rfl
  | cons first rest induction =>
      unfold programBy program
      rw [(runsBy_eq usual host host.room).2, induction]

end Agreement

section Entering

/-- What a call yields when the body of the function has ended. -/
def answer (closure : Closure) (completion : Completion) : Run Value :=
  if closure.isInitializer then
    lookUpAt closure.frame 0 "this"
  else
    match completion with
    | .normal => return .nil
    | .returned value => return value

/-- The body is executed on the machine on which the function has been entered, in the new frame. -/
theorem callClosure_eq (execute : Stmt Site → Run Completion) (closure : Closure)
    (args : List Value) (machine : Machine) :
    callClosure execute closure args machine =
      (inFrame machine.forest.size (execEach execute closure.decl.body) >>= answer closure)
        (machine.entered closure args) := by
  have made : childOf closure.frame machine =
      .ok machine.forest.size (machine.child closure.frame) := rfl
  have bound := Watching.defineParams_eq (machine.child closure.frame) machine.forest.size
    closure.decl.params args
  unfold callClosure
  rw [bind_of_ok made, bind_of_ok bound]
  rfl

end Entering

section Refusal

variable {host : Host} {room : Nat} {callee : Expr Site} {paren : Token} {args : List (Expr Site)}
  {machine ready after : Machine} {value : Value} {values : List Value}
  (evaluated : eval host room callee machine = .ok value ready)
  (evaluatedEach : evalEach (eval host room) args ready = .ok values after)

include evaluated evaluatedEach

/-- When the callee and the arguments have been evaluated, the value is called. -/
theorem eval_call :
    eval host (room + 1) (.call callee paren args) machine =
      callValue host (exec host room) paren value values after := by
  rw [eval, bind_of_ok evaluated, bind_of_ok evaluatedEach]

theorem eval_call_of_notCallable (notCallable : value.arity? = none) :
    eval host (room + 1) (.call callee paren args) machine =
      .error (.error ⟨paren, .notCallable⟩) after := by
  rw [eval_call evaluated evaluatedEach]
  cases value with
  | primitive function => cases notCallable
  | closure function => cases notCallable
  | «class» cls => cases notCallable
  | _ => rfl

theorem eval_call_of_wrongArity {expected : Nat} (takes : value.arity? = some expected)
    (given : expected ≠ values.length) :
    eval host (room + 1) (.call callee paren args) machine =
      .error (.error ⟨paren, .wrongArity expected values.length⟩) after := by
  rw [eval_call evaluated evaluatedEach]
  have refused (body : Run Value) : callWith paren expected values body after =
      .error (.error ⟨paren, .wrongArity expected values.length⟩) after := by
    unfold callWith
    rw [if_neg given.symm]
    rfl
  cases value with
  | primitive function =>
      cases takes
      exact refused _
  | closure function =>
      cases takes
      exact refused _
  | «class» cls =>
      cases takes
      exact refused _
  | _ => cases takes

end Refusal

end Run

namespace Forest

/-- Of two parameters with one name the later would count. -/
theorem bindings_defineParams {frame : FrameId} (params : List Token) (args : List Value)
    {forest : Forest Value} (present : frame < forest.size) :
    (forest.defineParams frame params args).bindings frame =
      ((params.map Token.lexeme).zip args).foldl
        (fun table binding => table.insert binding.1 binding.2) (forest.bindings frame) := by
  induction params generalizing args forest with
  | nil => rfl
  | cons param params induction =>
      cases args with
      | nil => rfl
      | cons arg args =>
          have still : frame < (forest.define frame param.lexeme arg).size := by
            rwa [size_define]
          rw [defineParams, induction args still, bindings_define_self _ _ _ present]
          rfl

end Forest

/-- The frame of a call binds the parameters to the arguments and nothing else. -/
theorem Machine.bindings_entered (machine : Machine) (closure : Closure) (args : List Value) :
    (machine.entered closure args).forest.bindings machine.forest.size =
      Table.ofList ((closure.decl.params.map Token.lexeme).zip args) := by
  have present : machine.forest.size < (machine.forest.child closure.frame).size := by simp
  have bound := Forest.bindings_defineParams closure.decl.params args present
  rw [Forest.bindings_child_self] at bound
  exact bound

/-- The number of arguments is minded everywhere.  No run enters a declared function with more or
fewer arguments than it has parameters: what entering it like that would do makes no difference to
any run.  With as many arguments as parameters, the body is executed in a new frame that binds each
parameter to its argument.  The call of a value that cannot be called, or takes another number of
arguments, stops with an error at the closing parenthesis, and leaves the machine as the evaluation
of the callee and the arguments has left it. -/
theorem arity_is_enforced (host : Host) :
    (∀ enter : Run.Entry, enter.Usual →
      (∀ room, Run.evalBy enter host room = Run.eval host room ∧
        Run.execBy enter host room = Run.exec host room) ∧
      ∀ statements, Run.programBy enter host statements = Run.program host statements) ∧
    (∀ execute (closure : Closure) args machine, args.length = closure.arity →
      ∃ bound : List (String × Value),
        bound.map Prod.fst = closure.decl.params.map Token.lexeme ∧ bound.map Prod.snd = args ∧
        (machine.entered closure args).forest.bindings machine.forest.size = Table.ofList bound ∧
        Run.callClosure execute closure args machine =
          (Run.inFrame machine.forest.size (Run.execEach execute closure.decl.body) >>=
            Run.answer closure) (machine.entered closure args)) ∧
    ∀ room callee paren args machine value ready values after,
      Run.eval host room callee machine = .ok value ready →
      Run.evalEach (Run.eval host room) args ready = .ok values after →
        (value.arity? = none →
          Run.eval host (room + 1) (.call callee paren args) machine =
            .error (.error ⟨paren, .notCallable⟩) after) ∧
        ∀ expected, value.arity? = some expected → expected ≠ values.length →
          Run.eval host (room + 1) (.call callee paren args) machine =
            .error (.error ⟨paren, .wrongArity expected values.length⟩) after := by
  refine ⟨fun enter usual => ⟨Run.runsBy_eq usual host, Run.programBy_eq usual host⟩, ?_, ?_⟩
  · intro execute closure args machine fits
    have sameLength : (closure.decl.params.map Token.lexeme).length = args.length := by
      rw [List.length_map, fits, Closure.arity]
    exact ⟨_, List.map_fst_zip (Nat.le_of_eq sameLength),
      List.map_snd_zip (Nat.le_of_eq sameLength.symm), machine.bindings_entered closure args,
      Run.callClosure_eq execute closure args machine⟩
  · intro room callee paren args machine value ready values after evaluated evaluatedEach
    exact ⟨Run.eval_call_of_notCallable evaluated evaluatedEach,
      fun expected => Run.eval_call_of_wrongArity evaluated evaluatedEach⟩

/-- What is called, the parenthesis and the arguments, if an expression is a call. -/
def Expr.call? : Expr Site → Option (Expr Site × Token × List (Expr Site))
  | .call callee paren args => some (callee, paren, args)
  | _ => none

theorem Expr.call?_eq_some {e callee : Expr Site} {paren : Token} {args : List (Expr Site)} :
    e.call? = some (callee, paren, args) ↔ e = .call callee paren args := by
  cases e <;> simp [call?]

/-- A class that has its initializer, with two parameters, from its superclass is called with one
argument.  No object is made, and nothing is printed. -/
theorem arity_is_enforced_inherited :
    let host := Host.standard fun _ => 0
    let classes := "class A \x7b init(a, b) \x7b print a; \x7d \x7d class B < A \x7b\x7d"
    let session := (Session.fresh false).after host [⟨.run classes, true⟩]
    ∃ callee paren args after,
      (session.check host "B(1);").2.toOption.bind Session.firstExpression =
        some (.call callee paren args) ∧
      Run.eval host 3 (.call callee paren args) session.machine =
        .error (.error ⟨paren, .wrongArity 2 1⟩) after ∧
      paren.lexeme = ")" ∧ after.objects.size = 0 ∧ after.printed = [] := by
  intro host classes session
  have facts : ((session.check host "B(1);").2.toOption.bind Session.firstExpression).any
      (fun e => e.call?.any fun parts =>
        (outcome? (Run.eval host 2 parts.1) session.machine).any fun called =>
          (outcome? (Run.evalEach (Run.eval host 2) parts.2.2) called.2).any fun given =>
            called.1.arity? == some 2 && given.1.length == 1 && parts.2.1.lexeme == ")" &&
              given.2.objects.size == 0 && given.2.printed == []) = true := by
    decide +kernel
  simp only [Option.any_eq_true, Prod.exists, Expr.call?_eq_some, outcome?_eq_some,
    Bool.and_eq_true, beq_iff_eq] at facts
  obtain ⟨_, first, callee, paren, args, rfl, value, ready, evaluated, values, after, evaluatedEach,
    ⟨⟨⟨takes, given⟩, lexeme⟩, objects⟩, printed⟩ := facts
  obtain ⟨-, -, refused⟩ := arity_is_enforced host
  have fault := (refused 2 callee paren args session.machine value ready values after
    evaluated evaluatedEach).2 2 takes (by rw [given]; decide)
  rw [given] at fault
  exact ⟨callee, paren, args, after, first, fault, lexeme, objects, printed⟩

end LoxLang
