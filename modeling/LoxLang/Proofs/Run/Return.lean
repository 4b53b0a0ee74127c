import LoxLang.Evaluation
import LoxLang.Proofs.Stateful

/-!
# Coming back

Only blocks and the bodies of functions are run in frames of their own.  However such
a part ends, the machine is again in the frame in which it was, and so it is after
every other part of a run.
-/

namespace LoxLang.Run

variable {α β : Type}

/-- The machine that a part of a run leaves behind, however the part ends. -/
def leaves (part : Run α) (machine : Machine) : Machine :=
  match part machine with
  | .ok _ after => after
  | .error _ after => after

/-- However the part ends, the machine is in the frame in which it was. -/
def ComesBack (part : Run α) : Prop :=
  ∀ machine, (leaves part machine).current = machine.current

namespace ComesBack

variable {part : Run α}

theorem of_ok (back : ComesBack part) {machine after : Machine} {result : α}
    (ends : part machine = .ok result after) : after.current = machine.current := by
  have same := back machine
  unfold leaves at same
  rwa [ends] at same

theorem of_error (back : ComesBack part) {machine after : Machine} {stop : Stop}
    (stops : part machine = .error stop after) : after.current = machine.current := by
  have same := back machine
  unfold leaves at same
  rwa [stops] at same

theorem intro (ended : ∀ machine result after, part machine = .ok result after →
      after.current = machine.current)
    (stopped : ∀ machine stop after, part machine = .error stop after →
      after.current = machine.current) : ComesBack part := by
  intro machine
  unfold leaves
  cases outcome : part machine with
  | ok result after => exact ended machine result after outcome
  | error stop after => exact stopped machine stop after outcome

theorem pure (result : α) : ComesBack (Pure.pure result) := fun _ => rfl

theorem throw (stop : Stop) : ComesBack (throw stop : Run α) := fun _ => rfl

theorem fault (about : Token) (fault : Fault) : ComesBack (Run.fault about fault : Run α) :=
  fun _ => rfl

theorem defect (defect : Defect) : ComesBack (Run.defect defect : Run α) := fun _ => rfl

theorem bind {next : α → Run β} (first : ComesBack part)
    (second : ∀ result, ComesBack (next result)) : ComesBack (part >>= next) := by
  apply intro
  · intro machine result after ends
    obtain ⟨value, middle, firstEnds, secondEnds⟩ := bind_eq_ok.1 ends
    rw [(second value).of_ok secondEnds, first.of_ok firstEnds]
  · intro machine stop after stops
    rcases bind_eq_error.1 stops with firstStops | ⟨value, middle, firstEnds, secondStops⟩
    · exact first.of_error firstStops
    · rw [(second value).of_error secondStops, first.of_ok firstEnds]

theorem ite {condition : Prop} [Decidable condition] {other : Run α} (back : ComesBack part)
    (otherBack : ComesBack other) : ComesBack (if condition then part else other) := by
  split
  · exact back
  · exact otherBack

/-- Nothing is asked of a part that is run inside a frame of its own. -/
theorem inFrame (frame : FrameId) (part : Run α) : ComesBack (Run.inFrame frame part) := by
  intro machine
  unfold leaves Run.inFrame
  cases part { machine with current := frame } <;> rfl

theorem catchOverflow {about : Token} (back : ComesBack part) :
    ComesBack (Run.catchOverflow about part) := by
  intro machine
  have same := back machine
  unfold leaves Run.catchOverflow at *
  cases outcome : part machine with
  | ok result after =>
      rw [outcome] at same
      exact same
  | error stop after =>
      rw [outcome] at same
      cases stop <;> exact same

end ComesBack

section Steps

theorem freshSerial_back : ComesBack freshSerial := fun _ => rfl

theorem childOf_back (parent : FrameId) : ComesBack (childOf parent) := fun _ => rfl

theorem defineIn_back (frame : FrameId) (name : String) (value : Value) :
    ComesBack (defineIn frame name value) := fun _ => rfl

theorem defineHere_back (name : String) (value : Value) : ComesBack (defineHere name value) :=
  fun _ => rfl

theorem here_back : ComesBack here := fun _ => rfl

theorem emit_back (line : String) : ComesBack (emit line) := fun _ => rfl

theorem readClock_back (host : Host) : ComesBack (readClock host) := fun _ => rfl

theorem newObject_back (cls : ClassValue) : ComesBack (newObject cls) := fun _ => rfl

theorem field?_back (id : Nat) (name : String) : ComesBack (field? id name) := fun _ => rfl

theorem setField_back (id : Nat) (name : String) (value : Value) :
    ComesBack (setField id name value) := fun _ => rfl

theorem lookUp_back (name : Token) (site : Site) : ComesBack (lookUp name site) := by
  intro machine
  unfold leaves lookUp
  cases valueOf machine.forest machine.current name.lexeme site <;> rfl

theorem lookUpAt_back (frame : FrameId) (distance : Nat) (name : String) :
    ComesBack (lookUpAt frame distance name) := by
  intro machine
  unfold leaves lookUpAt
  cases machine.forest.getAt frame distance name <;> rfl

theorem store_back (name : Token) (site : Site) (value : Value) :
    ComesBack (store name site value) := by
  intro machine
  unfold leaves store
  cases target machine.forest machine.current name.lexeme site <;> rfl

theorem applyUnary_back (op : Token) (operand : Value) : ComesBack (applyUnary op operand) := by
  unfold applyUnary
  apply ComesBack.ite
  · exact .pure _
  · cases operand with
    | number value => exact .pure _
    | _ => exact .fault _ _

theorem add_back (op : Token) (left right : Value) : ComesBack (add op left right) := by
  unfold add
  split
  · exact .pure _
  · exact .pure _
  · exact .fault _ _

theorem applyToNumbers_back (op : Token) (left right : Value) :
    ComesBack (applyToNumbers op left right) := by
  unfold applyToNumbers
  split
  · cases numberOperator op.kind with
    | some operator => exact .pure _
    | none => exact .defect _
  · exact .fault _ _

theorem applyBinary_back (op : Token) (left right : Value) :
    ComesBack (applyBinary op left right) := by
  unfold applyBinary
  split
  · exact .pure _
  · exact .pure _
  · exact add_back op left right
  · exact applyToNumbers_back op left right

theorem makeClosure_back (decl : FunctionDecl Site) (frame : FrameId) (isInitializer : Bool) :
    ComesBack (makeClosure decl frame isInitializer) :=
  freshSerial_back.bind fun _ => .pure _

theorem bind_back (method : Closure) (object : Value) : ComesBack (bind method object) := by
  refine (childOf_back method.frame).bind fun frame => ?_
  refine (defineIn_back frame "this" object).bind fun _ => ?_
  exact makeClosure_back method.decl frame _

theorem defineParams_back (frame : FrameId) (params : List Token) (args : List Value) :
    ComesBack (defineParams frame params args) := by
  induction params generalizing args with
  | nil => exact .pure ()
  | cons param params induction =>
      cases args with
      | nil => exact .pure ()
      | cons arg args => exact (defineIn_back frame param.lexeme arg).bind fun _ => induction args

theorem property_back (object : Value) (name : Token) : ComesBack (property object name) := by
  unfold property
  cases object with
  | object id cls =>
      apply (field?_back id name.lexeme).bind
      intro found
      cases found with
      | some value => exact .pure _
      | none =>
          dsimp only
          cases cls.method? name.lexeme with
          | some method => exact (bind_back method _).bind fun _ => .pure _
          | none => exact .fault _ _
  | _ => exact .fault _ _

theorem superMethod_back (method : Token) (site : Site) : ComesBack (superMethod method site) := by
  unfold superMethod
  cases site with
  | none => exact .defect _
  | some distance =>
      refine here_back.bind fun frame => ?_
      refine (lookUpAt_back frame distance "super").bind fun superclass => ?_
      refine (lookUpAt_back frame (distance - 1) "this").bind fun object => ?_
      cases superclass with
      | «class» cls =>
          dsimp only
          cases cls.method? method.lexeme with
          | some found => exact (bind_back found object).bind fun _ => .pure _
          | none => exact .fault _ _
      | _ => exact .defect _

theorem superclass?_back (parent : Option (Superclass Site)) : ComesBack (superclass? parent) := by
  cases parent with
  | none => exact .pure none
  | some parent =>
      apply (lookUp_back parent.name parent.site).bind
      intro value
      cases value with
      | «class» cls => exact .pure _
      | _ => exact .fault _ _

theorem methodFrame_back (frame : FrameId) (superclass : Option ClassValue) :
    ComesBack (methodFrame frame superclass) := by
  cases superclass with
  | none => exact .pure frame
  | some cls =>
      refine (childOf_back frame).bind fun inner => ?_
      exact (defineIn_back inner "super" (.class cls)).bind fun _ => .pure inner

theorem methodTable_back (frame : FrameId) (table : Table Closure)
    (methods : List (FunctionDecl Site)) : ComesBack (methodTable frame table methods) := by
  induction methods generalizing table with
  | nil => exact .pure table
  | cons decl rest induction =>
      exact (makeClosure_back decl frame _).bind fun _ => induction _

theorem declareClass_back (name : Token) (parent : Option (Superclass Site))
    (methods : List (FunctionDecl Site)) : ComesBack (declareClass name parent methods) := by
  refine (superclass?_back parent).bind fun superclass => ?_
  refine here_back.bind fun frame => ?_
  refine (defineIn_back frame name.lexeme .nil).bind fun _ => ?_
  refine (methodFrame_back frame superclass).bind fun inner => ?_
  refine (methodTable_back inner Table.empty methods).bind fun table => ?_
  exact freshSerial_back.bind fun serial => defineIn_back _ _ _

end Steps

section Parts

theorem evalEach_back {evaluate : Expr Site → Run Value}
    (evaluates : ∀ e, ComesBack (evaluate e)) (parts : List (Expr Site)) :
    ComesBack (evalEach evaluate parts) := by
  induction parts with
  | nil => exact .pure []
  | cons first rest induction =>
      refine (evaluates first).bind fun value => ?_
      exact induction.bind fun values => .pure (value :: values)

theorem iterate_back {condition : Run Value} {body : Run Completion}
    (conditionBack : ComesBack condition) (bodyBack : ComesBack body) (patience : Nat) :
    ComesBack (iterate condition body patience) := by
  induction patience with
  | zero => exact .throw _
  | succ patience induction =>
      refine conditionBack.bind fun value => .ite ?_ (.pure _)
      refine bodyBack.bind fun completion => ?_
      cases completion with
      | normal => exact induction
      | returned value => exact .pure _

/-- The body of the function is run in a frame of its own. -/
theorem callClosure_back (execute : Stmt Site → Run Completion) (closure : Closure)
    (args : List Value) : ComesBack (callClosure execute closure args) := by
  refine (childOf_back closure.frame).bind fun frame => ?_
  refine (defineParams_back frame closure.decl.params args).bind fun _ => ?_
  refine (ComesBack.inFrame frame _).bind fun completion => ?_
  refine .ite (lookUpAt_back closure.frame 0 "this") ?_
  cases completion with
  | normal => exact .pure _
  | returned value => exact .pure _

theorem callClass_back (execute : Stmt Site → Run Completion) (cls : ClassValue)
    (args : List Value) : ComesBack (callClass execute cls args) := by
  refine (newObject_back cls).bind fun object => ?_
  cases cls.initializer? with
  | none => exact .pure _
  | some initializer =>
      refine (bind_back initializer object).bind fun bound => ?_
      exact (callClosure_back execute bound args).bind fun _ => .pure object

theorem callValue_back (host : Host) (execute : Stmt Site → Run Completion) (paren : Token)
    (callee : Value) (args : List Value) :
    ComesBack (callValue host execute paren callee args) := by
  unfold callValue callWith
  cases callee with
  | primitive function => exact .ite (.catchOverflow (readClock_back host)) (.fault _ _)
  | closure closure =>
      exact .ite (.catchOverflow (callClosure_back execute closure args)) (.fault _ _)
  | «class» cls => exact .ite (.catchOverflow (callClass_back execute cls args)) (.fault _ _)
  | _ => exact .fault _ _

end Parts

mutual

theorem eval_back (host : Host) (room : Nat) (e : Expr Site) : ComesBack (eval host room e) := by
  cases room with
  | zero => exact .throw _
  | succ room =>
      cases e with
      | literal value => exact .pure _
      | grouping inner => exact eval_back host room inner
      | unary op operand => exact (eval_back host room operand).bind fun _ => applyUnary_back _ _
      | binary left op right =>
          refine (eval_back host room left).bind fun leftValue => ?_
          refine (eval_back host room right).bind fun rightValue => ?_
          exact applyBinary_back op leftValue rightValue
      | logical left op right =>
          exact (eval_back host room left).bind fun _ => .ite (.pure _) (eval_back host room right)
      | «variable» name site => exact lookUp_back name site
      | assign name site value =>
          refine (eval_back host room value).bind fun result => ?_
          exact (store_back name site result).bind fun _ => .pure result
      | call callee paren args =>
          refine (eval_back host room callee).bind fun value => ?_
          refine (evalEach_back (eval_back host room) args).bind fun values => ?_
          exact callValue_back host (exec host room) paren value values
      | get object name =>
          exact (eval_back host room object).bind fun _ => property_back _ name
      | set object name value =>
          refine (eval_back host room object).bind fun target => ?_
          cases target with
          | object id cls =>
              refine (eval_back host room value).bind fun result => ?_
              exact (setField_back id name.lexeme result).bind fun _ => .pure result
          | _ => exact .fault _ _
      | this keyword site => exact lookUp_back keyword site
      | super keyword method site => exact superMethod_back method site

theorem exec_back (host : Host) (room : Nat) (s : Stmt Site) : ComesBack (exec host room s) := by
  cases room with
  | zero => exact .throw _
  | succ room =>
      cases s with
      | expression value => exact (eval_back host room value).bind fun _ => .pure _
      | print value =>
          refine (eval_back host room value).bind fun result => ?_
          exact (emit_back _).bind fun _ => .pure _
      | var name initializer =>
          cases initializer with
          | none => exact (defineHere_back name.lexeme .nil).bind fun _ => .pure _
          | some value =>
              refine (eval_back host room value).bind fun result => ?_
              exact (defineHere_back name.lexeme result).bind fun _ => .pure _
      | block body =>
          refine here_back.bind fun frame => ?_
          exact (childOf_back frame).bind fun inner => .inFrame inner _
      | conditional condition thenBranch elseBranch =>
          refine (eval_back host room condition).bind fun value => ?_
          refine .ite (exec_back host room thenBranch) ?_
          cases elseBranch with
          | none => exact .pure _
          | some branch => exact exec_back host room branch
      | loop condition body =>
          exact iterate_back (eval_back host room condition) (exec_back host room body) _
      | function decl =>
          refine here_back.bind fun frame => ?_
          refine (makeClosure_back decl frame false).bind fun closure => ?_
          exact (defineHere_back decl.name.lexeme _).bind fun _ => .pure _
      | «return» keyword value =>
          cases value with
          | none => exact .pure _
          | some result => exact (eval_back host room result).bind fun _ => .pure _
      | «class» name parent methods =>
          exact (declareClass_back name parent methods).bind fun _ => .pure _
      | lost => exact .defect _

end

end LoxLang.Run
