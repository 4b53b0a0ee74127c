import LoxLang.Evaluation
import LoxLang.Proofs.Scope.Survey

/-!
# Watching a run

The run of a program is watched: the notes say at which moments which node was
evaluated or executed, and where the declaration stands from which each function
value was made.  With the latter it is known where the body of a function stands
that is called.
-/

namespace LoxLang

/-- That a node is about to be evaluated or executed on a machine. -/
structure Moment where
  address : Address
  node : Node Site
  machine : Machine

/-- The notes on the run of a program. -/
structure History where
  /-- The addresses of the declarations of functions, by the numbers of the functions. -/
  origins : Nat → Address
  /-- The moments of the run, the latest first. -/
  moments : List Moment

/-- The notes before anything has run. -/
def History.blank : History := ⟨fun _ => ⟨0, []⟩, []⟩

/-- A part of a run under observation. -/
abbrev Watching (α : Type) := EStateM Stop (Watched Machine History) α

namespace Watching

open Watched (lift note consult)

/-- Note that a node is about to be evaluated or executed. -/
def come (address : Address) (node : Node Site) : Watching Unit :=
  note fun machine history =>
    { history with moments := ⟨address, node, machine⟩ :: history.moments }

/-- Run a part inside a frame, and come back however it ends. -/
def inFrame {α : Type} (frame : FrameId) (part : Watching α) : Watching α := fun watched =>
  match part ⟨{ watched.state with current := frame }, watched.notes⟩ with
  | .ok result after =>
      .ok result ⟨{ after.state with current := watched.state.current }, after.notes⟩
  | .error stop after =>
      .error stop ⟨{ after.state with current := watched.state.current }, after.notes⟩

/-- Let a part that lacks room stop with an error of the program instead. -/
def catchOverflow {α : Type} (about : Token) (part : Watching α) : Watching α := fun watched =>
  match part watched with
  | .ok result after => .ok result after
  | .error .overflow after => .error (.error ⟨about, .stackOverflow⟩) after
  | .error stop after => .error stop after

/-- Tie a function that is declared at an address to a frame. -/
def makeClosure (origin : Address) (decl : FunctionDecl Site) (frame : FrameId)
    (isInitializer : Bool) : Watching Closure := do
  let serial ← lift Run.freshSerial
  note fun _ history =>
    { history with
      origins := fun other => if other = serial then origin else history.origins other }
  return ⟨serial, decl, frame, isInitializer⟩

/-- Make a method the method of an object: a frame around its body binds `this`. -/
def bind (method : Closure) (object : Value) : Watching Closure := do
  let origin ← consult (·.origins method.serial)
  let frame ← lift (Run.childOf method.frame)
  lift (Run.defineIn frame "this" object)
  makeClosure origin method.decl frame method.isInitializer

/-- Evaluate each of several expressions, which are the children from an index on. -/
def evalEach (evaluate : Nat → Expr Site → Watching Value) :
    (index : Nat) → List (Expr Site) → Watching (List Value)
  | _, [] => return []
  | index, first :: rest => do
      let value ← evaluate index first
      let values ← evalEach evaluate (index + 1) rest
      return value :: values

/-- Execute statements, which are the children from an index on, as far as the first that
returns. -/
def execEach (execute : Nat → Stmt Site → Watching Completion) :
    (index : Nat) → List (Stmt Site) → Watching Completion
  | _, [] => return .normal
  | index, first :: rest => do
      match ← execute index first with
      | .normal => execEach execute (index + 1) rest
      | .returned value => return .returned value

/-- Go round as long as a condition holds, unless the body returns. -/
def iterate (condition : Watching Value) (body : Watching Completion) :
    (patience : Nat) → Watching Completion
  | 0 => throw .outOfPatience
  | patience + 1 => do
      let value ← condition
      if value.isTruthy then
        match ← body with
        | .normal => iterate condition body patience
        | .returned value => return .returned value
      else
        return .normal

/-- What a call yields when the body of the function has ended.  An initializer yields its
object. -/
def answer (closure : Closure) (completion : Completion) : Watching Value :=
  if closure.isInitializer then
    lift (Run.lookUpAt closure.frame 0 "this")
  else
    match completion with
    | .normal => return .nil
    | .returned value => return value

/-- Call a declared function, whose body stands where its declaration does. -/
def callClosure (execute : Address → Stmt Site → Watching Completion) (closure : Closure)
    (args : List Value) : Watching Value := do
  let origin ← consult (·.origins closure.serial)
  let frame ← lift (Run.childOf closure.frame)
  lift (Run.defineParams frame closure.decl.params args)
  let completion ← inFrame frame
    (execEach (fun index => execute (origin.child index)) 0 closure.decl.body)
  answer closure completion

/-- Make an object, and let the class's initializer work on it. -/
def callClass (execute : Address → Stmt Site → Watching Completion) (cls : ClassValue)
    (args : List Value) : Watching Value := do
  let object ← lift (Run.newObject cls)
  match cls.initializer? with
  | none => return object
  | some initializer =>
      let bound ← bind initializer object
      let _ ← callClosure execute bound args
      return object

/-- Call something that takes `arity` arguments. -/
def callWith (paren : Token) (arity : Nat) (args : List Value) (body : Watching Value) :
    Watching Value :=
  if args.length = arity then catchOverflow paren body
  else lift (Run.fault paren (.wrongArity arity args.length))

/-- Call a value. -/
def callValue (host : Host) (execute : Address → Stmt Site → Watching Completion) (paren : Token)
    (callee : Value) (args : List Value) : Watching Value :=
  match callee with
  | .primitive function => callWith paren function.arity args (lift (Run.readClock host))
  | .closure closure => callWith paren closure.arity args (callClosure execute closure args)
  | .class cls => callWith paren cls.arity args (callClass execute cls args)
  | _ => lift (Run.fault paren .notCallable)

/-- A property of an object: a field, or else a method of its class. -/
def property (object : Value) (name : Token) : Watching Value := do
  match object with
  | .object id cls =>
      match ← lift (Run.field? id name.lexeme) with
      | some value => return value
      | none =>
          match cls.method? name.lexeme with
          | some method => return .closure (← bind method object)
          | none => lift (Run.fault name (.undefinedProperty name.lexeme))
  | _ => lift (Run.fault name .noProperties)

/-- A method of the superclass, made a method of the object at hand. -/
def superMethod (method : Token) (site : Site) : Watching Value := do
  match site with
  | none => lift (Run.defect .superWithoutSite)
  | some distance =>
      let frame ← lift Run.here
      let superclass ← lift (Run.lookUpAt frame distance "super")
      let object ← lift (Run.lookUpAt frame (distance - 1) "this")
      match superclass with
      | .class cls =>
          match cls.method? method.lexeme with
          | some found => return .closure (← bind found object)
          | none => lift (Run.fault method (.undefinedProperty method.lexeme))
      | _ => lift (Run.defect .superNotClass)

/-- The superclass that a class names, if it names one. -/
def superclass? (address : Address) : Option (Superclass Site) → Watching (Option ClassValue)
  | none => return none
  | some parent => do
      come address (.expr (.variable parent.name parent.site))
      match ← lift (Run.lookUp parent.name parent.site) with
      | .class cls => return some cls
      | _ => lift (Run.fault parent.name .superclassNotClass)

/-- The methods of a class, which are its children from an index on. -/
def methodTable (address : Address) (frame : FrameId) :
    (index : Nat) → Table Closure → List (FunctionDecl Site) → Watching (Table Closure)
  | _, table, [] => return table
  | index, table, decl :: rest => do
      let name := decl.name.lexeme
      let method ← makeClosure (address.child index) decl frame (name = initializerName)
      methodTable address frame (index + 1) (table.insert name method) rest

/-- Declare a class whose superclass is known.  Its name is bound, to nothing, while its methods
are made. -/
def classRest (address : Address) (name : Token) (superclass : Option ClassValue)
    (methods : List (FunctionDecl Site)) : Watching Unit := do
  let frame ← lift Run.here
  lift (Run.defineIn frame name.lexeme .nil)
  let inner ← lift (Run.methodFrame frame superclass)
  let table ← methodTable address inner 1 Table.empty methods
  let serial ← lift Run.freshSerial
  let ancestors := match superclass with
    | none => []
    | some cls => cls.chain
  lift (Run.defineIn frame name.lexeme (.class ⟨⟨serial, name.lexeme, table⟩, ancestors⟩))

/-- Declare a class. -/
def declareClass (address : Address) (name : Token) (parent : Option (Superclass Site))
    (methods : List (FunctionDecl Site)) : Watching Unit := do
  let superclass ← superclass? (address.child 0) parent
  classRest address name superclass methods

mutual

/-- Evaluate an expression. -/
def eval (host : Host) : (room : Nat) → Address → Expr Site → Watching Value
  | 0, address, e => do
      come address (.expr e)
      throw .overflow
  | room + 1, address, e => do
      come address (.expr e)
      match e with
      | .literal value => return .ofLiteral value
      | .grouping inner => eval host room (address.child 0) inner
      | .unary op operand => do
          let value ← eval host room (address.child 0) operand
          lift (Run.applyUnary op value)
      | .binary left op right => do
          let left ← eval host room (address.child 0) left
          let right ← eval host room (address.child 1) right
          lift (Run.applyBinary op left right)
      | .logical left op right => do
          let left ← eval host room (address.child 0) left
          if Run.decides op left then return left else eval host room (address.child 1) right
      | .variable name site => lift (Run.lookUp name site)
      | .assign name site value => do
          let value ← eval host room (address.child 0) value
          lift (Run.store name site value)
          return value
      | .call callee paren args => do
          let callee ← eval host room (address.child 0) callee
          let args ← evalEach (fun index => eval host room (address.child index)) 1 args
          callValue host (exec host room) paren callee args
      | .get object name => do
          let object ← eval host room (address.child 0) object
          property object name
      | .set object name value => do
          match ← eval host room (address.child 0) object with
          | .object id _ =>
              let value ← eval host room (address.child 1) value
              lift (Run.setField id name.lexeme value)
              return value
          | _ => lift (Run.fault name .noFields)
      | .this keyword site => lift (Run.lookUp keyword site)
      | .super _ method site => superMethod method site

/-- Execute a statement. -/
def exec (host : Host) : (room : Nat) → Address → Stmt Site → Watching Completion
  | 0, address, s => do
      come address (.stmt s)
      throw .overflow
  | room + 1, address, s => do
      come address (.stmt s)
      match s with
      | .expression value => do
          let _ ← eval host room (address.child 0) value
          return .normal
      | .print value => do
          let value ← eval host room (address.child 0) value
          lift (Run.emit value.shown)
          return .normal
      | .var name none => do
          lift (Run.defineHere name.lexeme .nil)
          return .normal
      | .var name (some initializer) => do
          let value ← eval host room (address.child 0) initializer
          lift (Run.defineHere name.lexeme value)
          return .normal
      | .block body => do
          let frame ← lift (Run.childOf (← lift Run.here))
          inFrame frame (execEach (fun index => exec host room (address.child index)) 0 body)
      | .conditional condition thenBranch elseBranch => do
          let value ← eval host room (address.child 0) condition
          if value.isTruthy then exec host room (address.child 1) thenBranch
          else
            match elseBranch with
            | some branch => exec host room (address.child 2) branch
            | none => return .normal
      | .loop condition body =>
          iterate (eval host room (address.child 0) condition)
            (exec host room (address.child 1) body) host.patience
      | .function decl => do
          let closure ← makeClosure address decl (← lift Run.here) false
          lift (Run.defineHere decl.name.lexeme (.closure closure))
          return .normal
      | .return _ none => return .returned .nil
      | .return _ (some value) => do
          let value ← eval host room (address.child 0) value
          return .returned value
      | .class name parent methods => do
          declareClass address name parent methods
          return .normal
      | .lost => lift (Run.defect .lostStatement)

end

/-- Execute the statements of a program, which are the children of its root from an index on. -/
def program (host : Host) (root : Address) : (index : Nat) → List (Stmt Site) → Watching Unit
  | _, [] => return ()
  | index, first :: rest => do
      let _ ← exec host host.room (root.child index) first
      program host root (index + 1) rest

end Watching

end LoxLang
