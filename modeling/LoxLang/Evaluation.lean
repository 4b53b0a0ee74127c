import LoxLang.Machine

/-!
# Running programs

Expressions are evaluated and statements are executed on the machine.  A
statement ends normally or with the value of a `return`, which the nearest call
takes; errors stop the whole run.

Every expression and statement runs with some room; a part inside it runs with
one unit less.  When there is none left the innermost call in progress stops with
an error.  Loops do not use up room; they go round as often as the host is
patient.
-/

namespace LoxLang

/-- The operators that take two numbers. -/
def numberOperator : TokenKind → Option (Float → Float → Value)
  | .minus => some fun left right => .number (left - right)
  | .star => some fun left right => .number (left * right)
  | .slash => some fun left right => .number (left / right)
  | .greater => some fun left right => .bool (decide (left > right))
  | .greaterEqual => some fun left right => .bool (decide (left ≥ right))
  | .less => some fun left right => .bool (decide (left < right))
  | .lessEqual => some fun left right => .bool (decide (left ≤ right))
  | _ => none

namespace Run

/-- Apply a prefix operator. -/
def applyUnary (op : Token) (operand : Value) : Run Value :=
  if op.kind = .bang then return .bool (!operand.isTruthy)
  else
    match operand with
    | .number value => return .number (-value)
    | _ => fault op .operandNotNumber

/-- Add numbers, or join texts. -/
def add (op : Token) : Value → Value → Run Value
  | .number left, .number right => return .number (left + right)
  | .text left, .text right => return .text (left ++ right)
  | _, _ => fault op .operandsNotAddable

/-- Apply an operator that takes two numbers. -/
def applyToNumbers (op : Token) : Value → Value → Run Value
  | .number left, .number right =>
      match numberOperator op.kind with
      | some operator => return operator left right
      | none => defect .noOperator
  | _, _ => fault op .operandsNotNumbers

/-- Apply an operator to two operands. -/
def applyBinary (op : Token) (left right : Value) : Run Value :=
  match op.kind with
  | .equalEqual => return .bool (left.isEqual right)
  | .bangEqual => return .bool (!left.isEqual right)
  | .plus => add op left right
  | _ => applyToNumbers op left right

/-- Whether the left operand of `or` or `and` decides the outcome alone. -/
def decides (op : Token) (left : Value) : Bool :=
  if op.kind = .kwOr then left.isTruthy else !left.isTruthy

/-- Tie a declared function to a frame. -/
def makeClosure (decl : FunctionDecl Site) (frame : FrameId) (isInitializer : Bool) :
    Run Closure := do
  let serial ← freshSerial
  return ⟨serial, decl, frame, isInitializer⟩

/-- Make a method the method of an object: a frame around its body binds `this`. -/
def bind (method : Closure) (object : Value) : Run Closure := do
  let frame ← childOf method.frame
  defineIn frame "this" object
  makeClosure method.decl frame method.isInitializer

/-- Bind parameters to arguments in a frame. -/
def defineParams (frame : FrameId) : List Token → List Value → Run Unit
  | param :: params, arg :: args => do
      defineIn frame param.lexeme arg
      defineParams frame params args
  | _, _ => return ()

/-- Evaluate each of several expressions. -/
def evalEach (evaluate : Expr Site → Run Value) : List (Expr Site) → Run (List Value)
  | [] => return []
  | first :: rest => do
      let value ← evaluate first
      let values ← evalEach evaluate rest
      return value :: values

/-- Execute statements one after the other, as far as the first that returns. -/
def execEach (execute : Stmt Site → Run Completion) : List (Stmt Site) → Run Completion
  | [] => return .normal
  | first :: rest => do
      match ← execute first with
      | .normal => execEach execute rest
      | .returned value => return .returned value

/-- Go round as long as a condition holds, unless the body returns. -/
def iterate (condition : Run Value) (body : Run Completion) : (patience : Nat) → Run Completion
  | 0 => throw .outOfPatience
  | patience + 1 => do
      let value ← condition
      if value.isTruthy then
        match ← body with
        | .normal => iterate condition body patience
        | .returned value => return .returned value
      else
        return .normal

/-- Call a declared function.  An initializer yields its object, however its body ends. -/
def callClosure (execute : Stmt Site → Run Completion) (closure : Closure) (args : List Value) :
    Run Value := do
  let frame ← childOf closure.frame
  defineParams frame closure.decl.params args
  let completion ← inFrame frame (execEach execute closure.decl.body)
  if closure.isInitializer then
    lookUpAt closure.frame 0 "this"
  else
    match completion with
    | .normal => return .nil
    | .returned value => return value

/-- Make an object, and let the class's initializer work on it. -/
def callClass (execute : Stmt Site → Run Completion) (cls : ClassValue) (args : List Value) :
    Run Value := do
  let object ← newObject cls
  match cls.initializer? with
  | none => return object
  | some initializer =>
      let bound ← bind initializer object
      let _ ← callClosure execute bound args
      return object

/-- Call something that takes `arity` arguments. -/
def callWith (paren : Token) (arity : Nat) (args : List Value) (body : Run Value) : Run Value :=
  if args.length = arity then catchOverflow paren body
  else fault paren (.wrongArity arity args.length)

/-- Call a value. -/
def callValue (host : Host) (execute : Stmt Site → Run Completion) (paren : Token)
    (callee : Value) (args : List Value) : Run Value :=
  match callee with
  | .primitive function => callWith paren function.arity args (readClock host)
  | .closure closure => callWith paren closure.arity args (callClosure execute closure args)
  | .class cls => callWith paren cls.arity args (callClass execute cls args)
  | _ => fault paren .notCallable

/-- A property of an object: a field, or else a method of its class. -/
def property (object : Value) (name : Token) : Run Value := do
  match object with
  | .object id cls =>
      match ← field? id name.lexeme with
      | some value => return value
      | none =>
          match cls.method? name.lexeme with
          | some method => return .closure (← bind method object)
          | none => fault name (.undefinedProperty name.lexeme)
  | _ => fault name .noProperties

/-- A method of the superclass, made a method of the object at hand. -/
def superMethod (method : Token) (site : Site) : Run Value := do
  match site with
  | none => defect .superWithoutSite
  | some distance =>
      let frame ← here
      let superclass ← lookUpAt frame distance "super"
      let object ← lookUpAt frame (distance - 1) "this"
      match superclass with
      | .class cls =>
          match cls.method? method.lexeme with
          | some found => return .closure (← bind found object)
          | none => fault method (.undefinedProperty method.lexeme)
      | _ => defect .superNotClass

/-- The superclass that a class names, if it names one. -/
def superclass? : Option (Superclass Site) → Run (Option ClassValue)
  | none => return none
  | some parent => do
      match ← lookUp parent.name parent.site with
      | .class cls => return some cls
      | _ => fault parent.name .superclassNotClass

/-- The frame around the methods of a class: that of the class, or one inside it that binds
`super`. -/
def methodFrame (frame : FrameId) : Option ClassValue → Run FrameId
  | none => return frame
  | some superclass => do
      let inner ← childOf frame
      defineIn inner "super" (.class superclass)
      return inner

/-- The methods of a class; of two with one name the later counts. -/
def methodTable (frame : FrameId) : Table Closure → List (FunctionDecl Site) → Run (Table Closure)
  | table, [] => return table
  | table, decl :: rest => do
      let name := decl.name.lexeme
      let method ← makeClosure decl frame (name = initializerName)
      methodTable frame (table.insert name method) rest

/-- Declare a class.  Its name is bound, to nothing, while its methods are made. -/
def declareClass (name : Token) (parent : Option (Superclass Site))
    (methods : List (FunctionDecl Site)) : Run Unit := do
  let superclass ← superclass? parent
  let frame ← here
  defineIn frame name.lexeme .nil
  let inner ← methodFrame frame superclass
  let table ← methodTable inner Table.empty methods
  let serial ← freshSerial
  let ancestors := match superclass with
    | none => []
    | some cls => cls.chain
  defineIn frame name.lexeme (.class ⟨⟨serial, name.lexeme, table⟩, ancestors⟩)

mutual

/-- Evaluate an expression. -/
def eval (host : Host) : (room : Nat) → Expr Site → Run Value
  | 0, _ => throw .overflow
  | room + 1, e =>
      match e with
      | .literal value => return .ofLiteral value
      | .grouping inner => eval host room inner
      | .unary op operand => do
          let value ← eval host room operand
          applyUnary op value
      | .binary left op right => do
          let left ← eval host room left
          let right ← eval host room right
          applyBinary op left right
      | .logical left op right => do
          let left ← eval host room left
          if decides op left then return left else eval host room right
      | .variable name site => lookUp name site
      | .assign name site value => do
          let value ← eval host room value
          store name site value
          return value
      | .call callee paren args => do
          let callee ← eval host room callee
          let args ← evalEach (eval host room) args
          callValue host (exec host room) paren callee args
      | .get object name => do
          let object ← eval host room object
          property object name
      | .set object name value => do
          match ← eval host room object with
          | .object id _ =>
              let value ← eval host room value
              setField id name.lexeme value
              return value
          | _ => fault name .noFields
      | .this keyword site => lookUp keyword site
      | .super _ method site => superMethod method site

/-- Execute a statement. -/
def exec (host : Host) : (room : Nat) → Stmt Site → Run Completion
  | 0, _ => throw .overflow
  | room + 1, s =>
      match s with
      | .expression value => do
          let _ ← eval host room value
          return .normal
      | .print value => do
          let value ← eval host room value
          emit value.shown
          return .normal
      | .var name none => do
          defineHere name.lexeme .nil
          return .normal
      | .var name (some initializer) => do
          let value ← eval host room initializer
          defineHere name.lexeme value
          return .normal
      | .block body => do
          let frame ← childOf (← here)
          inFrame frame (execEach (exec host room) body)
      | .conditional condition thenBranch elseBranch => do
          let value ← eval host room condition
          if value.isTruthy then exec host room thenBranch
          else
            match elseBranch with
            | some branch => exec host room branch
            | none => return .normal
      | .loop condition body =>
          iterate (eval host room condition) (exec host room body) host.patience
      | .function decl => do
          let closure ← makeClosure decl (← here) false
          defineHere decl.name.lexeme (.closure closure)
          return .normal
      | .return _ none => return .returned .nil
      | .return _ (some value) => do
          let value ← eval host room value
          return .returned value
      | .class name parent methods => do
          declareClass name parent methods
          return .normal
      | .lost => defect .lostStatement

end

end Run

end LoxLang
