import LoxLang.Forest
import LoxLang.Scope.Basic
import LoxLang.Tree.Notation

/-!
# Values

Numbers, texts, truth values and `nil` are equal if they look the same to the
program: numbers by the rules of floating-point arithmetic, texts by their
characters.  Functions, classes and objects have an identity, a number that they
are given when they are made.
-/

namespace LoxLang

/-- A function that comes with the language. -/
inductive Primitive where
  | clock
deriving DecidableEq, Repr

namespace Primitive

/-- The name under which a primitive function is bound at first. -/
def name : Primitive → String
  | clock => "clock"

/-- How many arguments it takes. -/
def arity : Primitive → Nat
  | clock => 0

end Primitive

/-- A declared function together with the frame in which its body's scopes lie. -/
structure Closure where
  serial : Nat
  decl : FunctionDecl Site
  frame : FrameId
  /-- Whether it is the method `init` of a class, whose calls yield the object. -/
  isInitializer : Bool

namespace Closure

/-- The declared name. -/
def name (closure : Closure) : String := closure.decl.name.lexeme

/-- How many arguments it takes. -/
def arity (closure : Closure) : Nat := closure.decl.params.length

end Closure

/-- The name of the method that initializes an object. -/
def initializerName : String := "init"

/-- What a class has of its own. -/
structure ClassEntry where
  serial : Nat
  name : String
  methods : Table Closure

/-- A class and the classes from which it inherits, the nearest first. -/
structure ClassValue where
  own : ClassEntry
  ancestors : List ClassEntry

namespace ClassValue

/-- The class and the classes from which it inherits. -/
def chain (cls : ClassValue) : List ClassEntry := cls.own :: cls.ancestors

/-- The class's name. -/
def name (cls : ClassValue) : String := cls.own.name

/-- A method of the class or of the nearest class that has one of this name. -/
def method? (cls : ClassValue) (name : String) : Option Closure :=
  cls.chain.findSome? fun entry => entry.methods.get? name

/-- The method that initializes a new object, if there is one. -/
def initializer? (cls : ClassValue) : Option Closure := cls.method? initializerName

/-- How many arguments it takes to make an object. -/
def arity (cls : ClassValue) : Nat :=
  match cls.initializer? with
  | some initializer => initializer.arity
  | none => 0

end ClassValue

/-- The values of a program. -/
inductive Value where
  | nil
  | bool (value : Bool)
  | number (value : Float)
  | text (value : String)
  | primitive (function : Primitive)
  | closure (closure : Closure)
  | class (cls : ClassValue)
  /-- An object, by its number and its class; the fields are kept elsewhere. -/
  | object (id : Nat) (cls : ClassValue)

instance : Inhabited Value := ⟨.nil⟩

namespace Value

/-- The value of a literal. -/
def ofLiteral : Literal → Value
  | .nil => nil
  | .bool value => bool value
  | .number value => number value
  | .text value => text value

/-- Only `nil` and `false` count as false. -/
def isTruthy : Value → Bool
  | nil => false
  | bool value => value
  | _ => true

/-- Whether two values are equal.  Values of different kinds never are. -/
def isEqual : Value → Value → Bool
  | nil, nil => true
  | bool left, bool right => left == right
  | number left, number right => left == right
  | text left, text right => left == right
  | primitive left, primitive right => left == right
  | closure left, closure right => left.serial == right.serial
  | «class» left, «class» right => left.own.serial == right.own.serial
  | object left _, object right _ => left == right
  | _, _ => false

/-- The text of a value, as `print` writes it. -/
def shown : Value → String
  | nil => Literal.nil.shown
  | bool value => (Literal.bool value).shown
  | number value => (Literal.number value).shown
  | text value => value
  | primitive function => "<fn " ++ function.name ++ ">"
  | closure function => "<fn " ++ function.name ++ ">"
  | «class» cls => cls.name
  | object _ cls => cls.name ++ " instance"

end Value

end LoxLang
