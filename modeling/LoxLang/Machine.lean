import LoxLang.Value

/-!
# The machine

The machine is what a running program can change: the forest of frames, the
fields of objects, what has been printed, and in which frame it is.  It outlives
a program, so that the next one finds what the last one left.

Running a part of a program may stop in four ways: by an error of the program, by
nesting deeper than there is room, by a loop that outlasts the patience of its
host, or by a *defect*, something that cannot happen in a program whose scopes
were worked out without complaint.
-/

namespace LoxLang

/-- What a program does wrong when it runs. -/
inductive Fault where
  | undefinedVariable (name : String)
  | operandNotNumber
  | operandsNotNumbers
  | operandsNotAddable
  | notCallable
  | wrongArity (expected given : Nat)
  | stackOverflow
  | noProperties
  | noFields
  | undefinedProperty (name : String)
  | superclassNotClass
deriving DecidableEq, Repr

namespace Fault

/-- The wording of the error. -/
def message : Fault → String
  | undefinedVariable name => "Undefined variable '" ++ name ++ "'."
  | operandNotNumber => "Operand must be a number."
  | operandsNotNumbers => "Operands must be numbers."
  | operandsNotAddable => "Operands must be two numbers or two strings."
  | notCallable => "Can only call functions and classes."
  | wrongArity expected given =>
      "Expected " ++ toString expected ++ " arguments but got " ++ toString given ++ "."
  | stackOverflow => "Stack overflow."
  | noProperties => "Only instances have properties."
  | noFields => "Only instances have fields."
  | undefinedProperty name => "Undefined property '" ++ name ++ "'."
  | superclassNotClass => "Superclass must be a class."

end Fault

/-- A fault and the token at which it happens. -/
structure RuntimeError where
  about : Token
  fault : Fault
deriving DecidableEq, Repr

/-- What cannot happen in a program whose scopes are in order. -/
inductive Defect where
  | access (error : AccessError)
  | superWithoutSite
  | superNotClass
  | noOperator
  | lostStatement
deriving DecidableEq, Repr

/-- Why a run stops before its end. -/
inductive Stop where
  | error (error : RuntimeError)
  | overflow
  | outOfPatience
  | defect (defect : Defect)
deriving DecidableEq, Repr

/-- How a statement ends that does not stop. -/
inductive Completion where
  | normal
  | returned (value : Value)

/-- What a program finds and leaves behind. -/
structure Machine where
  forest : Forest Value
  /-- The fields of each object. -/
  objects : Array (Table Value)
  /-- How many functions and classes have been made. -/
  serial : Nat
  /-- The frame in which the program is. -/
  current : FrameId
  /-- The lines that were printed, the latest first. -/
  printed : List String
  /-- How many times the clock has been read. -/
  readings : Nat

/-- The frame of the names of the top level. -/
def globalFrame : FrameId := 0

/-- The world around a machine. -/
structure Host where
  /-- What the clock says at each of its readings. -/
  clock : Nat → Float
  /-- How deep statements and expressions may nest when they are read. -/
  nesting : Nat
  /-- How deep nodes may lie inside one another when scopes are worked out. -/
  scopeRoom : Nat
  /-- How deep parts of a program may lie inside one another when it runs. -/
  room : Nat
  /-- How many times a loop may go round. -/
  patience : Nat

namespace Host

/-- A clock that starts at some seconds and goes on by a microsecond with each reading. -/
def clockFrom (start : Float) (reading : Nat) : Float := start + reading.toFloat * 1e-6

/-- The usual limits.  A loop may go round practically for ever. -/
def standard (clock : Nat → Float) : Host where
  clock := clock
  nesting := 2600
  scopeRoom := 10000
  room := 6600
  patience := Nat.pow 10 18

end Host

namespace Machine

/-- The machine on which nothing has run. -/
def fresh : Machine where
  forest := Forest.root.define globalFrame Primitive.clock.name (.primitive .clock)
  objects := #[]
  serial := 0
  current := globalFrame
  printed := []
  readings := 0

/-- The names of the top level with their values, sorted by name. -/
def globals (machine : Machine) : List (String × Value) :=
  (machine.forest.bindings globalFrame).sorted

/-- All that was printed. -/
def printedText (machine : Machine) : String :=
  String.join (machine.printed.reverse.map (· ++ "\n"))

/-- The machine after what was printed has been written out. -/
def silent (machine : Machine) : Machine := { machine with printed := [] }

/-- The fields of an object. -/
def fields (machine : Machine) (id : Nat) : Table Value := machine.objects.getD id Table.empty

end Machine

/-- A part of a run. -/
abbrev Run (α : Type) := EStateM Stop Machine α

namespace Run

/-- Stop with an error at a token. -/
def fault {α : Type} (about : Token) (fault : Fault) : Run α := throw (.error ⟨about, fault⟩)

/-- Stop with a defect. -/
def defect {α : Type} (defect : Defect) : Run α := throw (.defect defect)

/-- A number that no function or class has yet. -/
def freshSerial : Run Nat := fun machine =>
  .ok machine.serial { machine with serial := machine.serial + 1 }

/-- Make a frame inside another one. -/
def childOf (parent : FrameId) : Run FrameId := fun machine =>
  .ok machine.forest.size { machine with forest := machine.forest.child parent }

/-- Bind a name in a frame. -/
def defineIn (frame : FrameId) (name : String) (value : Value) : Run Unit := fun machine =>
  .ok () { machine with forest := machine.forest.define frame name value }

/-- Bind a name in the frame in which the program is. -/
def defineHere (name : String) (value : Value) : Run Unit := fun machine =>
  .ok () { machine with forest := machine.forest.define machine.current name value }

/-- The frame in which the program is. -/
def here : Run FrameId := fun machine => .ok machine.current machine

/-- Print a line. -/
def emit (line : String) : Run Unit := fun machine =>
  .ok () { machine with printed := line :: machine.printed }

/-- Read the clock. -/
def readClock (host : Host) : Run Value := fun machine =>
  .ok (.number (host.clock machine.readings)) { machine with readings := machine.readings + 1 }

/-- Make an object without fields. -/
def newObject (cls : ClassValue) : Run Value := fun machine =>
  .ok (.object machine.objects.size cls)
    { machine with objects := machine.objects.push Table.empty }

/-- The value of a field, if the object has it. -/
def field? (id : Nat) (name : String) : Run (Option Value) := fun machine =>
  .ok ((machine.fields id).get? name) machine

/-- Set a field of an object. -/
def setField (id : Nat) (name : String) (value : Value) : Run Unit := fun machine =>
  .ok () { machine with objects := machine.objects.modify id (·.insert name value) }

/-- Run a part inside a frame, and come back however it ends. -/
def inFrame {α : Type} (frame : FrameId) (part : Run α) : Run α := fun machine =>
  match part { machine with current := frame } with
  | .ok result after => .ok result { after with current := machine.current }
  | .error stop after => .error stop { after with current := machine.current }

/-- Let a part that lacks room stop with an error of the program instead. -/
def catchOverflow {α : Type} (about : Token) (part : Run α) : Run α := fun machine =>
  match part machine with
  | .ok result after => .ok result after
  | .error .overflow after => .error (.error ⟨about, .stackOverflow⟩) after
  | .error stop after => .error stop after

/-- What an access error means for a name, which has a site or is one of the top level. -/
def accessStop (name : Token) (site : Site) (error : AccessError) : Stop :=
  match site with
  | none => .error ⟨name, .undefinedVariable name.lexeme⟩
  | some _ => .defect (.access error)

/-- The value of a name, at a known distance or at the top level. -/
def valueOf (forest : Forest Value) (current : FrameId) (name : String) :
    Site → Except AccessError Value
  | none => forest.get globalFrame name
  | some distance => forest.getAt current distance name

/-- Read a name, at a known distance or at the top level. -/
def lookUp (name : Token) (site : Site) : Run Value := fun machine =>
  match valueOf machine.forest machine.current name.lexeme site with
  | .ok value => .ok value machine
  | .error error => .error (accessStop name site error) machine

/-- The value of a name in the frame at a distance. -/
def lookUpAt (frame : FrameId) (distance : Nat) (name : String) : Run Value := fun machine =>
  match machine.forest.getAt frame distance name with
  | .ok value => .ok value machine
  | .error error => .error (.defect (.access error)) machine

/-- The frame that a name is stored in: at a known distance, or at the top level if the name is
bound there. -/
def target (forest : Forest Value) (current : FrameId) (name : String) :
    Site → Except AccessError FrameId
  | none => forest.holder globalFrame name
  | some distance => forest.ancestor current distance

/-- Rebind a name, at a known distance or at the top level. -/
def store (name : Token) (site : Site) (value : Value) : Run Unit := fun machine =>
  match target machine.forest machine.current name.lexeme site with
  | .ok frame =>
      .ok () { machine with forest := machine.forest.define frame name.lexeme value }
  | .error error => .error (accessStop name site error) machine

end Run

end LoxLang
