import LoxLang.Proofs.Run.History
import LoxLang.Proofs.Stateful

/-!
# What the compound steps of a run do

Binding a method to an object, entering a function and declaring a class are each
made of several steps between which no node is evaluated.  Here is what each of them
makes of the machine in the end.
-/

namespace LoxLang

/-- The frames after parameters are bound to arguments in a frame. -/
def Forest.defineParams (frame : FrameId) : List Token → List Value → Forest Value → Forest Value
  | param :: params, arg :: args, forest =>
      Forest.defineParams frame params args (forest.define frame param.lexeme arg)
  | _, _, forest => forest

/-- What is bound after parameters are bound was bound before, or is an argument. -/
theorem Forest.get?_defineParams {frame other : FrameId} {params : List Token} {args : List Value}
    {forest : Forest Value} {key : String} {found : Value}
    (bound : ((forest.defineParams frame params args).bindings other).get? key = some found) :
    (forest.bindings other).get? key = some found ∨ found ∈ args := by
  induction params generalizing forest args with
  | nil => exact .inl bound
  | cons param params induction =>
      cases args with
      | nil => exact .inl bound
      | cons arg args =>
          rcases induction bound with before | isArg
          · rcases get?_define before with before | ⟨-, -, rfl⟩
            · exact .inl before
            · exact .inr List.mem_cons_self
          · exact .inr (List.mem_cons_of_mem _ isArg)

namespace Machine

/-- The machine after a method has been made the method of an object. -/
def tied (machine : Machine) (method : Closure) (object : Value) : Machine :=
  { machine with
    forest := (machine.forest.child method.frame).define machine.forest.size "this" object
    serial := machine.serial + 1 }

/-- The function that a method becomes when it is made the method of an object. -/
def tie (machine : Machine) (method : Closure) : Closure :=
  ⟨machine.serial, method.decl, machine.forest.size, method.isInitializer⟩

/-- The machine after a frame has been made for a call, but for the frame in which it is. -/
def entered (machine : Machine) (closure : Closure) (args : List Value) : Machine :=
  { machine with
    forest := (machine.forest.child closure.frame).defineParams machine.forest.size
      closure.decl.params args }

/-- The machine after an object has been made. -/
def created (machine : Machine) : Machine :=
  { machine with objects := machine.objects.push Table.empty }

/-- The machine after a field is set. -/
def withField (machine : Machine) (id : Nat) (name : String) (value : Value) : Machine :=
  { machine with objects := machine.objects.modify id (·.insert name value) }

theorem fields_eq {machine later : Machine} (sameObjects : later.objects = machine.objects)
    (id : Nat) : later.fields id = machine.fields id := by
  unfold fields
  rw [sameObjects]

/-- A new object has no fields. -/
theorem fields_created (machine : Machine) (id : Nat) :
    machine.created.fields id = machine.fields id := by
  unfold fields created
  rw [Array.getD_eq_getD_getElem?, Array.getD_eq_getD_getElem?, Array.getElem?_push]
  split
  · rename_i isNew
    rw [isNew, Array.getElem?_eq_none (Nat.le_refl _)]
    rfl
  · rfl

/-- The fields of an object after a field is set, on it or on another object. -/
theorem fields_withField (machine : Machine) (id other : Nat) (name : String) (value : Value) :
    (machine.withField id name value).fields other =
      if id = other ∧ other < machine.objects.size then (machine.fields other).insert name value
      else machine.fields other := by
  unfold fields withField
  rw [Array.getD_eq_getD_getElem?, Array.getD_eq_getD_getElem?, Array.getElem?_modify]
  by_cases same : id = other
  · subst same
    by_cases inside : id < machine.objects.size
    · simp [inside]
    · simp [inside]
  · simp [same]

theorem get?_withField {machine : Machine} {id other : Nat} {name key : String}
    {value found : Value}
    (there : ((machine.withField id name value).fields other).get? key = some found) :
    (machine.fields other).get? key = some found ∨ found = value := by
  rw [fields_withField] at there
  split at there
  · rw [Table.get?_insert] at there
    split at there
    · exact .inr (Option.some.inj there).symm
    · exact .inl there
  · exact .inl there

/-- The machine after a name is bound in a frame. -/
def define (machine : Machine) (frame : FrameId) (name : String) (value : Value) : Machine :=
  { machine with forest := machine.forest.define frame name value }

/-- The machine after a frame is made inside another one. -/
def child (machine : Machine) (parent : FrameId) : Machine :=
  { machine with forest := machine.forest.child parent }

/-- The function that a function statement makes. -/
def declared (machine : Machine) (decl : FunctionDecl Site) : Closure :=
  ⟨machine.serial, decl, machine.current, false⟩

/-- The machine after a function has been declared. -/
def withFunction (machine : Machine) (decl : FunctionDecl Site) : Machine :=
  { machine with serial := machine.serial + 1 }.define machine.current decl.name.lexeme
    (.closure ⟨machine.serial, decl, machine.current, false⟩)

/-- The table of methods in a frame, with serials from one on. -/
def methodsFrom (frame : FrameId) :
    (serial : Nat) → Table Closure → List (FunctionDecl Site) → Table Closure
  | _, table, [] => table
  | serial, table, decl :: rest =>
      methodsFrom frame (serial + 1)
        (table.insert decl.name.lexeme
          ⟨serial, decl, frame, decl.name.lexeme = initializerName⟩) rest

/-- Of several declarations of a method the last one counts. -/
theorem get?_methodsFrom (frame : FrameId) (serial : Nat) (table : Table Closure)
    (methods : List (FunctionDecl Site)) (name : String) :
    (methodsFrom frame serial table methods).get? name =
      (((methods.zipIdx serial).reverse.find? fun entry => entry.1.name.lexeme = name).map
        fun entry => ⟨entry.2, entry.1, frame, entry.1.name.lexeme = initializerName⟩).or
          (table.get? name) := by
  induction methods generalizing serial table with
  | nil => rfl
  | cons decl rest induction =>
      rw [methodsFrom, induction, List.zipIdx_cons, List.reverse_cons, List.find?_append,
        Table.get?_insert]
      cases (rest.zipIdx (serial + 1)).reverse.find? fun entry => entry.1.name.lexeme = name with
      | some entry => rfl
      | none => by_cases same : decl.name.lexeme = name <;> simp [same]

/-- A method in the table is one of those declared, in that frame, if it was not there before. -/
theorem of_methodsFrom {frame : FrameId} {serial : Nat} {table : Table Closure}
    {methods : List (FunctionDecl Site)} {name : String} {method : Closure}
    (found : (methodsFrom frame serial table methods).get? name = some method) :
    table.get? name = some method ∨ (method.frame = frame ∧ method.decl ∈ methods) := by
  rw [get?_methodsFrom, Option.or_eq_some_iff] at found
  rcases found with declared | ⟨-, inTable⟩
  · obtain ⟨entry, found, rfl⟩ := Option.map_eq_some_iff.1 declared
    have member := List.mem_reverse.1 (List.mem_of_find?_eq_some found)
    exact .inr ⟨rfl, List.fst_mem_of_mem_zipIdx member⟩
  · exact .inl inTable

/-- The frame around the methods of a class that is about to be declared. -/
def methodFrame (machine : Machine) : Option ClassValue → FrameId
  | none => machine.current
  | some _ => machine.forest.size

/-- The machine after that frame has been made, if it is not the one in which the machine is. -/
def aroundMethods (machine : Machine) : Option ClassValue → Machine
  | none => machine
  | some superclass =>
      (machine.child machine.current).define machine.forest.size "super" (.class superclass)

/-- The class that is declared. -/
def newClass (machine : Machine) (name : Token) (superclass : Option ClassValue)
    (methods : List (FunctionDecl Site)) : ClassValue where
  own :=
    { serial := machine.serial + methods.length
      name := name.lexeme
      methods := methodsFrom (machine.methodFrame superclass) machine.serial Table.empty methods }
  ancestors := superclass.elim [] ClassValue.chain

/-- The machine after a class has been declared whose superclass is known. -/
def withClass (machine : Machine) (name : Token) (superclass : Option ClassValue)
    (methods : List (FunctionDecl Site)) : Machine :=
  let around := (machine.define machine.current name.lexeme .nil).aroundMethods superclass
  { around with serial := machine.serial + methods.length + 1 }.define machine.current name.lexeme
    (.class (machine.newClass name superclass methods))

@[simp] theorem forest_define (machine : Machine) (frame : FrameId) (name : String)
    (value : Value) :
    (machine.define frame name value).forest = machine.forest.define frame name value :=
  rfl

@[simp] theorem forest_child (machine : Machine) (parent : FrameId) :
    (machine.child parent).forest = machine.forest.child parent :=
  rfl

@[simp] theorem methodFrame_define (machine : Machine) (name : String) (value : Value)
    (superclass : Option ClassValue) :
    (machine.define machine.current name value).methodFrame superclass =
      machine.methodFrame superclass := by
  cases superclass with
  | none => rfl
  | some _ => exact Forest.size_define _ _ _ _

@[simp] theorem serial_aroundMethods (machine : Machine) (superclass : Option ClassValue) :
    (machine.aroundMethods superclass).serial = machine.serial := by
  cases superclass <;> rfl

section Bindings

variable {machine : Machine} {frame : FrameId} {key : String} {found : Value}

theorem get?_child {parent : FrameId}
    (bound : ((machine.child parent).forest.bindings frame).get? key = some found) :
    (machine.forest.bindings frame).get? key = some found := by
  rwa [forest_child, Forest.bindings_child] at bound

theorem get?_entered {closure : Closure} {args : List Value}
    (bound : ((machine.entered closure args).forest.bindings frame).get? key = some found) :
    (machine.forest.bindings frame).get? key = some found ∨ found ∈ args :=
  (Forest.get?_defineParams bound).imp_left get?_child

theorem get?_tied {method : Closure} {object : Value}
    (bound : ((machine.tied method object).forest.bindings frame).get? key = some found) :
    (machine.forest.bindings frame).get? key = some found ∨ found = object := by
  rcases Forest.get?_define bound with before | ⟨-, -, isObject⟩
  · exact .inl (get?_child before)
  · exact .inr isObject

theorem get?_withFunction {decl : FunctionDecl Site}
    (bound : ((machine.withFunction decl).forest.bindings frame).get? key = some found) :
    (machine.forest.bindings frame).get? key = some found ∨
      found = .closure (machine.declared decl) :=
  (Forest.get?_define bound).imp_right fun new => new.2.2

theorem get?_aroundMethods {superclass : Option ClassValue}
    (bound : ((machine.aroundMethods superclass).forest.bindings frame).get? key = some found) :
    (machine.forest.bindings frame).get? key = some found ∨
      ∃ cls ∈ superclass, found = .class cls := by
  cases superclass with
  | none => exact .inl bound
  | some cls =>
      rcases Forest.get?_define bound with before | ⟨-, -, isClass⟩
      · exact .inl (get?_child before)
      · exact .inr ⟨cls, rfl, isClass⟩

/-- A class statement binds nothing to the name at first, the superclass to `super`, and at last the
class to the name. -/
theorem get?_withClass {name : Token} {superclass : Option ClassValue}
    {methods : List (FunctionDecl Site)}
    (bound : ((machine.withClass name superclass methods).forest.bindings frame).get? key =
      some found) :
    (machine.forest.bindings frame).get? key = some found ∨ found = .nil ∨
      (∃ cls ∈ superclass, found = .class cls) ∨
        found = .class (machine.newClass name superclass methods) := by
  rcases Forest.get?_define bound with before | ⟨-, -, isNew⟩
  · rcases get?_aroundMethods before with earlier | isSuper
    · rcases Forest.get?_define earlier with first | ⟨-, -, isNil⟩
      · exact .inl first
      · exact .inr (.inl isNil)
    · exact .inr (.inr (.inl isSuper))
  · exact .inr (.inr (.inr isNew))

end Bindings

/-- Declaring a class leaves the machine in its frame. -/
theorem current_withClass (machine : Machine) (name : Token) (superclass : Option ClassValue)
    (methods : List (FunctionDecl Site)) :
    (machine.withClass name superclass methods).current = machine.current := by
  cases superclass <;> rfl

end Machine

namespace Watching

open Watched (lift)

variable (machine : Machine) (history : History)

/-- The part comes to this result and this machine, and notes no moment. -/
def Effects {α : Type} (part : Watching α) (result : α) (later : Machine) : Prop :=
  ∃ origins, part ⟨machine, history⟩ = .ok result ⟨later, { history with origins := origins }⟩

theorem Effects.bind {α β : Type} {machine : Machine} {history : History} {part : Watching α}
    {next : α → Watching β} {value : α} {result : β} {middle last : Machine}
    (first : Effects machine history part value middle)
    (second : ∀ history, Effects middle history (next value) result last) :
    Effects machine history (part >>= next) result last := by
  obtain ⟨origins, firstEnds⟩ := first
  obtain ⟨others, secondEnds⟩ := second { history with origins := origins }
  exact ⟨others, (bind_of_ok firstEnds).trans secondEnds⟩

theorem Effects.lift {α : Type} {machine : Machine} {history : History} {part : Run α} {result : α}
    {later : Machine} (ends : part machine = .ok result later) :
    Effects machine history (lift part) result later := by
  refine ⟨history.origins, ?_⟩
  unfold Watched.lift
  rw [ends]

theorem makeClosure_effects (origin : Address) (decl : FunctionDecl Site) (frame : FrameId)
    (isInitializer : Bool) :
    Effects machine history (makeClosure origin decl frame isInitializer)
      ⟨machine.serial, decl, frame, isInitializer⟩
      { machine with serial := machine.serial + 1 } :=
  ⟨_, rfl⟩

theorem function_effects (address : Address) (decl : FunctionDecl Site) :
    Effects machine history (do
      let closure ← makeClosure address decl (← lift Run.here) false
      lift (Run.defineHere decl.name.lexeme (.closure closure))
      return Completion.normal) .normal (machine.withFunction decl) :=
  ⟨_, rfl⟩

theorem bind_effects (method : Closure) (object : Value) :
    Effects machine history (bind method object) (machine.tie method)
      (machine.tied method object) :=
  ⟨_, rfl⟩

theorem defineParams_eq (frame : FrameId) (params : List Token) (args : List Value) :
    Run.defineParams frame params args machine =
      .ok () { machine with
        forest := machine.forest.defineParams frame params args } := by
  induction params generalizing machine args with
  | nil => rfl
  | cons param params induction =>
      cases args with
      | nil => rfl
      | cons arg args => exact induction (machine.define frame param.lexeme arg) args

theorem methodTable_effects (address : Address) (frame : FrameId) (index : Nat)
    (table : Table Closure) (methods : List (FunctionDecl Site)) :
    Effects machine history (methodTable address frame index table methods)
      (Machine.methodsFrom frame machine.serial table methods)
      { machine with serial := machine.serial + methods.length } := by
  induction methods generalizing machine history index table with
  | nil => exact ⟨_, rfl⟩
  | cons decl rest induction =>
      refine Effects.bind (makeClosure_effects machine history (address.child index) decl frame
        (decl.name.lexeme = initializerName)) fun history => ?_
      have remaining := induction { machine with serial := machine.serial + 1 } history (index + 1)
        (table.insert decl.name.lexeme
          ⟨machine.serial, decl, frame, decl.name.lexeme = initializerName⟩)
      rw [List.length_cons, Nat.add_comm rest.length, ← Nat.add_assoc]
      exact remaining

theorem methodFrame_effects (superclass : Option ClassValue) :
    Effects machine history (lift (Run.methodFrame machine.current superclass))
      (machine.methodFrame superclass) (machine.aroundMethods superclass) := by
  cases superclass <;> exact ⟨_, rfl⟩

theorem classRest_effects (address : Address) (name : Token) (superclass : Option ClassValue)
    (methods : List (FunctionDecl Site)) :
    Effects machine history (classRest address name superclass methods) ()
      (machine.withClass name superclass methods) := by
  refine Effects.bind (.lift rfl) fun history => ?_
  refine Effects.bind (.lift rfl) fun history => ?_
  refine Effects.bind (methodFrame_effects (machine.define machine.current name.lexeme .nil)
    history superclass) fun history => ?_
  refine Effects.bind (methodTable_effects _ history address _ 1 Table.empty methods)
    fun history => ?_
  refine Effects.bind (.lift rfl) fun history => ?_
  rw [Machine.methodFrame_define, Machine.serial_aroundMethods]
  refine .lift ?_
  cases superclass <;> rfl

end Watching

end LoxLang
