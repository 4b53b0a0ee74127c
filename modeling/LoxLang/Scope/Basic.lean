import LoxLang.Issue
import LoxLang.Table
import LoxLang.Tree

/-!
# Scopes

A scope holds the names declared in a block, in a function, or around the methods
of a class.  A name is *declared* when its declaration begins and *defined* when
it can be used.  Names at the top level are in no scope.

`ScopeState` is what has been gathered on the way through a program: the scopes
around the place that has been reached, in what kind of function and class it
lies, the complaints, and the references whose scopes are known.
-/

namespace LoxLang

/-- What is wrong with the use of a name. -/
inductive ScopeError where
  | redeclared
  | ownInitializer
  | selfInheritance
  | returnAtTopLevel
  | valueFromInitializer
  | thisOutsideClass
  | superOutsideClass
  | superWithoutSuperclass
deriving DecidableEq, Repr

namespace ScopeError

/-- The wording of an issue. -/
def message : ScopeError → String
  | redeclared => "Already a variable with this name in this scope."
  | ownInitializer => "Can't read local variable in its own initializer."
  | selfInheritance => "A class can't inherit from itself."
  | returnAtTopLevel => "Can't return from top-level code."
  | valueFromInitializer => "Can't return a value from an initializer."
  | thisOutsideClass => "Can't use 'this' outside of a class."
  | superOutsideClass => "Can't use 'super' outside of a class."
  | superWithoutSuperclass => "Can't use 'super' in a class with no superclass."

end ScopeError

/-- A scope error and the token that it is about. -/
structure ScopeComplaint where
  about : Token
  error : ScopeError
deriving DecidableEq, Repr

/-- The complaint as an issue. -/
def ScopeComplaint.toIssue (complaint : ScopeComplaint) : Issue :=
  Issue.atToken complaint.about complaint.error.message

/-- The names declared in a scope, and whether each is defined yet. -/
abbrev Scope := Table Bool

/-- In what kind of function a place lies. -/
inductive FunctionKind where
  | none | function | method | initializer
deriving DecidableEq, Repr

/-- In what kind of class a place lies. -/
inductive ClassKind where
  | none | plain | derived
deriving DecidableEq, Repr

/-- The kinds of expressions that carry a site. -/
inductive ReferenceKind where
  | variable | assign | this | super
deriving DecidableEq, Repr

/-- A name used in the scope that many scopes further out where it is declared. -/
structure Reference where
  kind : ReferenceKind
  token : Token
  distance : Nat
deriving DecidableEq, Repr

/-- What a site holds once scopes are known: the distance to the scope of the name, or nothing for
a name of the top level. -/
abbrev Site := Option Nat

/-- How many scopes lie between the innermost scope and the first one that has the name. -/
def Scope.distance? (scopes : List Scope) (name : String) : Site :=
  scopes.findIdx? (·.binds name)

/-- What has been gathered on the way through a program. -/
structure ScopeState where
  /-- The scopes around the place, innermost first. -/
  scopes : List Scope
  function : FunctionKind
  classKind : ClassKind
  /-- The complaints, the latest first. -/
  complaints : List ScopeComplaint
  /-- The references with known scopes, the latest first. -/
  references : List Reference
deriving Repr

/-- The start of a program. -/
def ScopeState.start : ScopeState := ⟨[], .none, .none, [], []⟩

/-- The only way in which working out scopes can stop. -/
inductive TooDeep where
  | tooDeep
deriving DecidableEq, Repr

/-- A pass through a part of a program. -/
abbrev Scoping (α : Type) := EStateM TooDeep ScopeState α

namespace Scoping

/-- Write a complaint down. -/
def complain (about : Token) (error : ScopeError) : Scoping Unit := fun state =>
  .ok () { state with complaints := ⟨about, error⟩ :: state.complaints }

/-- Add a name to the innermost scope; a name that it has already is complained about. -/
def declare (name : Token) : Scoping Unit := fun state =>
  match state.scopes with
  | [] => .ok () state
  | scope :: outer =>
      let complaints :=
        if scope.binds name.lexeme then ⟨name, .redeclared⟩ :: state.complaints
        else state.complaints
      .ok () { state with
        scopes := scope.insert name.lexeme false :: outer
        complaints := complaints }

/-- Make a name usable in the innermost scope. -/
def define (name : String) : Scoping Unit := fun state =>
  match state.scopes with
  | [] => .ok () state
  | scope :: outer => .ok () { state with scopes := scope.insert name true :: outer }

/-- The distance to the scope of a name; if there is one the reference is recorded. -/
def locate (kind : ReferenceKind) (name : Token) : Scoping Site := fun state =>
  match Scope.distance? state.scopes name.lexeme with
  | none => .ok none state
  | some distance =>
      .ok (some distance)
        { state with references := ⟨kind, name, distance⟩ :: state.references }

/-- Whether the innermost scope has the name declared but not yet defined. -/
def isPending (name : String) : Scoping Bool := fun state =>
  match state.scopes with
  | [] => .ok false state
  | scope :: _ => .ok (scope.get? name == some false) state

/-- Go through a part inside a new scope. -/
def inScope {α : Type} (scope : Scope) (part : Scoping α) : Scoping α := do
  modify fun state => { state with scopes := scope :: state.scopes }
  let result ← part
  modify fun state => { state with scopes := state.scopes.tail }
  return result

/-- Go through a part inside a function of this kind. -/
def inFunction {α : Type} (kind : FunctionKind) (part : Scoping α) : Scoping α := do
  let enclosing := (← get).function
  modify fun state => { state with function := kind }
  let result ← part
  modify fun state => { state with function := enclosing }
  return result

/-- Go through a part after which the class is again the one from before. -/
def inClass {α : Type} (kind : ClassKind) (part : Scoping α) : Scoping α := do
  let enclosing := (← get).classKind
  modify fun state => { state with classKind := kind }
  let result ← part
  modify fun state => { state with classKind := enclosing }
  return result

/-- Go through parts one after the other. -/
def each {α β : Type} (visit : α → Scoping β) : List α → Scoping (List β)
  | [] => return []
  | first :: rest => do
      let head ← visit first
      let tail ← each visit rest
      return head :: tail

/-- Go through a part that may be absent. -/
def optional {α β : Type} (visit : α → Scoping β) : Option α → Scoping (Option β)
  | none => return none
  | some part => return some (← visit part)

end Scoping

end LoxLang
