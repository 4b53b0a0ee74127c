import LoxLang.Proofs.TreeMap
import LoxLang.Proofs.Watched
import LoxLang.Scope.Resolve

/-!
# Watching the pass through the scopes

The pass that works out scopes is watched: every scope gets a number when it is
opened, and the notes say which names were ever put into which scope, and which
scopes were around every node when the pass came to it.

A node is known by its address, the number of its program and the way to it from
the root.  The children of a node are counted in the order in which they stand in
the text; a method counts as a child of its class.
-/

namespace LoxLang

/-- A place in one of several programs: the program's number, and the way from the root, whose last
step stands first. -/
structure Address where
  program : Nat
  path : List Nat
deriving DecidableEq, Repr

/-- The address of a child. -/
def Address.child (address : Address) (index : Nat) : Address :=
  { address with path := index :: address.path }

/-- An expression or a statement. -/
inductive Node (S : Type) where
  | expr (e : Expr S)
  | stmt (s : Stmt S)

/-- The node with its sites forgotten. -/
def Node.bare {S : Type} : Node S → Node Unit
  | .expr e => .expr e.bare
  | .stmt s => .stmt s.bare

/-- What surrounds a place: the scopes with their numbers, innermost first, and the kinds of the
function and the class. -/
structure Context where
  scopes : List Scope
  numbers : List Nat
  function : FunctionKind
  classKind : ClassKind

/-- That the pass came to a node. -/
structure Visit where
  address : Address
  node : Node Unit
  context : Context

/-- The notes on the pass through the scopes. -/
structure Survey where
  /-- The numbers of the scopes around the place, innermost first. -/
  opened : List Nat
  /-- How many scopes have been opened. -/
  made : Nat
  /-- The names that were put into scopes, the latest first. -/
  put : List (Nat × String)
  /-- The nodes that were visited, the latest first. -/
  visits : List Visit

/-- The notes before the first pass. -/
def Survey.blank : Survey := ⟨[], 0, [], []⟩

/-- What surrounds the place that has been reached. -/
def Watched.context (watched : Watched ScopeState Survey) : Context :=
  ⟨watched.state.scopes, watched.notes.opened, watched.state.function, watched.state.classKind⟩

/-- A pass through a part of a program under observation. -/
abbrev Surveying (α : Type) := EStateM TooDeep (Watched ScopeState Survey) α

namespace Surveying

open Watched (lift note)

/-- Note that the pass came to a node. -/
def visit (address : Address) (node : Node Unit) : Surveying Unit :=
  note fun state survey =>
    { survey with
      visits :=
        ⟨address, node, ⟨state.scopes, survey.opened, state.function, state.classKind⟩⟩ ::
          survey.visits }

/-- Note that a name is put into the innermost scope. -/
def notePut (name : String) : Surveying Unit :=
  note fun _ survey =>
    { survey with put := (survey.opened.head?.map (·, name)).toList ++ survey.put }

/-- Add a name to the innermost scope. -/
def declare (name : Token) : Surveying Unit := do
  notePut name.lexeme
  lift (Scoping.declare name)

/-- Note that a scope is opened, with some names in it. -/
def noteOpened (names : List String) : Surveying Unit :=
  note fun _ survey =>
    { survey with
      opened := survey.made :: survey.opened
      made := survey.made + 1
      put := names.map (survey.made, ·) ++ survey.put }

/-- Note that the innermost scope is closed. -/
def noteClosed : Surveying Unit :=
  note fun _ survey => { survey with opened := survey.opened.tail }

/-- Go through a part inside a new scope. -/
def inScope {α : Type} (scope : Scope) (part : Surveying α) : Surveying α := do
  noteOpened scope.names
  lift (modify fun state => { state with scopes := scope :: state.scopes })
  let result ← part
  noteClosed
  lift (modify fun state => { state with scopes := state.scopes.tail })
  return result

/-- Go through a part inside a function of this kind. -/
def inFunction {α : Type} (kind : FunctionKind) (part : Surveying α) : Surveying α := do
  let enclosing := (← lift get).function
  lift (modify fun state => { state with function := kind })
  let result ← part
  lift (modify fun state => { state with function := enclosing })
  return result

/-- Go through a part after which the class is again the one from before. -/
def inClass {α : Type} (kind : ClassKind) (part : Surveying α) : Surveying α := do
  let enclosing := (← lift get).classKind
  lift (modify fun state => { state with classKind := kind })
  let result ← part
  lift (modify fun state => { state with classKind := enclosing })
  return result

/-- Go through parts one after the other, which are the children from an index on. -/
def each {α β : Type} (visit : Nat → α → Surveying β) : (index : Nat) → List α → Surveying (List β)
  | _, [] => return []
  | index, first :: rest => do
      let head ← visit index first
      let tail ← each visit (index + 1) rest
      return head :: tail

/-- Go through a part that may be absent. -/
def optional {α β : Type} (visit : α → Surveying β) : Option α → Surveying (Option β)
  | none => return none
  | some part => return some (← visit part)

/-- Visit an expression. -/
def expr : (room : Nat) → Address → Expr Unit → Surveying (Expr Site)
  | 0, _, _ => throw .tooDeep
  | room + 1, address, e => do
      visit address (.expr e)
      match e with
      | .literal value => return .literal value
      | .grouping inner => return .grouping (← expr room (address.child 0) inner)
      | .unary op operand => return .unary op (← expr room (address.child 0) operand)
      | .binary left op right => do
          let left ← expr room (address.child 0) left
          let right ← expr room (address.child 1) right
          return .binary left op right
      | .logical left op right => do
          let left ← expr room (address.child 0) left
          let right ← expr room (address.child 1) right
          return .logical left op right
      | .variable name _ => return .variable name (← lift (Scoping.reference name))
      | .assign name _ value => do
          let value ← expr room (address.child 0) value
          let site ← lift (Scoping.locate .assign name)
          return .assign name site value
      | .call callee paren args => do
          let callee ← expr room (address.child 0) callee
          let args ← each (fun index => expr room (address.child index)) 1 args
          return .call callee paren args
      | .get object name => return .get (← expr room (address.child 0) object) name
      | .set object name value => do
          let value ← expr room (address.child 1) value
          let object ← expr room (address.child 0) object
          return .set object name value
      | .this keyword _ => do
          if (← lift get).classKind = .none then
            lift (Scoping.complain keyword .thisOutsideClass)
            return .this keyword none
          else
            return .this keyword (← lift (Scoping.locate .this keyword))
      | .super keyword method _ => do
          match (← lift get).classKind with
          | .none => lift (Scoping.complain keyword .superOutsideClass)
          | .plain => lift (Scoping.complain keyword .superWithoutSuperclass)
          | .derived => pure ()
          return .super keyword method (← lift (Scoping.locate .super keyword))

/-- Declare a parameter, which can be used at once. -/
def param (name : Token) : Surveying Unit := do
  declare name
  lift (Scoping.define name.lexeme)

/-- Visit the parameters and the body of a function. -/
def functionRest (visit : Address → Stmt Unit → Surveying (Stmt Site)) (kind : FunctionKind)
    (address : Address) (decl : FunctionDecl Unit) : Surveying (FunctionDecl Site) :=
  inFunction kind do
    inScope Table.empty do
      let _ ← each (fun _ => param) 0 decl.params
      let body ← each (fun index => visit (address.child index)) 0 decl.body
      return ⟨decl.name, decl.params, body⟩

/-- Visit the methods of a class, in the scope of `this`. -/
def methodsRest (visit : Address → Stmt Unit → Surveying (Stmt Site)) (address : Address)
    (methods : List (FunctionDecl Unit)) : Surveying (List (FunctionDecl Site)) :=
  inScope (Table.empty.insert "this" true) do
    each (fun index method =>
      functionRest visit (Scoping.methodKind method) (address.child index) method) 1 methods

/-- Visit the superclass of a class, which is named like any other variable. -/
def superclass (address : Address) (name : Token) (parent : Superclass Unit) :
    Surveying (Superclass Site) := do
  if parent.name.lexeme = name.lexeme then
    lift (Scoping.complain parent.name .selfInheritance)
  lift (modify fun state => { state with classKind := .derived })
  visit address (.expr (.variable parent.name parent.site))
  return ⟨parent.name, ← lift (Scoping.reference parent.name)⟩

/-- Visit a statement. -/
def stmt : (room : Nat) → Address → Stmt Unit → Surveying (Stmt Site)
  | 0, _, _ => throw .tooDeep
  | room + 1, address, s => do
      visit address (.stmt s)
      match s with
      | .expression value => return .expression (← expr room (address.child 0) value)
      | .print value => return .print (← expr room (address.child 0) value)
      | .var name initializer => do
          declare name
          let initializer ← optional (expr room (address.child 0)) initializer
          lift (Scoping.define name.lexeme)
          return .var name initializer
      | .block body =>
          return .block
            (← inScope Table.empty (each (fun index => stmt room (address.child index)) 0 body))
      | .conditional condition thenBranch elseBranch => do
          let condition ← expr room (address.child 0) condition
          let thenBranch ← stmt room (address.child 1) thenBranch
          let elseBranch ← optional (stmt room (address.child 2)) elseBranch
          return .conditional condition thenBranch elseBranch
      | .loop condition body => do
          let condition ← expr room (address.child 0) condition
          let body ← stmt room (address.child 1) body
          return .loop condition body
      | .function decl => do
          declare decl.name
          lift (Scoping.define decl.name.lexeme)
          return .function (← functionRest (stmt room) .function address decl)
      | .return keyword value => do
          if (← lift get).function = .none then lift (Scoping.complain keyword .returnAtTopLevel)
          match value with
          | none => return .return keyword none
          | some result =>
              if (← lift get).function = .initializer then
                lift (Scoping.complain keyword .valueFromInitializer)
              return .return keyword (some (← expr room (address.child 0) result))
      | .class name parent methods =>
          inClass .plain do
            declare name
            lift (Scoping.define name.lexeme)
            match parent with
            | none =>
                let methods ← methodsRest (stmt room) address methods
                return .class name none methods
            | some parent =>
                let parent ← superclass (address.child 0) name parent
                let methods ← inScope (Table.empty.insert "super" true)
                  (methodsRest (stmt room) address methods)
                return .class name (some parent) methods
      | .lost => return .lost

end Surveying

end LoxLang
