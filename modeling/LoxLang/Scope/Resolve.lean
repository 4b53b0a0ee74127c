import LoxLang.Scope.Basic

/-!
# Working out scopes

One pass from the root finds, for every reference, how many scopes lie between it
and the scope that declares its name, and complains about names declared twice,
variables read in their own initializer, and misplaced `this`, `super` and
`return`.  A complaint never ends the pass.

The scopes of this pass are the environments of a run: one for each block, one
for the parameters and the body of a function, one for `this` around the methods
of a class, and one for `super` around that.

A part of a program is visited with some room left; every visit of a node inside
another takes up one unit of it.
-/

namespace LoxLang

namespace Scoping

/-- Visit a reference to a variable. -/
def reference (name : Token) : Scoping Site := do
  if ← isPending name.lexeme then complain name .ownInitializer
  locate .variable name

/-- Visit an expression. -/
def expr : (room : Nat) → Expr Unit → Scoping (Expr Site)
  | 0, _ => throw .tooDeep
  | room + 1, e =>
      match e with
      | .literal value => return .literal value
      | .grouping inner => return .grouping (← expr room inner)
      | .unary op operand => return .unary op (← expr room operand)
      | .binary left op right => do
          let left ← expr room left
          let right ← expr room right
          return .binary left op right
      | .logical left op right => do
          let left ← expr room left
          let right ← expr room right
          return .logical left op right
      | .variable name _ => return .variable name (← reference name)
      | .assign name _ value => do
          let value ← expr room value
          let site ← locate .assign name
          return .assign name site value
      | .call callee paren args => do
          let callee ← expr room callee
          let args ← each (expr room) args
          return .call callee paren args
      | .get object name => return .get (← expr room object) name
      | .set object name value => do
          let value ← expr room value
          let object ← expr room object
          return .set object name value
      | .this keyword _ => do
          if (← get).classKind = .none then
            complain keyword .thisOutsideClass
            return .this keyword none
          else
            return .this keyword (← locate .this keyword)
      | .super keyword method _ => do
          match (← get).classKind with
          | .none => complain keyword .superOutsideClass
          | .plain => complain keyword .superWithoutSuperclass
          | .derived => pure ()
          return .super keyword method (← locate .super keyword)

/-- Declare a parameter, which can be used at once. -/
def param (name : Token) : Scoping Unit := do
  declare name
  define name.lexeme

/-- Visit the parameters and the body of a function. -/
def functionRest (visit : Stmt Unit → Scoping (Stmt Site)) (kind : FunctionKind)
    (decl : FunctionDecl Unit) : Scoping (FunctionDecl Site) :=
  inFunction kind do
    inScope Table.empty do
      let _ ← each param decl.params
      let body ← each visit decl.body
      return ⟨decl.name, decl.params, body⟩

/-- The kind of a method, which is told by its name. -/
def methodKind (decl : FunctionDecl Unit) : FunctionKind :=
  if decl.name.lexeme = "init" then .initializer else .method

/-- Visit the methods of a class, in the scope of `this`. -/
def methodsRest (visit : Stmt Unit → Scoping (Stmt Site)) (methods : List (FunctionDecl Unit)) :
    Scoping (List (FunctionDecl Site)) :=
  inScope (Table.empty.insert "this" true) do
    each (fun method => functionRest visit (methodKind method) method) methods

/-- Visit the superclass of a class, which is named like any other variable. -/
def superclass (name : Token) (parent : Superclass Unit) : Scoping (Superclass Site) := do
  if parent.name.lexeme = name.lexeme then complain parent.name .selfInheritance
  modify fun state => { state with classKind := .derived }
  return ⟨parent.name, ← reference parent.name⟩

/-- Visit a statement. -/
def stmt : (room : Nat) → Stmt Unit → Scoping (Stmt Site)
  | 0, _ => throw .tooDeep
  | room + 1, s =>
      match s with
      | .expression value => return .expression (← expr room value)
      | .print value => return .print (← expr room value)
      | .var name initializer => do
          declare name
          let initializer ← optional (expr room) initializer
          define name.lexeme
          return .var name initializer
      | .block body => return .block (← inScope Table.empty (each (stmt room) body))
      | .conditional condition thenBranch elseBranch => do
          let condition ← expr room condition
          let thenBranch ← stmt room thenBranch
          let elseBranch ← optional (stmt room) elseBranch
          return .conditional condition thenBranch elseBranch
      | .loop condition body => do
          let condition ← expr room condition
          let body ← stmt room body
          return .loop condition body
      | .function decl => do
          declare decl.name
          define decl.name.lexeme
          return .function (← functionRest (stmt room) .function decl)
      | .return keyword value => do
          if (← get).function = .none then complain keyword .returnAtTopLevel
          match value with
          | none => return .return keyword none
          | some result =>
              if (← get).function = .initializer then complain keyword .valueFromInitializer
              return .return keyword (some (← expr room result))
      | .class name parent methods =>
          inClass .plain do
            declare name
            define name.lexeme
            match parent with
            | none =>
                let methods ← methodsRest (stmt room) methods
                return .class name none methods
            | some parent =>
                let parent ← superclass name parent
                let methods ← inScope (Table.empty.insert "super" true)
                  (methodsRest (stmt room) methods)
                return .class name (some parent) methods
      | .lost => return .lost

end Scoping

/-- What is known about the scopes of a program: its statements with their sites, or none if they
nest too deep, and the complaints and references in the order in which they were found. -/
structure Resolution where
  statements : Option (List (Stmt Site))
  complaints : List ScopeComplaint
  references : List Reference

namespace Resolution

/-- The issues of a program. -/
def issues (resolution : Resolution) : List Issue :=
  resolution.complaints.map ScopeComplaint.toIssue

end Resolution

/-- Work out the scopes of a program, with some room for nodes inside one another. -/
def resolveWithin (room : Nat) (statements : List (Stmt Unit)) : Resolution :=
  match Scoping.each (Scoping.stmt room) statements ScopeState.start with
  | .ok statements state => ⟨some statements, state.complaints.reverse, state.references.reverse⟩
  | .error _ state => ⟨none, state.complaints.reverse, state.references.reverse⟩

end LoxLang
