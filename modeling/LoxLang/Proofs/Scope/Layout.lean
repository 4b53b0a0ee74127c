import LoxLang.Proofs.Grammar
import LoxLang.Proofs.Scope.Survey

/-!
# How scopes lie in a program

A program whose scopes were worked out without complaint is laid out well: every
reference with a distance leads to a scope in which the name is defined, every
declaration puts its name where the survey says, and `this` and `super` stand
only where scopes for them are open.  `Expr.Scoped` and `Stmt.Scoped` say this of
trees with sites, in the context in which the pass came to them.
-/

namespace LoxLang

variable {S T : Type}

/-- The name that a declaration declares. -/
def Stmt.declares : Stmt S → Option String
  | .var name _ => some name.lexeme
  | .function decl => some decl.name.lexeme
  | .class name _ _ => some name.lexeme
  | _ => none

namespace Context

/-- The context inside a new scope. -/
def within (context : Context) (number : Nat) (scope : Scope) : Context :=
  { context with scopes := scope :: context.scopes, numbers := number :: context.numbers }

/-- The context after a change of the innermost scope, if there is one. -/
def innermost (context : Context) (update : Scope → Scope) : Context :=
  { context with scopes := context.scopes.modifyHead update }

/-- The context after a name is declared. -/
def declare (context : Context) (name : String) : Context :=
  context.innermost (·.insert name false)

/-- The context after a name is made usable. -/
def define (context : Context) (name : String) : Context :=
  context.innermost (·.insert name true)

/-- The context after a name is declared and made usable. -/
def bring (context : Context) (name : String) : Context :=
  (context.declare name).define name

/-- The context after a statement. -/
def after (context : Context) (s : Stmt S) : Context :=
  match s.declares with
  | none => context
  | some name => context.bring name

theorem function_after (context : Context) (s : Stmt S) :
    (context.after s).function = context.function := by
  unfold after
  split <;> rfl

/-- The context inside a function of this kind. -/
def inFunction (context : Context) (kind : FunctionKind) : Context :=
  { context with function := kind }

/-- The context inside a class of this kind. -/
def inClass (context : Context) (kind : ClassKind) : Context :=
  { context with classKind := kind }

/-- The name is usable in the scope at the distance. -/
def Holds (context : Context) (distance : Nat) (name : String) : Prop :=
  ∃ scope, context.scopes[distance]? = some scope ∧ scope.get? name = some true

/-- The name is declared in the innermost scope, and not usable yet. -/
def Awaits (context : Context) (name : String) : Prop :=
  ∃ scope, context.scopes[0]? = some scope ∧ scope.get? name = some false

/-- The scope at the distance is the first one that has the name. -/
def Finds (context : Context) (distance : Nat) (name : String) : Prop :=
  Scope.distance? context.scopes name = some distance

/-- The innermost scope, if there is one, is known to take the name at some time. -/
def Admits (context : Context) (survey : Survey) (name : String) : Prop :=
  ∀ number ∈ context.numbers.head?, (number, name) ∈ survey.put

/-- The innermost scope, if there is one, does not have the name. -/
def Lacks (context : Context) (name : String) : Prop :=
  ∀ scope ∈ context.scopes.head?, scope.binds name = false

end Context

/-- The scope of parameters. -/
def Scope.ofParams (params : List Token) : Scope :=
  params.foldl (fun scope param => (scope.insert param.lexeme false).insert param.lexeme true)
    Table.empty

/-- The scope that holds `this`, or `super`, and nothing else. -/
def Scope.only (name : String) : Scope := Table.empty.insert name true

mutual

/-- The pass came to the expression in this context, and references in it lead to scopes that have
the name. -/
inductive Expr.Scoped (survey : Survey) (context : Context) : Address → Expr Site → Prop where
  | mk {address : Address} {e : Expr Site} : ⟨address, .expr e.bare, context⟩ ∈ survey.visits →
      Expr.PartsScoped survey context address e → Expr.Scoped survey context address e

/-- The parts of the expression are laid out well. -/
inductive Expr.PartsScoped (survey : Survey) (context : Context) : Address → Expr Site → Prop where
  | literal {address : Address} {value : Literal} :
      Expr.PartsScoped survey context address (.literal value)
  | grouping {address : Address} {inner : Expr Site} :
      Expr.Scoped survey context (address.child 0) inner →
      Expr.PartsScoped survey context address (.grouping inner)
  | unary {address : Address} {op : Token} {operand : Expr Site} :
      Expr.Scoped survey context (address.child 0) operand →
      Expr.PartsScoped survey context address (.unary op operand)
  | binary {address : Address} {left : Expr Site} {op : Token} {right : Expr Site} {layer : Layer} :
      op.kind ∈ layer.valueOperators → Expr.Scoped survey context (address.child 0) left →
      Expr.Scoped survey context (address.child 1) right →
      Expr.PartsScoped survey context address (.binary left op right)
  | logical {address : Address} {left : Expr Site} {op : Token} {right : Expr Site} :
      Expr.Scoped survey context (address.child 0) left →
      Expr.Scoped survey context (address.child 1) right →
      Expr.PartsScoped survey context address (.logical left op right)
  | variable {address : Address} {name : Token} {site : Site} :
      (∀ distance ∈ site, context.Finds distance name.lexeme ∧
        context.Holds distance name.lexeme) →
      Expr.PartsScoped survey context address (.variable name site)
  /-- A variable can be assigned to in its own initializer. -/
  | assign {address : Address} {name : Token} {site : Site} {value : Expr Site} :
      (∀ distance ∈ site, context.Finds distance name.lexeme ∧
        (context.Holds distance name.lexeme ∨ distance = 0 ∧ context.Awaits name.lexeme) ∧
        ∃ number, context.numbers[distance]? = some number ∧
          (number, name.lexeme) ∈ survey.put) →
      name.lexeme ≠ "super" → Expr.Scoped survey context (address.child 0) value →
      Expr.PartsScoped survey context address (.assign name site value)
  | call {address : Address} {callee : Expr Site} {paren : Token} {args : List (Expr Site)} :
      Expr.Scoped survey context (address.child 0) callee →
      (∀ index arg, args[index]? = some arg →
        Expr.Scoped survey context (address.child (index + 1)) arg) →
      Expr.PartsScoped survey context address (.call callee paren args)
  | get {address : Address} {object : Expr Site} {name : Token} :
      Expr.Scoped survey context (address.child 0) object →
      Expr.PartsScoped survey context address (.get object name)
  | set {address : Address} {object : Expr Site} {name : Token} {value : Expr Site} :
      Expr.Scoped survey context (address.child 0) object →
      Expr.Scoped survey context (address.child 1) value →
      Expr.PartsScoped survey context address (.set object name value)
  | this {address : Address} {keyword : Token} {distance : Nat} :
      keyword.lexeme = "this" → context.Holds distance keyword.lexeme →
      Expr.PartsScoped survey context address (.this keyword (some distance))
  /-- The scope of `this` lies directly inside that of `super`. -/
  | super {address : Address} {keyword method : Token} {distance : Nat} :
      keyword.lexeme = "super" → context.Holds (distance + 1) "super" →
      context.Holds distance "this" →
      Expr.PartsScoped survey context address (.super keyword method (some (distance + 1)))

end

mutual

/-- The pass came to the statement in this context, and its parts are laid out well. -/
inductive Stmt.Scoped (survey : Survey) : Context → Address → Stmt Site → Prop where
  | mk {context : Context} {address : Address} {s : Stmt Site} :
      ⟨address, .stmt s.bare, context⟩ ∈ survey.visits →
      Stmt.PartsScoped survey context address s → Stmt.Scoped survey context address s

/-- The parts of the statement are laid out well. -/
inductive Stmt.PartsScoped (survey : Survey) : Context → Address → Stmt Site → Prop where
  | expression {context : Context} {address : Address} {value : Expr Site} :
      value.Scoped survey context (address.child 0) →
      Stmt.PartsScoped survey context address (.expression value)
  | print {context : Context} {address : Address} {value : Expr Site} :
      value.Scoped survey context (address.child 0) →
      Stmt.PartsScoped survey context address (.print value)
  | var {context : Context} {address : Address} {name : Token}
      {initializer : Option (Expr Site)} :
      context.Admits survey name.lexeme → context.Lacks name.lexeme → name.lexeme ≠ "super" →
      (∀ value ∈ initializer,
        value.Scoped survey (context.declare name.lexeme) (address.child 0)) →
      Stmt.PartsScoped survey context address (.var name initializer)
  | block {context : Context} {address : Address} {body : List (Stmt Site)} {number : Nat} :
      Stmt.ListScoped survey (context.within number Table.empty) address 0 body →
      Stmt.PartsScoped survey context address (.block body)
  | conditional {context : Context} {address : Address} {condition : Expr Site}
      {thenBranch : Stmt Site} {elseBranch : Option (Stmt Site)} :
      condition.Scoped survey context (address.child 0) →
      Stmt.Scoped survey context (address.child 1) thenBranch → thenBranch.declares = none →
      (∀ branch ∈ elseBranch, Stmt.Scoped survey context (address.child 2) branch) →
      (∀ branch ∈ elseBranch, branch.declares = none) →
      Stmt.PartsScoped survey context address (.conditional condition thenBranch elseBranch)
  | loop {context : Context} {address : Address} {condition : Expr Site} {body : Stmt Site} :
      condition.Scoped survey context (address.child 0) →
      Stmt.Scoped survey context (address.child 1) body → body.declares = none →
      Stmt.PartsScoped survey context address (.loop condition body)
  | function {context : Context} {address : Address} {decl : FunctionDecl Site} :
      context.Admits survey decl.name.lexeme → context.Lacks decl.name.lexeme →
      decl.name.lexeme ≠ "super" →
      FunctionDecl.Scoped survey (context.bring decl.name.lexeme) address decl →
      Stmt.PartsScoped survey context address (.function decl)
  | return {context : Context} {address : Address} {keyword : Token}
      {value : Option (Expr Site)} : context.function ≠ .none →
      (∀ result ∈ value, result.Scoped survey context (address.child 0)) →
      Stmt.PartsScoped survey context address (.return keyword value)
  | plainClass {context : Context} {address : Address} {name : Token}
      {methods : List (FunctionDecl Site)} {number : Nat} :
      context.Admits survey name.lexeme → context.Lacks name.lexeme → name.lexeme ≠ "super" →
      (number, "this") ∈ survey.put →
      (∀ index method, methods[index]? = some method →
        FunctionDecl.Scoped survey
          (((context.inClass .plain).bring name.lexeme).within number (Scope.only "this"))
          (address.child (index + 1)) method) →
      Stmt.PartsScoped survey context address (.class name none methods)
  /-- The superclass is visited when the name of the class is usable already, but that name is not
  the one that the superclass has. -/
  | derivedClass {context : Context} {address : Address} {name : Token} {parent : Superclass Site}
      {methods : List (FunctionDecl Site)} {outer number : Nat} :
      context.Admits survey name.lexeme → context.Lacks name.lexeme → name.lexeme ≠ "super" →
      ⟨address.child 0, .expr (.variable parent.name ()),
        (context.inClass .derived).bring name.lexeme⟩ ∈ survey.visits →
      (∀ distance ∈ parent.site,
        ((context.inClass .derived).bring name.lexeme).Finds distance parent.name.lexeme ∧
          context.Holds distance parent.name.lexeme) →
      (outer, "super") ∈ survey.put → (number, "this") ∈ survey.put →
      (∀ index method, methods[index]? = some method →
        FunctionDecl.Scoped survey
          ((((context.inClass .derived).bring name.lexeme).within outer
            (Scope.only "super")).within number (Scope.only "this"))
          (address.child (index + 1)) method) →
      Stmt.PartsScoped survey context address (.class name (some parent) methods)

/-- The statements, children from an index on, are laid out well one after the other. -/
inductive Stmt.ListScoped (survey : Survey) :
    Context → Address → Nat → List (Stmt Site) → Prop where
  | nil {context : Context} {address : Address} {index : Nat} :
      Stmt.ListScoped survey context address index []
  | cons {context : Context} {address : Address} {index : Nat} {first : Stmt Site}
      {rest : List (Stmt Site)} : Stmt.Scoped survey context (address.child index) first →
      Stmt.ListScoped survey (context.after first) address (index + 1) rest →
      Stmt.ListScoped survey context address index (first :: rest)

/-- The parameters are put into a scope of their own, and the body is laid out well in it. -/
inductive FunctionDecl.Scoped (survey : Survey) :
    Context → Address → FunctionDecl Site → Prop where
  | mk {context : Context} {address : Address} {name : Token} {params : List Token}
      {body : List (Stmt Site)} {number : Nat} {kind : FunctionKind} :
      (∀ param ∈ params, (number, param.lexeme) ∈ survey.put ∧ param.lexeme ≠ "super") →
      (params.map Token.lexeme).Nodup →
      Stmt.ListScoped survey
        ((context.inFunction kind).within number (Scope.ofParams params)) address 0 body →
      FunctionDecl.Scoped survey context address ⟨name, params, body⟩

end

end LoxLang
