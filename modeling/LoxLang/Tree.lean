import LoxLang.Token

/-!
# Syntax trees

Expressions and statements.  The four kinds of expressions that name a variable,
`this` or `super` carry a *site*: what is known of the scope in which the name is
bound.  A tree fresh from the parser knows nothing (`Unit`); after scopes have
been worked out a site holds the distance to that scope (`Option Nat`).

There is no loop with `for`: it is written as the block and the `while` loop that
it stands for.  A statement in which the parser got lost is kept as `Stmt.lost`.
-/

namespace LoxLang

/-- An expression whose sites hold values of type `S`. -/
inductive Expr (S : Type) where
  | literal (value : Literal)
  | grouping (inner : Expr S)
  | unary (op : Token) (operand : Expr S)
  | binary (left : Expr S) (op : Token) (right : Expr S)
  | logical (left : Expr S) (op : Token) (right : Expr S)
  | variable (name : Token) (site : S)
  | assign (name : Token) (site : S) (value : Expr S)
  /-- The closing parenthesis stands for the call where errors are told. -/
  | call (callee : Expr S) (paren : Token) (args : List (Expr S))
  | get (object : Expr S) (name : Token)
  | set (object : Expr S) (name : Token) (value : Expr S)
  | this (keyword : Token) (site : S)
  | super (keyword : Token) (method : Token) (site : S)
deriving Repr, Inhabited

/-- A reference to a superclass. -/
structure Superclass (S : Type) where
  name : Token
  site : S
deriving Repr, Inhabited

mutual

/-- A statement whose sites hold values of type `S`. -/
inductive Stmt (S : Type) where
  | expression (expr : Expr S)
  | print (expr : Expr S)
  | var (name : Token) (initializer : Option (Expr S))
  | block (body : List (Stmt S))
  | conditional (condition : Expr S) (thenBranch : Stmt S) (elseBranch : Option (Stmt S))
  | loop (condition : Expr S) (body : Stmt S)
  | function (decl : FunctionDecl S)
  | return (keyword : Token) (value : Option (Expr S))
  | class (name : Token) (superclass : Option (Superclass S)) (methods : List (FunctionDecl S))
  | lost

/-- The declaration of a function or a method. -/
inductive FunctionDecl (S : Type) where
  | mk (name : Token) (params : List Token) (body : List (Stmt S))

end

instance {S : Type} : Inhabited (Stmt S) := ⟨.lost⟩

namespace Stmt

variable {S : Type}

/-- The body of a `for` loop with the increment that runs after it, if there is one. -/
def repeated (increment : Option (Expr S)) (body : Stmt S) : Stmt S :=
  match increment with
  | some step => block [body, expression step]
  | none => body

/-- The statement that a `for` loop stands for: a `while` loop, in a block after the initializer if
there is one.  Without a condition the loop goes on for ever. -/
def forLoop (initializer : Option (Stmt S)) (condition increment : Option (Expr S))
    (body : Stmt S) : Stmt S :=
  let whileLoop := loop (condition.getD (.literal (.bool true))) (repeated increment body)
  match initializer with
  | some first => block [first, whileLoop]
  | none => whileLoop

end Stmt

namespace FunctionDecl

variable {S : Type}

/-- The declared name. -/
def name : FunctionDecl S → Token
  | mk name _ _ => name

/-- The names of the parameters. -/
def params : FunctionDecl S → List Token
  | mk _ params _ => params

/-- The statements of the body. -/
def body : FunctionDecl S → List (Stmt S)
  | mk _ _ body => body

end FunctionDecl

end LoxLang
