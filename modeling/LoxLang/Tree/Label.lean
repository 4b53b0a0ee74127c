import LoxLang.Decimal.Layout
import LoxLang.Text.Quoted
import LoxLang.Tree

/-!
# Labels

Four kinds of nodes have a label that names them in listings of a tree: literals,
references to variables, functions, and classes.  The labels of a tree are
listed from the root, parts in the order in which a node holds them.
-/

namespace LoxLang

/-- The text of a literal in listings: numbers with a point, texts quoted. -/
def Literal.listed : Literal → String
  | .nil => "None"
  | .bool true => "True"
  | .bool false => "False"
  | .number value => String.ofList (Layout.listed.number value)
  | .text value => Text.quoted value

namespace Label

variable {S : Type}

/-- The label of a reference. -/
def reference (name : Token) : String := "<ref:" ++ name.lexeme ++ ">"

mutual

/-- The labels in an expression. -/
def expr : Expr S → List String
  | .literal value => ["<Literal " ++ value.listed ++ ">"]
  | .grouping inner => expr inner
  | .unary _ operand => expr operand
  | .binary left _ right => expr left ++ expr right
  | .logical left _ right => expr left ++ expr right
  | .variable name _ => [reference name]
  | .assign _ _ value => expr value
  | .call callee _ args => expr callee ++ exprs args
  | .get object _ => expr object
  | .set object _ value => expr object ++ expr value
  | .this _ _ => []
  | .super _ _ _ => []

/-- The labels in several expressions. -/
def exprs : List (Expr S) → List String
  | [] => []
  | first :: rest => expr first ++ exprs rest

end

/-- The labels in an expression that may be absent. -/
def optional : Option (Expr S) → List String
  | none => []
  | some value => expr value

mutual

/-- The labels in a statement; a lost one has none. -/
def stmt : Stmt S → List String
  | .expression value => expr value
  | .print value => expr value
  | .var _ initializer => optional initializer
  | .block body => stmts body
  | .conditional condition thenBranch none => expr condition ++ stmt thenBranch
  | .conditional condition thenBranch (some elseBranch) =>
      expr condition ++ stmt thenBranch ++ stmt elseBranch
  | .loop condition body => expr condition ++ stmt body
  | .function decl => function decl
  | .return _ value => optional value
  | .class name superclass methods =>
      let heritage := match superclass with
        | some parent => [reference parent.name]
        | none => []
      ("\x7bclass|" ++ name.lexeme ++ "\x7d") :: (heritage ++ functions methods)
  | .lost => []

/-- The labels in several statements. -/
def stmts : List (Stmt S) → List String
  | [] => []
  | first :: rest => stmt first ++ stmts rest

/-- The labels in a function or a method, its own first. -/
def function : FunctionDecl S → List String
  | .mk name params body =>
      let paramList := String.intercalate ", " (params.map (·.lexeme))
      ("\x7bfun|" ++ name.lexeme ++ "(" ++ paramList ++ ")\x7d") :: stmts body

/-- The labels in several methods. -/
def functions : List (FunctionDecl S) → List String
  | [] => []
  | first :: rest => function first ++ functions rest

end

end Label

end LoxLang
