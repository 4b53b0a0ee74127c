import LoxLang.Decimal.Layout
import LoxLang.Tree

/-!
# Prefix notation

A tree is shown as nested lists in parentheses, each with its operator or
keyword first.  Parts that are absent are left out, and lists of statements,
arguments and methods are spliced in.  A tree in which a statement was lost has
no notation.
-/

namespace LoxLang

/-- The text of a literal, as `print` would write its value. -/
def Literal.shown : Literal → String
  | .nil => "nil"
  | .bool true => "true"
  | .bool false => "false"
  | .number value => String.ofList (Layout.printed.number value)
  | .text value => value

namespace Notation

/-- Words between parentheses. -/
def paren (words : List String) : String :=
  "(" ++ String.intercalate " " words ++ ")"

variable {S : Type}

mutual

/-- An expression in prefix notation. -/
def expr : Expr S → String
  | .literal value => value.shown
  | .grouping inner => paren ["group", expr inner]
  | .unary op operand => paren [op.lexeme, expr operand]
  | .binary left op right => paren [op.lexeme, expr left, expr right]
  | .logical left op right => paren [op.lexeme, expr left, expr right]
  | .variable name _ => name.lexeme
  | .assign name _ value => paren ["=", name.lexeme, expr value]
  | .call callee _ args => paren ("call" :: expr callee :: exprs args)
  | .get object name => paren [".", expr object, name.lexeme]
  | .set object name value => paren ["=", expr object, name.lexeme, expr value]
  | .this _ _ => "this"
  | .super _ method _ => paren ["super", method.lexeme]

/-- Each of several expressions. -/
def exprs : List (Expr S) → List String
  | [] => []
  | first :: rest => expr first :: exprs rest

end

/-- An expression that may be absent, as a list of at most one word. -/
def optional : Option (Expr S) → List String
  | none => []
  | some value => [expr value]

mutual

/-- A statement in prefix notation, unless one was lost in it. -/
def stmt : Stmt S → Option String
  | .expression value => some (paren [";", expr value])
  | .print value => some (paren ["print", expr value])
  | .var name initializer => some (paren ("var" :: name.lexeme :: optional initializer))
  | .block body => do
      let body ← stmts body
      return paren ("block" :: body)
  | .conditional condition thenBranch none => do
      let thenText ← stmt thenBranch
      return paren ["if", expr condition, thenText]
  | .conditional condition thenBranch (some elseBranch) => do
      let thenText ← stmt thenBranch
      let elseText ← stmt elseBranch
      return paren ["if", expr condition, thenText, elseText]
  | .loop condition body => do
      let bodyText ← stmt body
      return paren ["while", expr condition, bodyText]
  | .function decl => function decl
  | .return _ value => some (paren ("return" :: optional value))
  | .class name superclass methods => do
      let methodTexts ← functions methods
      let heritage := match superclass with
        | some parent => ["<", parent.name.lexeme]
        | none => []
      return paren ("class" :: name.lexeme :: (heritage ++ methodTexts))
  | .lost => none

/-- Each of several statements. -/
def stmts : List (Stmt S) → Option (List String)
  | [] => some []
  | first :: rest => do
      let text ← stmt first
      let texts ← stmts rest
      return text :: texts

/-- A function or a method in prefix notation. -/
def function : FunctionDecl S → Option String
  | .mk name params body => do
      let body ← stmts body
      let paramList := "(" ++ String.intercalate " " (params.map (·.lexeme)) ++ ")"
      return paren ("fun" :: name.lexeme :: paramList :: body)

/-- Each of several methods. -/
def functions : List (FunctionDecl S) → Option (List String)
  | [] => some []
  | first :: rest => do
      let text ← function first
      let texts ← functions rest
      return text :: texts

end

end Notation

end LoxLang
