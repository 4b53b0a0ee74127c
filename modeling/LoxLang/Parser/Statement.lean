import LoxLang.Parser.Expression

/-!
# Reading statements

A statement that begins with a keyword is known by it.  Declarations of classes,
functions and variables stand at the top level and in blocks, but not as the
body of a branch or a loop.  A loop with `for` is read as the block and the
`while` loop that it stands for.
-/

namespace LoxLang.Parser

/-- The declarations and statements of a block, up to its closing brace. -/
def blockRest (declaration : Parser (Stmt Unit)) : Parser (List (Stmt Unit)) := do
  let body ← many (·.kind ≠ .rightBrace) declaration (← remaining)
  let _ ← expect .rightBrace "'\x7d' after block"
  return body

/-- A function or a method, from its name on. -/
def functionRest (declaration : Parser (Stmt Unit)) (noun : String) :
    Parser (FunctionDecl Unit) := do
  let name ← expect .identifier (noun ++ " name")
  let _ ← expect .leftParen ("'(' after " ++ noun ++ " name")
  let params ← items (expect .identifier "parameter name") .tooManyParameters
  let _ ← expect .rightParen "')' after parameters"
  let _ ← expect .leftBrace ("'\x7b' before " ++ noun ++ " body")
  let body ← blockRest declaration
  return ⟨name, params, body⟩

/-- The name of a superclass after a less-than sign, if there is one. -/
def superclass? : Parser (Option (Superclass Unit)) := do
  match ← accept [.less] with
  | none => return none
  | some _ =>
      let name ← expect .identifier "superclass name"
      return some ⟨name, ()⟩

/-- A class, after its keyword. -/
def classRest (declaration : Parser (Stmt Unit)) : Parser (Stmt Unit) := do
  let name ← expect .identifier "class name"
  let superclass ← superclass?
  let _ ← expect .leftBrace "'\x7b' before class body"
  let methods ← many (·.kind ≠ .rightBrace) (functionRest declaration "method") (← remaining)
  let _ ← expect .rightBrace "'\x7d' after class body"
  return .class name superclass methods

/-- The value after an equals sign, if there is one. -/
def initializer? (expression : Parser (Expr Unit)) : Parser (Option (Expr Unit)) := do
  match ← accept [.equal] with
  | none => return none
  | some _ => return some (← expression)

/-- A variable, after its keyword. -/
def varRest (expression : Parser (Expr Unit)) : Parser (Stmt Unit) := do
  let name ← expect .identifier "variable name"
  let initializer ← initializer? expression
  let _ ← expect .semicolon "';' after variable declaration"
  return .var name initializer

/-- An expression and its semicolon. -/
def expressionStatement (expression : Parser (Expr Unit)) : Parser (Stmt Unit) := do
  let expr ← expression
  let _ ← expect .semicolon "';' after expression"
  return .expression expr

/-- An expression, unless a token of this kind is ahead. -/
def expressionUnless (kind : TokenKind) (expression : Parser (Expr Unit)) :
    Parser (Option (Expr Unit)) := do
  if ← isAhead kind then return none else return some (← expression)

/-- What a `for` loop runs first, if anything. -/
def forInitializer (expression : Parser (Expr Unit)) : Parser (Option (Stmt Unit)) := do
  match ← accept [.semicolon, .kwVar] with
  | none => return some (← expressionStatement expression)
  | some token =>
      if token.kind = .kwVar then return some (← varRest expression) else return none

/-- A `for` loop, after its keyword. -/
def forRest (expression : Parser (Expr Unit)) (statement : Parser (Stmt Unit)) :
    Parser (Stmt Unit) := do
  let _ ← expect .leftParen "'(' after 'for'"
  let initializer ← forInitializer expression
  let condition ← expressionUnless .semicolon expression
  let _ ← expect .semicolon "';' after loop condition"
  let increment ← expressionUnless .rightParen expression
  let _ ← expect .rightParen "')' after for clauses"
  let body ← statement
  return .forLoop initializer condition increment body

/-- A branch after `else`, which belongs to the nearest `if` before it. -/
def elseBranch? (statement : Parser (Stmt Unit)) : Parser (Option (Stmt Unit)) := do
  match ← accept [.kwElse] with
  | none => return none
  | some _ => return some (← statement)

/-- A conditional, after its keyword. -/
def ifRest (expression : Parser (Expr Unit)) (statement : Parser (Stmt Unit)) :
    Parser (Stmt Unit) := do
  let _ ← expect .leftParen "'(' after 'if'"
  let condition ← expression
  let _ ← expect .rightParen "')' after if condition"
  let thenBranch ← statement
  let elseBranch ← elseBranch? statement
  return .conditional condition thenBranch elseBranch

/-- A `print` statement, after its keyword. -/
def printRest (expression : Parser (Expr Unit)) : Parser (Stmt Unit) := do
  let value ← expression
  let _ ← expect .semicolon "';' after value"
  return .print value

/-- A `return` statement, after its keyword. -/
def returnRest (keyword : Token) (expression : Parser (Expr Unit)) : Parser (Stmt Unit) := do
  let value ← expressionUnless .semicolon expression
  let _ ← expect .semicolon "';' after return value"
  return .return keyword value

/-- A `while` loop, after its keyword. -/
def whileRest (expression : Parser (Expr Unit)) (statement : Parser (Stmt Unit)) :
    Parser (Stmt Unit) := do
  let _ ← expect .leftParen "'(' after 'while'"
  let condition ← expression
  let _ ← expect .rightParen "')' after condition"
  let body ← statement
  return .loop condition body

/-- A statement that is no declaration. -/
def statement (expression : Parser (Expr Unit)) (nested declaration : Parser (Stmt Unit)) :
    Parser (Stmt Unit) := do
  match ← accept [.kwFor, .kwIf, .kwPrint, .kwReturn, .kwWhile, .leftBrace] with
  | none => expressionStatement expression
  | some token =>
      match token.kind with
      | .kwFor => forRest expression nested
      | .kwIf => ifRest expression nested
      | .kwPrint => printRest expression
      | .kwReturn => returnRest token expression
      | .kwWhile => whileRest expression nested
      | _ => return .block (← blockRest declaration)

/-- A declaration or a statement.  Whatever is wrong with it is over when it ends. -/
def declaration (expression : Parser (Expr Unit)) (nested inner : Parser (Stmt Unit)) :
    Parser (Stmt Unit) :=
  recovering do
    match ← accept [.kwClass, .kwFun, .kwVar] with
    | none => nested
    | some token =>
        match token.kind with
        | .kwClass => classRest inner
        | .kwFun => return .function (← functionRest inner "function")
        | _ => varRest expression

mutual

/-- A statement that nests at most `depth` levels deep. -/
def statementAt : (depth : Nat) → Parser (Stmt Unit)
  | 0 => throw .tooDeep
  | depth + 1 => statement (expressionAt depth) (statementAt depth) (declarationAt depth)

/-- A declaration or statement that nests at most `depth` levels deep. -/
def declarationAt : (depth : Nat) → Parser (Stmt Unit)
  | 0 => throw .tooDeep
  | depth + 1 => declaration (expressionAt depth) (statementAt depth) (declarationAt depth)

end

/-- All statements up to the end of the text. -/
def programAt (depth : Nat) : Parser (List (Stmt Unit)) := do
  many (fun _ => true) (declarationAt depth) (← remaining)

end LoxLang.Parser
