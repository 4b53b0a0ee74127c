import LoxLang.Parser

/-!
# With and without recovery

A declaration is guarded: a syntax error in it is over when it ends.  What is
guarded is an attempt to read it.  Leave the guards out, and the same parsers stop
at the first syntax error.
-/

namespace LoxLang.Parser

/-- A declaration or a statement, without its guard. -/
def attempt (expression : Parser (Expr Unit)) (nested inner : Parser (Stmt Unit)) :
    Parser (Stmt Unit) := do
  match ← accept [.kwClass, .kwFun, .kwVar] with
  | none => nested
  | some token =>
      match token.kind with
      | .kwClass => classRest inner
      | .kwFun => return .function (← functionRest inner "function")
      | _ => varRest expression

theorem declaration_eq_recovering (expression : Parser (Expr Unit))
    (nested inner : Parser (Stmt Unit)) :
    declaration expression nested inner = recovering (attempt expression nested inner) := rfl

/-- What is done about a syntax error in a declaration. -/
inductive Manner where
  /-- Reading stops. -/
  | strict
  /-- The statement is lost, and reading goes on with the next one. -/
  | recovering

/-- The guard around an attempt. -/
def Manner.guard : Manner → Parser (Stmt Unit) → Parser (Stmt Unit)
  | strict, statement => statement
  | recovering, statement => Parser.recovering statement

mutual

/-- A statement that nests at most `depth` levels deep; there may be declarations inside it. -/
def statementBy (manner : Manner) : (depth : Nat) → Parser (Stmt Unit)
  | 0 => throw .tooDeep
  | depth + 1 =>
      statement (expressionAt depth) (statementBy manner depth) (declarationBy manner depth)

/-- A declaration or statement that nests at most `depth` levels deep. -/
def declarationBy (manner : Manner) : (depth : Nat) → Parser (Stmt Unit)
  | 0 => throw .tooDeep
  | depth + 1 => manner.guard <|
      attempt (expressionAt depth) (statementBy manner depth) (declarationBy manner depth)

end

mutual

/-- With the guards these are the parsers of a program. -/
theorem statementBy_recovering (depth : Nat) : statementBy .recovering depth = statementAt depth := by
  cases depth with
  | zero => rfl
  | succ depth =>
      unfold statementBy statementAt
      rw [statementBy_recovering depth, declarationBy_recovering depth]

theorem declarationBy_recovering (depth : Nat) :
    declarationBy .recovering depth = declarationAt depth := by
  cases depth with
  | zero => rfl
  | succ depth =>
      unfold declarationBy declarationAt
      rw [statementBy_recovering depth, declarationBy_recovering depth,
        declaration_eq_recovering]
      rfl

end

end LoxLang.Parser
