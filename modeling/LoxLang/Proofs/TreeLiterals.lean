import LoxLang.Tree

/-!
# The literals of trees

Every literal that a tree holds, with its multiplicity.
-/

namespace LoxLang

variable {S : Type}

namespace Expr

mutual

/-- The literals that an expression holds. -/
def literals : Expr S → List Literal
  | .literal value => [value]
  | .grouping inner => literals inner
  | .unary _ operand => literals operand
  | .binary left _ right => literals left ++ literals right
  | .logical left _ right => literals left ++ literals right
  | .variable _ _ => []
  | .assign _ _ value => literals value
  | .call callee _ args => literals callee ++ literalsOfEach args
  | .get object _ => literals object
  | .set object _ value => literals object ++ literals value
  | .this _ _ => []
  | .super _ _ _ => []

/-- The literals that several expressions hold. -/
def literalsOfEach : List (Expr S) → List Literal
  | [] => []
  | first :: rest => literals first ++ literalsOfEach rest

end

theorem literalsOfEach_eq_flatMap (args : List (Expr S)) :
    literalsOfEach args = args.flatMap literals := by
  induction args with
  | nil => simp [literalsOfEach]
  | cons first rest induction => simp [literalsOfEach, induction]

/-- The literals that an expression holds, if it is there. -/
def literalsOfOptional : Option (Expr S) → List Literal
  | none => []
  | some value => value.literals

end Expr

mutual

/-- The literals that a statement holds. -/
def Stmt.literals : Stmt S → List Literal
  | .expression value => value.literals
  | .print value => value.literals
  | .var _ initializer => Expr.literalsOfOptional initializer
  | .block body => Stmt.literalsOfAll body
  | .conditional condition thenBranch none => condition.literals ++ thenBranch.literals
  | .conditional condition thenBranch (some elseBranch) =>
      condition.literals ++ (thenBranch.literals ++ elseBranch.literals)
  | .loop condition body => condition.literals ++ body.literals
  | .function decl => decl.literals
  | .return _ value => Expr.literalsOfOptional value
  | .class _ _ methods => FunctionDecl.literalsOfAll methods
  | .lost => []

/-- The literals that statements hold. -/
def Stmt.literalsOfAll : List (Stmt S) → List Literal
  | [] => []
  | first :: rest => first.literals ++ Stmt.literalsOfAll rest

/-- The literals that a function holds. -/
def FunctionDecl.literals : FunctionDecl S → List Literal
  | .mk _ _ body => Stmt.literalsOfAll body

/-- The literals that methods hold. -/
def FunctionDecl.literalsOfAll : List (FunctionDecl S) → List Literal
  | [] => []
  | first :: rest => first.literals ++ FunctionDecl.literalsOfAll rest

end

theorem Stmt.literalsOfAll_eq_flatMap (body : List (Stmt S)) :
    Stmt.literalsOfAll body = body.flatMap Stmt.literals := by
  induction body with
  | nil => simp [Stmt.literalsOfAll]
  | cons first rest induction => simp [Stmt.literalsOfAll, induction]

theorem FunctionDecl.literalsOfAll_eq_flatMap (methods : List (FunctionDecl S)) :
    FunctionDecl.literalsOfAll methods = methods.flatMap FunctionDecl.literals := by
  induction methods with
  | nil => simp [FunctionDecl.literalsOfAll]
  | cons first rest induction => simp [FunctionDecl.literalsOfAll, induction]

end LoxLang
