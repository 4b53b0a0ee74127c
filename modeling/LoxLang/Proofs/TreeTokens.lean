import LoxLang.Proofs.TreeMap

/-!
# The tokens of trees

Every token that a tree holds, with its multiplicity.  Commas, semicolons and
most keywords and parentheses leave no token in a tree.
-/

namespace LoxLang

variable {S : Type}

namespace Expr

mutual

/-- The tokens that an expression holds. -/
def tokens : Expr S → List Token
  | .literal _ => []
  | .grouping inner => tokens inner
  | .unary op operand => op :: tokens operand
  | .binary left op right => tokens left ++ op :: tokens right
  | .logical left op right => tokens left ++ op :: tokens right
  | .variable name _ => [name]
  | .assign name _ value => name :: tokens value
  | .call callee paren args => tokens callee ++ (tokensOfEach args ++ [paren])
  | .get object name => tokens object ++ [name]
  | .set object name value => tokens object ++ name :: tokens value
  | .this keyword _ => [keyword]
  | .super keyword method _ => [keyword, method]

/-- The tokens that several expressions hold. -/
def tokensOfEach : List (Expr S) → List Token
  | [] => []
  | first :: rest => tokens first ++ tokensOfEach rest

end

theorem tokensOfEach_eq_flatMap (args : List (Expr S)) :
    tokensOfEach args = args.flatMap tokens := by
  induction args with
  | nil => simp [tokensOfEach]
  | cons first rest induction => simp [tokensOfEach, induction]

/-- The tokens that an expression holds, if it is there. -/
def tokensOfOptional : Option (Expr S) → List Token
  | none => []
  | some value => value.tokens

end Expr

/-- The token that a superclass holds, if there is one. -/
def Superclass.tokens : Option (Superclass S) → List Token
  | none => []
  | some parent => [parent.name]

mutual

/-- The tokens that a statement holds. -/
def Stmt.tokens : Stmt S → List Token
  | .expression value => value.tokens
  | .print value => value.tokens
  | .var name initializer => name :: Expr.tokensOfOptional initializer
  | .block body => Stmt.tokensOfAll body
  | .conditional condition thenBranch none => condition.tokens ++ thenBranch.tokens
  | .conditional condition thenBranch (some elseBranch) =>
      condition.tokens ++ (thenBranch.tokens ++ elseBranch.tokens)
  | .loop condition body => condition.tokens ++ body.tokens
  | .function decl => decl.tokens
  | .return keyword value => keyword :: Expr.tokensOfOptional value
  | .class name superclass methods =>
      name :: (Superclass.tokens superclass ++ FunctionDecl.tokensOfAll methods)
  | .lost => []

/-- The tokens that statements hold. -/
def Stmt.tokensOfAll : List (Stmt S) → List Token
  | [] => []
  | first :: rest => first.tokens ++ Stmt.tokensOfAll rest

/-- The tokens that a function holds. -/
def FunctionDecl.tokens : FunctionDecl S → List Token
  | .mk name params body => name :: (params ++ Stmt.tokensOfAll body)

/-- The tokens that methods hold. -/
def FunctionDecl.tokensOfAll : List (FunctionDecl S) → List Token
  | [] => []
  | first :: rest => first.tokens ++ FunctionDecl.tokensOfAll rest

end

theorem Stmt.tokensOfAll_eq_flatMap (body : List (Stmt S)) :
    Stmt.tokensOfAll body = body.flatMap Stmt.tokens := by
  induction body with
  | nil => simp [Stmt.tokensOfAll]
  | cons first rest induction => simp [Stmt.tokensOfAll, induction]

theorem FunctionDecl.tokensOfAll_eq_flatMap (methods : List (FunctionDecl S)) :
    FunctionDecl.tokensOfAll methods = methods.flatMap FunctionDecl.tokens := by
  induction methods with
  | nil => simp [FunctionDecl.tokensOfAll]
  | cons first rest induction => simp [FunctionDecl.tokensOfAll, induction]

section Mapping

variable {T : Type} (onToken : Token → Token) (onSite : S → T)

mutual

theorem Expr.tokens_map : ∀ e : Expr S, (e.map onToken onSite).tokens = e.tokens.map onToken
  | .literal _ => rfl
  | .grouping inner => by simp [Expr.map, Expr.tokens, Expr.tokens_map inner]
  | .unary _ operand => by simp [Expr.map, Expr.tokens, Expr.tokens_map operand]
  | .binary left _ right => by
      simp [Expr.map, Expr.tokens, Expr.tokens_map left, Expr.tokens_map right]
  | .logical left _ right => by
      simp [Expr.map, Expr.tokens, Expr.tokens_map left, Expr.tokens_map right]
  | .variable _ _ => rfl
  | .assign _ _ value => by simp [Expr.map, Expr.tokens, Expr.tokens_map value]
  | .call callee _ args => by
      simp [Expr.map, Expr.tokens, Expr.tokens_map callee, Expr.tokensOfEach_map args]
  | .get object _ => by simp [Expr.map, Expr.tokens, Expr.tokens_map object]
  | .set object _ value => by
      simp [Expr.map, Expr.tokens, Expr.tokens_map object, Expr.tokens_map value]
  | .this _ _ => rfl
  | .super _ _ _ => rfl

theorem Expr.tokensOfEach_map : ∀ args : List (Expr S),
    Expr.tokensOfEach (Expr.mapEach onToken onSite args) = (Expr.tokensOfEach args).map onToken
  | [] => rfl
  | first :: rest => by
      simp [Expr.mapEach, Expr.tokensOfEach, Expr.tokens_map first, Expr.tokensOfEach_map rest]

end

theorem Expr.tokensOfOptional_map (value : Option (Expr S)) :
    Expr.tokensOfOptional (value.map (Expr.map onToken onSite)) =
      (Expr.tokensOfOptional value).map onToken := by
  cases value with
  | none => rfl
  | some value => exact value.tokens_map onToken onSite

theorem Superclass.tokens_map (parent : Option (Superclass S)) :
    Superclass.tokens (parent.map (Superclass.map onToken onSite)) =
      (Superclass.tokens parent).map onToken := by
  cases parent <;> rfl

mutual

theorem Stmt.tokens_map : ∀ s : Stmt S, (s.map onToken onSite).tokens = s.tokens.map onToken
  | .expression value => value.tokens_map onToken onSite
  | .print value => value.tokens_map onToken onSite
  | .var _ initializer => by simp [Stmt.map, Stmt.tokens, Expr.tokensOfOptional_map]
  | .block body => Stmt.tokensOfAll_map body
  | .conditional condition thenBranch none => by
      simp [Stmt.map, Stmt.tokens, Expr.tokens_map, Stmt.tokens_map thenBranch]
  | .conditional condition thenBranch (some elseBranch) => by
      simp [Stmt.map, Stmt.tokens, Expr.tokens_map, Stmt.tokens_map thenBranch,
        Stmt.tokens_map elseBranch]
  | .loop condition body => by simp [Stmt.map, Stmt.tokens, Expr.tokens_map, Stmt.tokens_map body]
  | .function decl => FunctionDecl.tokens_map decl
  | .return _ value => by simp [Stmt.map, Stmt.tokens, Expr.tokensOfOptional_map]
  | .class _ parent methods => by
      simp [Stmt.map, Stmt.tokens, Superclass.tokens_map, FunctionDecl.tokensOfAll_map methods]
  | .lost => rfl

theorem Stmt.tokensOfAll_map : ∀ body : List (Stmt S),
    Stmt.tokensOfAll (Stmt.mapAll onToken onSite body) = (Stmt.tokensOfAll body).map onToken
  | [] => rfl
  | first :: rest => by
      simp [Stmt.mapAll, Stmt.tokensOfAll, Stmt.tokens_map first, Stmt.tokensOfAll_map rest]

theorem FunctionDecl.tokens_map : ∀ decl : FunctionDecl S,
    (decl.map onToken onSite).tokens = decl.tokens.map onToken
  | .mk _ _ body => by simp [FunctionDecl.map, FunctionDecl.tokens, Stmt.tokensOfAll_map body]

theorem FunctionDecl.tokensOfAll_map : ∀ methods : List (FunctionDecl S),
    FunctionDecl.tokensOfAll (FunctionDecl.mapAll onToken onSite methods) =
      (FunctionDecl.tokensOfAll methods).map onToken
  | [] => rfl
  | first :: rest => by
      simp [FunctionDecl.mapAll, FunctionDecl.tokensOfAll, FunctionDecl.tokens_map first,
        FunctionDecl.tokensOfAll_map rest]

end

end Mapping

end LoxLang
