import LoxLang.Tree

/-!
# Writing trees out

A tree written out in source order is a list of spellings: what its tokens say,
apart from where they stand.  Only identifiers say more than their kind and their
literal, because two spellings of one number mean the same.
-/

namespace LoxLang

/-- What a token says. -/
structure Spelling where
  kind : TokenKind
  name : Option String
  literal : Option Literal
deriving DecidableEq, Repr

namespace Spelling

/-- The spelling of a token of a kind that says it all. -/
def mark (kind : TokenKind) : Spelling := ⟨kind, none, none⟩

/-- The spelling of an identifier. -/
def identifier (name : String) : Spelling := ⟨.identifier, some name, none⟩

/-- The spelling of a literal. -/
def ofLiteral : Literal → Spelling
  | .nil => mark .kwNil
  | .bool true => mark .kwTrue
  | .bool false => mark .kwFalse
  | .number value => ⟨.number, none, some (.number value)⟩
  | .text value => ⟨.string, none, some (.text value)⟩

end Spelling

/-- What the token says. -/
def Token.spelling (token : Token) : Spelling where
  kind := token.kind
  name := if token.kind = .identifier then some token.lexeme else none
  literal := token.literal?

/-- The kinds whose tokens say no more than their kind. -/
def TokenKind.saysAll : TokenKind → Bool
  | identifier | string | number => false
  | _ => true

namespace Token

theorem spelling_of_saysAll {token : Token} (saysAll : token.kind.saysAll = true) :
    token.spelling = .mark token.kind := by
  unfold spelling literal? Spelling.mark
  cases kind : token.kind <;> simp_all [TokenKind.saysAll]

theorem spelling_of_kind {token : Token} {kind : TokenKind} (same : token.kind = kind)
    (saysAll : kind.saysAll = true) : token.spelling = .mark kind := by
  subst same
  exact spelling_of_saysAll saysAll

theorem spelling_of_identifier {token : Token} (identifier : token.kind = .identifier) :
    token.spelling = .identifier token.lexeme := by
  simp [spelling, literal?, Spelling.identifier, identifier]

end Token

/-- Items with commas between them. -/
def Spelling.separated : List (List Spelling) → List Spelling
  | [] => []
  | [item] => item
  | item :: rest => item ++ mark .comma :: separated rest

theorem Spelling.separated_cons (item : List Spelling) (others : List (List Spelling)) :
    separated (item :: others) = item ++ others.flatMap (mark .comma :: ·) := by
  induction others generalizing item with
  | nil => simp [separated]
  | cons next others induction => simp [separated, induction]

variable {S : Type}

namespace Expr

mutual

/-- The expression in source order. -/
def written : Expr S → List Spelling
  | .literal value => [.ofLiteral value]
  | .grouping inner => .mark .leftParen :: written inner ++ [.mark .rightParen]
  | .unary op operand => .mark op.kind :: written operand
  | .binary left op right => written left ++ .mark op.kind :: written right
  | .logical left op right => written left ++ .mark op.kind :: written right
  | .variable name _ => [.identifier name.lexeme]
  | .assign name _ value => .identifier name.lexeme :: .mark .equal :: written value
  | .call callee _ args =>
      written callee ++ .mark .leftParen ::
        (Spelling.separated (writtenEach args) ++ [.mark .rightParen])
  | .get object name => written object ++ [.mark .dot, .identifier name.lexeme]
  | .set object name value =>
      written object ++ .mark .dot :: .identifier name.lexeme :: .mark .equal :: written value
  | .this _ _ => [.mark .kwThis]
  | .super _ method _ => [.mark .kwSuper, .mark .dot, .identifier method.lexeme]

/-- Each of several expressions in source order. -/
def writtenEach : List (Expr S) → List (List Spelling)
  | [] => []
  | first :: rest => written first :: writtenEach rest

end

theorem writtenEach_eq_map (args : List (Expr S)) : writtenEach args = args.map written := by
  induction args with
  | nil => simp [writtenEach]
  | cons first rest induction => simp [writtenEach, induction]

end Expr

/-- An equals sign and the value after it, if there is one. -/
def Expr.writtenInitializer : Option (Expr S) → List Spelling
  | none => []
  | some value => .mark .equal :: value.written

/-- An expression that may be absent, in source order. -/
def Expr.writtenOptional : Option (Expr S) → List Spelling
  | none => []
  | some value => value.written

/-- A less-than sign and the name of the superclass, if there is one. -/
def Superclass.written : Option (Superclass S) → List Spelling
  | none => []
  | some parent => [.mark .less, .identifier parent.name.lexeme]

mutual

/-- The statement in source order. -/
def Stmt.written : Stmt S → List Spelling
  | .expression value => value.written ++ [.mark .semicolon]
  | .print value => .mark .kwPrint :: value.written ++ [.mark .semicolon]
  | .var name initializer =>
      .mark .kwVar :: .identifier name.lexeme ::
        (Expr.writtenInitializer initializer ++ [.mark .semicolon])
  | .block body => .mark .leftBrace :: (Stmt.writtenAll body ++ [.mark .rightBrace])
  | .conditional condition thenBranch none =>
      .mark .kwIf :: .mark .leftParen ::
        (condition.written ++ .mark .rightParen :: thenBranch.written)
  | .conditional condition thenBranch (some elseBranch) =>
      .mark .kwIf :: .mark .leftParen ::
        (condition.written ++ .mark .rightParen ::
          (thenBranch.written ++ .mark .kwElse :: elseBranch.written))
  | .loop condition body =>
      .mark .kwWhile :: .mark .leftParen ::
        (condition.written ++ .mark .rightParen :: body.written)
  | .function decl => .mark .kwFun :: decl.written
  | .return _ value => .mark .kwReturn :: (Expr.writtenOptional value ++ [.mark .semicolon])
  | .class name superclass methods =>
      .mark .kwClass :: .identifier name.lexeme ::
        (Superclass.written superclass ++ .mark .leftBrace ::
          (FunctionDecl.writtenAll methods ++ [.mark .rightBrace]))
  | .lost => []

/-- Statements in source order. -/
def Stmt.writtenAll : List (Stmt S) → List Spelling
  | [] => []
  | first :: rest => first.written ++ Stmt.writtenAll rest

/-- The function in source order, from its name on. -/
def FunctionDecl.written : FunctionDecl S → List Spelling
  | .mk name params body =>
      .identifier name.lexeme :: .mark .leftParen ::
        (Spelling.separated (params.map fun param => [.identifier param.lexeme]) ++
          .mark .rightParen :: .mark .leftBrace ::
            (Stmt.writtenAll body ++ [.mark .rightBrace]))

/-- Methods in source order. -/
def FunctionDecl.writtenAll : List (FunctionDecl S) → List Spelling
  | [] => []
  | first :: rest => first.written ++ FunctionDecl.writtenAll rest

end

theorem Stmt.writtenAll_eq_flatMap (body : List (Stmt S)) :
    Stmt.writtenAll body = body.flatMap Stmt.written := by
  induction body with
  | nil => simp [Stmt.writtenAll]
  | cons first rest induction => simp [Stmt.writtenAll, induction]

theorem FunctionDecl.writtenAll_eq_flatMap (methods : List (FunctionDecl S)) :
    FunctionDecl.writtenAll methods = methods.flatMap FunctionDecl.written := by
  induction methods with
  | nil => simp [FunctionDecl.writtenAll]
  | cons first rest induction => simp [FunctionDecl.writtenAll, induction]

end LoxLang
