import LoxLang.Parser.Cursor

/-!
# The grammar of trees

The layers of the grammar are ordered from the loosest to the tightest; a tree of
a tighter layer may stand wherever one of a looser layer is wanted.  The
operators of six layers associate to the left: their left operand is of the same
layer, their right operand of the next one.

Statements stand in one of two positions.  Declarations are allowed in a list of
statements, but not as the branch of a conditional or the body of a loop.
-/

namespace LoxLang

/-- The layers of expressions, the loosest first. -/
inductive Layer where
  | assignment | disjunction | conjunction | equality | comparison | sum | product
  | prefixed | call | primary
deriving DecidableEq, Repr

namespace Layer

/-- The next tighter layer. -/
def tighter : Layer → Layer
  | assignment => disjunction
  | disjunction => conjunction
  | conjunction => equality
  | equality => comparison
  | comparison => sum
  | sum => product
  | product => prefixed
  | prefixed => call
  | call => primary
  | primary => primary

/-- The operators of a layer that join two values. -/
def valueOperators : Layer → List TokenKind
  | equality => [.bangEqual, .equalEqual]
  | comparison => [.greater, .greaterEqual, .less, .lessEqual]
  | sum => [.minus, .plus]
  | product => [.slash, .star]
  | _ => []

/-- The operators of a layer that may leave their right operand unevaluated. -/
def logicalOperators : Layer → List TokenKind
  | disjunction => [.kwOr]
  | conjunction => [.kwAnd]
  | _ => []

end Layer

variable {S : Type}

/-- The expression stands in a layer of the grammar, and so does every part of it. -/
inductive Expr.InLayer : Layer → Expr S → Prop where
  | tighter {layer : Layer} {e : Expr S} : InLayer layer.tighter e → InLayer layer e
  | assign {name : Token} {site : S} {value : Expr S} : name.kind = .identifier →
      InLayer .assignment value → InLayer .assignment (.assign name site value)
  | set {object : Expr S} {name : Token} {value : Expr S} : name.kind = .identifier →
      InLayer .call object → InLayer .assignment value →
      InLayer .assignment (.set object name value)
  | logical {layer : Layer} {left : Expr S} {op : Token} {right : Expr S} :
      op.kind ∈ layer.logicalOperators → InLayer layer left → InLayer layer.tighter right →
      InLayer layer (.logical left op right)
  | binary {layer : Layer} {left : Expr S} {op : Token} {right : Expr S} :
      op.kind ∈ layer.valueOperators → InLayer layer left → InLayer layer.tighter right →
      InLayer layer (.binary left op right)
  | unary {op : Token} {operand : Expr S} : op.kind ∈ [TokenKind.bang, .minus] →
      InLayer .prefixed operand → InLayer .prefixed (.unary op operand)
  | call {callee : Expr S} {paren : Token} {args : List (Expr S)} : paren.kind = .rightParen →
      InLayer .call callee → (∀ arg ∈ args, InLayer .assignment arg) →
      args.length ≤ itemLimit → InLayer .call (.call callee paren args)
  | get {object : Expr S} {name : Token} : name.kind = .identifier → InLayer .call object →
      InLayer .call (.get object name)
  | grouping {inner : Expr S} : InLayer .assignment inner → InLayer .primary (.grouping inner)
  | literal {value : Literal} : InLayer .primary (.literal value)
  | variable {name : Token} {site : S} : name.kind = .identifier →
      InLayer .primary (.variable name site)
  | this {keyword : Token} {site : S} : keyword.kind = .kwThis →
      InLayer .primary (.this keyword site)
  | super {keyword method : Token} {site : S} : keyword.kind = .kwSuper →
      method.kind = .identifier → InLayer .primary (.super keyword method site)

namespace Expr.InLayer

/-- What stands by itself stands in every layer. -/
theorem primary {layer : Layer} {e : Expr S} (inLayer : InLayer .primary e) : InLayer layer e := by
  cases layer <;> repeat first
    | exact inLayer
    | refine tighter ?_

theorem variable_kind {layer : Layer} {name : Token} {site : S}
    (inLayer : InLayer layer (.variable name site)) : name.kind = .identifier := by
  generalize same : Expr.variable name site = e at inLayer
  induction inLayer with
  | tighter _ induction => exact induction same
  | «variable» isName =>
      cases same
      exact isName
  | _ => cases same

theorem get_parts {layer : Layer} {object : Expr S} {name : Token}
    (inLayer : InLayer layer (.get object name)) :
    name.kind = .identifier ∧ object.InLayer .call := by
  generalize same : Expr.get object name = e at inLayer
  induction inLayer with
  | tighter _ induction => exact induction same
  | get isName objectLayer =>
      cases same
      exact ⟨isName, objectLayer⟩
  | _ => cases same

end Expr.InLayer

/-- The expression obeys the grammar. -/
abbrev Expr.Grammatical (e : Expr S) : Prop := e.InLayer .assignment

/-- Whether a statement ends with a conditional that has no `else`, which one that follows would
belong to. -/
def Stmt.endsOpen : Stmt S → Bool
  | .conditional _ _ none => true
  | .conditional _ _ (some elseBranch) => elseBranch.endsOpen
  | .loop _ body => body.endsOpen
  | _ => false

/-- Where a statement stands. -/
inductive Position where
  /-- In a list of statements, where declarations are allowed. -/
  | list
  /-- As the branch of a conditional or as the body of a loop. -/
  | branch
deriving DecidableEq, Repr

/-- The statement obeys the grammar in a position, and so does every part of it. -/
inductive Stmt.Grammatical : Position → Stmt S → Prop where
  | expression {position : Position} {value : Expr S} : value.Grammatical →
      Grammatical position (.expression value)
  | print {position : Position} {value : Expr S} : value.Grammatical →
      Grammatical position (.print value)
  | var {name : Token} {initializer : Option (Expr S)} : name.kind = .identifier →
      (∀ value ∈ initializer, value.Grammatical) → Grammatical .list (.var name initializer)
  | block {position : Position} {body : List (Stmt S)} :
      (∀ inner ∈ body, Grammatical .list inner) → Grammatical position (.block body)
  /-- An `else` belongs to the nearest conditional that is still open. -/
  | conditional {position : Position} {condition : Expr S} {thenBranch : Stmt S}
      {elseBranch : Option (Stmt S)} : condition.Grammatical → Grammatical .branch thenBranch →
      (∀ branch ∈ elseBranch, Grammatical .branch branch) →
      (elseBranch.isSome → thenBranch.endsOpen = false) →
      Grammatical position (.conditional condition thenBranch elseBranch)
  | loop {position : Position} {condition : Expr S} {body : Stmt S} : condition.Grammatical →
      Grammatical .branch body → Grammatical position (.loop condition body)
  | function {name : Token} {params : List Token} {body : List (Stmt S)} :
      name.kind = .identifier → (∀ param ∈ params, param.kind = .identifier) →
      params.length ≤ itemLimit → (∀ inner ∈ body, Grammatical .list inner) →
      Grammatical .list (.function ⟨name, params, body⟩)
  | return {position : Position} {keyword : Token} {value : Option (Expr S)} :
      keyword.kind = .kwReturn → (∀ result ∈ value, result.Grammatical) →
      Grammatical position (.return keyword value)
  | class {name : Token} {superclass : Option (Superclass S)} {methods : List (FunctionDecl S)} :
      name.kind = .identifier → (∀ parent ∈ superclass, parent.name.kind = .identifier) →
      (∀ method ∈ methods, Grammatical .list (.function method)) →
      Grammatical .list (.class name superclass methods)

mutual

/-- Whether no statement was lost in a statement. -/
def Stmt.isWhole : Stmt S → Bool
  | .block body => Stmt.areWhole body
  | .conditional _ thenBranch none => thenBranch.isWhole
  | .conditional _ thenBranch (some elseBranch) => thenBranch.isWhole && elseBranch.isWhole
  | .loop _ body => body.isWhole
  | .function decl => decl.isWhole
  | .class _ _ methods => FunctionDecl.areWhole methods
  | .lost => false
  | _ => true

/-- Whether no statement was lost in any of several statements. -/
def Stmt.areWhole : List (Stmt S) → Bool
  | [] => true
  | first :: rest => first.isWhole && Stmt.areWhole rest

/-- Whether no statement was lost in a function. -/
def FunctionDecl.isWhole : FunctionDecl S → Bool
  | .mk _ _ body => Stmt.areWhole body

/-- Whether no statement was lost in any of several methods. -/
def FunctionDecl.areWhole : List (FunctionDecl S) → Bool
  | [] => true
  | first :: rest => first.isWhole && FunctionDecl.areWhole rest

end

theorem Stmt.areWhole_eq_all (body : List (Stmt S)) :
    Stmt.areWhole body = body.all Stmt.isWhole := by
  induction body with
  | nil => simp [Stmt.areWhole]
  | cons first rest induction => simp [Stmt.areWhole, induction]

theorem FunctionDecl.areWhole_eq_all (methods : List (FunctionDecl S)) :
    FunctionDecl.areWhole methods = methods.all FunctionDecl.isWhole := by
  induction methods with
  | nil => simp [FunctionDecl.areWhole]
  | cons first rest induction => simp [FunctionDecl.areWhole, induction]

/-- What may be the branch of a conditional may also stand in a list. -/
theorem Stmt.Grammatical.anywhere {position : Position} {s : Stmt S}
    (grammatical : s.Grammatical .branch) : s.Grammatical position := by
  cases grammatical with
  | expression valueObeys => exact .expression valueObeys
  | print valueObeys => exact .print valueObeys
  | block bodyObeys => exact .block bodyObeys
  | conditional conditionObeys thenObeys elseObeys closed =>
      exact .conditional conditionObeys thenObeys elseObeys closed
  | loop conditionObeys bodyObeys => exact .loop conditionObeys bodyObeys
  | «return» isReturn valueObeys => exact .return isReturn valueObeys

/-- The grammar has no place for a lost statement. -/
theorem Stmt.Grammatical.isWhole {position : Position} {s : Stmt S}
    (grammatical : s.Grammatical position) : s.isWhole = true := by
  induction grammatical with
  | expression | print | var | «return» => simp [Stmt.isWhole]
  | block _ bodyWhole =>
      simpa [Stmt.isWhole, Stmt.areWhole_eq_all] using bodyWhole
  | @conditional _ _ _ elseBranch _ _ _ _ thenWhole elseWhole =>
      cases elseBranch with
      | none => simpa [Stmt.isWhole] using thenWhole
      | some branch => simpa [Stmt.isWhole, thenWhole] using elseWhole branch rfl
  | loop _ _ bodyWhole => simpa [Stmt.isWhole] using bodyWhole
  | function _ _ _ _ bodyWhole =>
      simpa [Stmt.isWhole, FunctionDecl.isWhole, Stmt.areWhole_eq_all] using bodyWhole
  | «class» _ _ _ methodsWhole =>
      simpa [Stmt.isWhole, FunctionDecl.areWhole_eq_all] using methodsWhole

end LoxLang
