import LoxLang.Scope.Basic

/-!
# Violations of the rules of scopes

Whether the use of a name is in order is told by the nodes around it and by what was
declared before in the same scope.  The uses of names in a program come in an order,
that of the pass through its scopes, and each violates one rule or none.  Nothing
here depends on how the pass keeps its books.
-/

namespace LoxLang

variable {S : Type}

/-- A node around a place. -/
inductive Enclosure where
  | block
  /-- A function; it may be the method `init` of a class. -/
  | function (isInitializer : Bool)
  /-- A class, with a superclass or without. -/
  | class (isDerived : Bool)
  /-- The declaration of a variable, around its initializer. -/
  | initializer (name : String)
deriving DecidableEq, Repr

/-- Whether the node has a scope for declarations. -/
def Enclosure.opensScope : Enclosure → Bool
  | .block | .function _ => true
  | .class _ | .initializer _ => false

/-- The nodes around a place, innermost first, and the names that were declared before it in the
innermost scope. -/
structure Place where
  enclosures : List Enclosure
  earlier : List String
deriving Repr

/-- The use of a name, or of a keyword that only some places allow. -/
inductive Use where
  | declaration (name : Token)
  | read (name : Token)
  | this (keyword : Token)
  | super (keyword : Token)
  | return (keyword : Token) (hasValue : Bool)
  | inheritance (name parent : Token)
deriving Repr

/-- A use at its place. -/
structure Occurrence where
  place : Place
  use : Use
deriving Repr

namespace Place

/-- The place of the statements of a program. -/
def top : Place := ⟨[], []⟩

/-- A place inside a node that opens a scope. -/
def enter (place : Place) (node : Enclosure) : Place := ⟨node :: place.enclosures, []⟩

/-- A place inside a node that opens none. -/
def inside (place : Place) (node : Enclosure) : Place :=
  { place with enclosures := node :: place.enclosures }

/-- The place after some declarations in the same scope. -/
def after (place : Place) (names : List String) : Place :=
  { place with earlier := place.earlier ++ names }

/-- Whether a declaration at the place is in a scope. -/
def isLocal (place : Place) : Bool := place.enclosures.any Enclosure.opensScope

/-- Whether the innermost function around the place is an initializer of objects. -/
def function? (place : Place) : Option Bool :=
  place.enclosures.findSome? fun
    | .function isInitializer => some isInitializer
    | _ => none

/-- Whether the innermost class around the place has a superclass. -/
def class? (place : Place) : Option Bool :=
  place.enclosures.findSome? fun
    | .class isDerived => some isDerived
    | _ => none

/-- Whether one of the nodes, innermost first, is the declaration in a scope of a variable of this
name. -/
def initializes (name : String) : List Enclosure → Bool
  | [] => false
  | .initializer declared :: outer =>
      (declared == name && outer.any Enclosure.opensScope) || initializes name outer
  | _ :: outer => initializes name outer

end Place

/-- What is wrong with the use of a name at its place. -/
def Occurrence.violations : Occurrence → List ScopeComplaint
  | ⟨place, .declaration name⟩ =>
      if place.isLocal ∧ name.lexeme ∈ place.earlier then [⟨name, .redeclared⟩] else []
  | ⟨place, .read name⟩ =>
      if Place.initializes name.lexeme place.enclosures then [⟨name, .ownInitializer⟩] else []
  | ⟨place, .this keyword⟩ =>
      if place.class? = none then [⟨keyword, .thisOutsideClass⟩] else []
  | ⟨place, .super keyword⟩ =>
      match place.class? with
      | none => [⟨keyword, .superOutsideClass⟩]
      | some false => [⟨keyword, .superWithoutSuperclass⟩]
      | some true => []
  | ⟨place, .return keyword hasValue⟩ =>
      match place.function? with
      | none => [⟨keyword, .returnAtTopLevel⟩]
      | some isInitializer =>
          if isInitializer ∧ hasValue then [⟨keyword, .valueFromInitializer⟩] else []
  | ⟨_, .inheritance name parent⟩ =>
      if parent.lexeme = name.lexeme then [⟨parent, .selfInheritance⟩] else []

/-- What is wrong with several uses. -/
def Occurrence.violationsOfAll (occurrences : List Occurrence) : List ScopeComplaint :=
  occurrences.flatMap violations

mutual

/-- The uses in an expression.  What is assigned to a property comes before its object. -/
def Expr.uses : Expr S → List Use
  | .literal _ => []
  | .grouping inner => inner.uses
  | .unary _ operand => operand.uses
  | .binary left _ right => left.uses ++ right.uses
  | .logical left _ right => left.uses ++ right.uses
  | .variable name _ => [.read name]
  | .assign _ _ value => value.uses
  | .call callee _ args => callee.uses ++ Expr.usesOfEach args
  | .get object _ => object.uses
  | .set object _ value => value.uses ++ object.uses
  | .this keyword _ => [.this keyword]
  | .super keyword _ _ => [.super keyword]

/-- The uses in several expressions. -/
def Expr.usesOfEach : List (Expr S) → List Use
  | [] => []
  | first :: rest => first.uses ++ Expr.usesOfEach rest

end

/-- The uses in an expression, which are all at the place of the expression. -/
def Expr.occurrences (place : Place) (e : Expr S) : List Occurrence :=
  e.uses.map (Occurrence.mk place)

/-- The uses in an expression, if it is there. -/
def Expr.occurrencesOfOptional (place : Place) : Option (Expr S) → List Occurrence
  | none => []
  | some value => value.occurrences place

/-- The names that a statement declares in the scope in which it stands. -/
def Stmt.brought : Stmt S → List String
  | .var name _ => [name.lexeme]
  | .function decl => [decl.name.lexeme]
  | .class name _ _ => [name.lexeme]
  | .conditional _ thenBranch none => thenBranch.brought
  | .conditional _ thenBranch (some elseBranch) => thenBranch.brought ++ elseBranch.brought
  | .loop _ body => body.brought
  | _ => []

/-- The declarations of parameters, one after the other. -/
def Place.declarations (place : Place) : List Token → List Occurrence
  | [] => []
  | first :: rest =>
      ⟨place, .declaration first⟩ :: (place.after [first.lexeme]).declarations rest

mutual

/-- The uses in a statement. -/
def Stmt.occurrences (place : Place) : Stmt S → List Occurrence
  | .expression value => value.occurrences place
  | .print value => value.occurrences place
  | .var name initializer =>
      ⟨place, .declaration name⟩ ::
        Expr.occurrencesOfOptional
          ((place.after [name.lexeme]).inside (.initializer name.lexeme)) initializer
  | .block body => Stmt.occurrencesOfAll (place.enter .block) body
  | .conditional condition thenBranch none =>
      condition.occurrences place ++ thenBranch.occurrences place
  | .conditional condition thenBranch (some elseBranch) =>
      condition.occurrences place ++ (thenBranch.occurrences place ++
        elseBranch.occurrences (place.after thenBranch.brought))
  | .loop condition body => condition.occurrences place ++ body.occurrences place
  | .function decl =>
      ⟨place, .declaration decl.name⟩ ::
        decl.occurrences (place.after [decl.name.lexeme]) false
  | .return keyword value =>
      ⟨place, .return keyword value.isSome⟩ :: Expr.occurrencesOfOptional place value
  | .class name none methods =>
      ⟨place, .declaration name⟩ ::
        FunctionDecl.occurrencesOfMethods ((place.after [name.lexeme]).inside (.class false))
          methods
  | .class name (some parent) methods =>
      let inner := (place.after [name.lexeme]).inside (.class true)
      ⟨place, .declaration name⟩ :: ⟨inner, .inheritance name parent.name⟩ ::
        ⟨inner, .read parent.name⟩ :: FunctionDecl.occurrencesOfMethods inner methods
  | .lost => []

/-- The uses in statements that stand in one scope. -/
def Stmt.occurrencesOfAll (place : Place) : List (Stmt S) → List Occurrence
  | [] => []
  | first :: rest =>
      first.occurrences place ++ Stmt.occurrencesOfAll (place.after first.brought) rest

/-- The uses inside a function.  Its parameters and its body share a scope. -/
def FunctionDecl.occurrences (place : Place) (isInitializer : Bool) :
    FunctionDecl S → List Occurrence
  | .mk _ params body =>
      let inner := place.enter (.function isInitializer)
      inner.declarations params ++
        Stmt.occurrencesOfAll (inner.after (params.map Token.lexeme)) body

/-- The uses inside methods. -/
def FunctionDecl.occurrencesOfMethods (place : Place) : List (FunctionDecl S) → List Occurrence
  | [] => []
  | first :: rest =>
      first.occurrences place (first.name.lexeme = "init") ++
        FunctionDecl.occurrencesOfMethods place rest

end

end LoxLang
