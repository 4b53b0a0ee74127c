import LoxLang.Tree

/-!
# Mapping trees

A tree can be mapped by a function on its tokens and another one on its sites.
A *bare* tree is one whose sites are forgotten.
-/

namespace LoxLang

variable {S T : Type}

mutual

/-- Map the tokens and the sites of an expression. -/
def Expr.map (onToken : Token → Token) (onSite : S → T) : Expr S → Expr T
  | .literal value => .literal value
  | .grouping inner => .grouping (inner.map onToken onSite)
  | .unary op operand => .unary (onToken op) (operand.map onToken onSite)
  | .binary left op right =>
      .binary (left.map onToken onSite) (onToken op) (right.map onToken onSite)
  | .logical left op right =>
      .logical (left.map onToken onSite) (onToken op) (right.map onToken onSite)
  | .variable name site => .variable (onToken name) (onSite site)
  | .assign name site value => .assign (onToken name) (onSite site) (value.map onToken onSite)
  | .call callee paren args =>
      .call (callee.map onToken onSite) (onToken paren) (Expr.mapEach onToken onSite args)
  | .get object name => .get (object.map onToken onSite) (onToken name)
  | .set object name value =>
      .set (object.map onToken onSite) (onToken name) (value.map onToken onSite)
  | .this keyword site => .this (onToken keyword) (onSite site)
  | .super keyword method site => .super (onToken keyword) (onToken method) (onSite site)

/-- Map the tokens and the sites of several expressions. -/
def Expr.mapEach (onToken : Token → Token) (onSite : S → T) : List (Expr S) → List (Expr T)
  | [] => []
  | first :: rest => first.map onToken onSite :: Expr.mapEach onToken onSite rest

end

/-- Map the name and the site of a superclass. -/
def Superclass.map (onToken : Token → Token) (onSite : S → T) (parent : Superclass S) :
    Superclass T :=
  ⟨onToken parent.name, onSite parent.site⟩

mutual

/-- Map the tokens and the sites of a statement. -/
def Stmt.map (onToken : Token → Token) (onSite : S → T) : Stmt S → Stmt T
  | .expression value => .expression (value.map onToken onSite)
  | .print value => .print (value.map onToken onSite)
  | .var name initializer => .var (onToken name) (initializer.map (Expr.map onToken onSite))
  | .block body => .block (Stmt.mapAll onToken onSite body)
  | .conditional condition thenBranch none =>
      .conditional (condition.map onToken onSite) (thenBranch.map onToken onSite) none
  | .conditional condition thenBranch (some elseBranch) =>
      .conditional (condition.map onToken onSite) (thenBranch.map onToken onSite)
        (some (elseBranch.map onToken onSite))
  | .loop condition body => .loop (condition.map onToken onSite) (body.map onToken onSite)
  | .function decl => .function (decl.map onToken onSite)
  | .return keyword value => .return (onToken keyword) (value.map (Expr.map onToken onSite))
  | .class name superclass methods =>
      .class (onToken name) (superclass.map (Superclass.map onToken onSite))
        (FunctionDecl.mapAll onToken onSite methods)
  | .lost => .lost

/-- Map the tokens and the sites of several statements. -/
def Stmt.mapAll (onToken : Token → Token) (onSite : S → T) : List (Stmt S) → List (Stmt T)
  | [] => []
  | first :: rest => first.map onToken onSite :: Stmt.mapAll onToken onSite rest

/-- Map the tokens and the sites of a function. -/
def FunctionDecl.map (onToken : Token → Token) (onSite : S → T) : FunctionDecl S → FunctionDecl T
  | .mk name params body => ⟨onToken name, params.map onToken, Stmt.mapAll onToken onSite body⟩

/-- Map the tokens and the sites of several functions. -/
def FunctionDecl.mapAll (onToken : Token → Token) (onSite : S → T) :
    List (FunctionDecl S) → List (FunctionDecl T)
  | [] => []
  | first :: rest => first.map onToken onSite :: FunctionDecl.mapAll onToken onSite rest

end

theorem Expr.mapEach_eq_map (onToken : Token → Token) (onSite : S → T) (args : List (Expr S)) :
    Expr.mapEach onToken onSite args = args.map (Expr.map onToken onSite) := by
  induction args with
  | nil => simp [Expr.mapEach]
  | cons first rest induction => simp [Expr.mapEach, induction]

theorem Stmt.mapAll_eq_map (onToken : Token → Token) (onSite : S → T) (body : List (Stmt S)) :
    Stmt.mapAll onToken onSite body = body.map (Stmt.map onToken onSite) := by
  induction body with
  | nil => simp [Stmt.mapAll]
  | cons first rest induction => simp [Stmt.mapAll, induction]

theorem FunctionDecl.mapAll_eq_map (onToken : Token → Token) (onSite : S → T)
    (methods : List (FunctionDecl S)) :
    FunctionDecl.mapAll onToken onSite methods =
      methods.map (FunctionDecl.map onToken onSite) := by
  induction methods with
  | nil => simp [FunctionDecl.mapAll]
  | cons first rest induction => simp [FunctionDecl.mapAll, induction]

section Composition

variable {U : Type} (first second : Token → Token) (early : S → T) (late : T → U)

mutual

theorem Expr.map_map : ∀ e : Expr S,
    (e.map first early).map second late = e.map (second ∘ first) (late ∘ early)
  | .literal _ => by simp [Expr.map]
  | .grouping inner => by simp [Expr.map, Expr.map_map inner]
  | .unary _ operand => by simp [Expr.map, Expr.map_map operand]
  | .binary left _ right => by simp [Expr.map, Expr.map_map left, Expr.map_map right]
  | .logical left _ right => by simp [Expr.map, Expr.map_map left, Expr.map_map right]
  | .variable _ _ => by simp [Expr.map]
  | .assign _ _ value => by simp [Expr.map, Expr.map_map value]
  | .call callee _ args => by simp [Expr.map, Expr.map_map callee, Expr.mapEach_mapEach args]
  | .get object _ => by simp [Expr.map, Expr.map_map object]
  | .set object _ value => by simp [Expr.map, Expr.map_map object, Expr.map_map value]
  | .this _ _ => by simp [Expr.map]
  | .super _ _ _ => by simp [Expr.map]

theorem Expr.mapEach_mapEach : ∀ args : List (Expr S),
    Expr.mapEach second late (Expr.mapEach first early args) =
      Expr.mapEach (second ∘ first) (late ∘ early) args
  | [] => rfl
  | head :: rest => by simp [Expr.mapEach, Expr.map_map head, Expr.mapEach_mapEach rest]

end

theorem Expr.map_comp_map :
    Expr.map second late ∘ Expr.map first early = Expr.map (second ∘ first) (late ∘ early) :=
  funext fun e => e.map_map first second early late

mutual

theorem Stmt.map_map : ∀ s : Stmt S,
    (s.map first early).map second late = s.map (second ∘ first) (late ∘ early)
  | .expression value => by simp [Stmt.map, Expr.map_map]
  | .print value => by simp [Stmt.map, Expr.map_map]
  | .var _ initializer => by simp [Stmt.map, Expr.map_comp_map]
  | .block body => by simp [Stmt.map, Stmt.mapAll_mapAll body]
  | .conditional _ thenBranch none => by simp [Stmt.map, Expr.map_map, Stmt.map_map thenBranch]
  | .conditional _ thenBranch (some elseBranch) => by
      simp [Stmt.map, Expr.map_map, Stmt.map_map thenBranch, Stmt.map_map elseBranch]
  | .loop _ body => by simp [Stmt.map, Expr.map_map, Stmt.map_map body]
  | .function decl => by simp [Stmt.map, FunctionDecl.map_map decl]
  | .return _ _ => by simp [Stmt.map, Expr.map_comp_map]
  | .class _ parent methods => by
      have parents : (Superclass.map second late) ∘ (Superclass.map first early) =
          Superclass.map (second ∘ first) (late ∘ early) := rfl
      simp [Stmt.map, parents, FunctionDecl.mapAll_mapAll methods]
  | .lost => rfl

theorem Stmt.mapAll_mapAll : ∀ body : List (Stmt S),
    Stmt.mapAll second late (Stmt.mapAll first early body) =
      Stmt.mapAll (second ∘ first) (late ∘ early) body
  | [] => rfl
  | head :: rest => by simp [Stmt.mapAll, Stmt.map_map head, Stmt.mapAll_mapAll rest]

theorem FunctionDecl.map_map : ∀ decl : FunctionDecl S,
    (decl.map first early).map second late = decl.map (second ∘ first) (late ∘ early)
  | .mk _ _ body => by simp [FunctionDecl.map, Stmt.mapAll_mapAll body]

theorem FunctionDecl.mapAll_mapAll : ∀ methods : List (FunctionDecl S),
    FunctionDecl.mapAll second late (FunctionDecl.mapAll first early methods) =
      FunctionDecl.mapAll (second ∘ first) (late ∘ early) methods
  | [] => rfl
  | head :: rest => by
      simp [FunctionDecl.mapAll, FunctionDecl.map_map head, FunctionDecl.mapAll_mapAll rest]

end

end Composition

section Identity

mutual

theorem Expr.map_id : ∀ e : Expr S, e.map id id = e
  | .literal _ | .variable _ _ | .this _ _ | .super _ _ _ => rfl
  | .grouping inner => by rw [Expr.map, Expr.map_id inner]
  | .unary _ operand => by rw [Expr.map, Expr.map_id operand, id]
  | .binary left _ right => by rw [Expr.map, Expr.map_id left, Expr.map_id right, id]
  | .logical left _ right => by rw [Expr.map, Expr.map_id left, Expr.map_id right, id]
  | .assign _ _ value => by rw [Expr.map, Expr.map_id value, id, id]
  | .call callee _ args => by rw [Expr.map, Expr.map_id callee, Expr.mapEach_id args, id]
  | .get object _ => by rw [Expr.map, Expr.map_id object, id]
  | .set object _ value => by rw [Expr.map, Expr.map_id object, Expr.map_id value, id]

theorem Expr.mapEach_id : ∀ args : List (Expr S), Expr.mapEach id id args = args
  | [] => rfl
  | first :: rest => by rw [Expr.mapEach, Expr.map_id first, Expr.mapEach_id rest]

end

theorem Expr.map_id_fun : (Expr.map id id : Expr S → Expr S) = id := funext Expr.map_id

mutual

theorem Stmt.map_id : ∀ s : Stmt S, s.map id id = s
  | .expression value | .print value => by rw [Stmt.map, Expr.map_id value]
  | .var _ _ | .return _ _ => by simp [Stmt.map, Expr.map_id_fun]
  | .block body => by rw [Stmt.map, Stmt.mapAll_id body]
  | .conditional condition thenBranch none => by
      rw [Stmt.map, Expr.map_id condition, Stmt.map_id thenBranch]
  | .conditional condition thenBranch (some elseBranch) => by
      rw [Stmt.map, Expr.map_id condition, Stmt.map_id thenBranch, Stmt.map_id elseBranch]
  | .loop condition body => by rw [Stmt.map, Expr.map_id condition, Stmt.map_id body]
  | .function decl => by rw [Stmt.map, FunctionDecl.map_id decl]
  | .class _ parent methods => by
      have parents : (Superclass.map id id : Superclass S → Superclass S) = id := rfl
      simp [Stmt.map, parents, FunctionDecl.mapAll_id methods]
  | .lost => rfl

theorem Stmt.mapAll_id : ∀ body : List (Stmt S), Stmt.mapAll id id body = body
  | [] => rfl
  | first :: rest => by rw [Stmt.mapAll, Stmt.map_id first, Stmt.mapAll_id rest]

theorem FunctionDecl.map_id : ∀ decl : FunctionDecl S, decl.map id id = decl
  | .mk _ params body => by simp [FunctionDecl.map, Stmt.mapAll_id body]

theorem FunctionDecl.mapAll_id : ∀ methods : List (FunctionDecl S),
    FunctionDecl.mapAll id id methods = methods
  | [] => rfl
  | first :: rest => by
      rw [FunctionDecl.mapAll, FunctionDecl.map_id first, FunctionDecl.mapAll_id rest]

end

end Identity

/-- The expression with its sites forgotten. -/
abbrev Expr.bare (e : Expr S) : Expr Unit := e.map id fun _ => ()

/-- The statement with its sites forgotten. -/
abbrev Stmt.bare (s : Stmt S) : Stmt Unit := s.map id fun _ => ()

end LoxLang
