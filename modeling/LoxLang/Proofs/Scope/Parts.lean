import LoxLang.Proofs.Scope.Violations
import LoxLang.Proofs.TreeMap

/-!
# The parts of a program

A part of a program is known by its path: at each step, which of the parts directly
inside the last one to go to.  The path to a part also tells which constructs with a
scope of their own lie around it, and which names each of them holds there: those
declared in it so far, in the order of the text.

A property of all parts holds of a part if it holds at its root and of the parts
directly inside.  Nothing here depends on how scopes are worked out.
-/

namespace LoxLang

variable {S T : Type}

/-- A part of a program whose sites hold values of type `S`. -/
inductive Part (S : Type) where
  | program (body : List (Stmt S))
  | stmt (s : Stmt S)
  | method (decl : FunctionDecl S)
  | superclass (parent : Superclass S)
  | expr (e : Expr S)

/-- The names that a construct with a scope of its own holds at some point. -/
abbrev Construct := List String

theorem Stmt.brought_bare : ∀ s : Stmt S, s.bare.brought = s.brought
  | .conditional _ thenBranch none => brought_bare thenBranch
  | .conditional _ thenBranch (some elseBranch) => by
      simp [Stmt.map, Stmt.brought, brought_bare thenBranch, brought_bare elseBranch]
  | .loop _ body => brought_bare body
  | .function ⟨_, _, _⟩ => rfl
  | .expression _ | .print _ | .var _ _ | .block _ | .return _ _ | .class _ _ _ | .lost => rfl

namespace Construct

/-- Parameters, and what the statements of a body declare up to the one with the index, that one
included. -/
def heldAt (params : List Token) (body : List (Stmt S)) (index : Nat) : Construct :=
  params.map Token.lexeme ++ (body.take (index + 1)).flatMap Stmt.brought

theorem heldAt_bare (params : List Token) (body : List (Stmt S)) (index : Nat) :
    heldAt params (body.map Stmt.bare) index = heldAt params body index := by
  simp only [heldAt, ← List.map_take, List.flatMap_map, Stmt.brought_bare]

/-- The construct at the distance is the innermost one that holds the name. -/
def Innermost (constructs : List Construct) (name : String) (distance : Nat) : Prop :=
  (∃ construct, constructs[distance]? = some construct ∧ name ∈ construct) ∧
    ∀ nearer < distance, ∀ construct, constructs[nearer]? = some construct → name ∉ construct

/-- The distance to the innermost construct that holds the name. -/
def distance? (constructs : List Construct) (name : String) : Option Nat :=
  constructs.findIdx? (name ∈ ·)

theorem distance?_eq_some {constructs : List Construct} {name : String} {distance : Nat} :
    distance? constructs name = some distance ↔ Innermost constructs name distance := by
  unfold distance?
  rw [List.findIdx?_eq_some_iff_getElem]
  constructor
  · rintro ⟨inside, holds, nearest⟩
    refine ⟨⟨_, List.getElem?_eq_getElem inside, by simpa using holds⟩, ?_⟩
    intro nearer isNearer construct there
    obtain ⟨within, rfl⟩ := List.getElem?_eq_some_iff.1 there
    simpa using nearest nearer isNearer
  · rintro ⟨⟨construct, there, holds⟩, nearest⟩
    obtain ⟨inside, rfl⟩ := List.getElem?_eq_some_iff.1 there
    refine ⟨inside, by simpa using holds, ?_⟩
    intro nearer isNearer
    simpa using nearest nearer isNearer _ (List.getElem?_eq_getElem (Nat.lt_trans isNearer inside))

end Construct

namespace Part

/-- The part with its sites forgotten. -/
def bare : Part S → Part Unit
  | .program body => .program (body.map Stmt.bare)
  | .stmt s => .stmt s.bare
  | .method decl => .method (decl.map id fun _ => ())
  | .superclass parent => .superclass (parent.map id fun _ => ())
  | .expr e => .expr e.bare

/-- The parts directly inside a part, in the order of the text. -/
def children : Part S → List (Part S)
  | .program body => body.map .stmt
  | .stmt (.expression value) => [.expr value]
  | .stmt (.print value) => [.expr value]
  | .stmt (.var _ initializer) => initializer.toList.map .expr
  | .stmt (.block body) => body.map .stmt
  | .stmt (.conditional condition thenBranch elseBranch) =>
      .expr condition :: .stmt thenBranch :: elseBranch.toList.map .stmt
  | .stmt (.loop condition body) => [.expr condition, .stmt body]
  | .stmt (.function decl) => decl.body.map .stmt
  | .stmt (.return _ value) => value.toList.map .expr
  | .stmt (.class _ parent methods) => parent.toList.map .superclass ++ methods.map .method
  | .stmt .lost => []
  | .method decl => decl.body.map .stmt
  | .superclass _ => []
  | .expr (.literal _) => []
  | .expr (.grouping inner) => [.expr inner]
  | .expr (.unary _ operand) => [.expr operand]
  | .expr (.binary left _ right) => [.expr left, .expr right]
  | .expr (.logical left _ right) => [.expr left, .expr right]
  | .expr (.variable _ _) => []
  | .expr (.assign _ _ value) => [.expr value]
  | .expr (.call callee _ args) => .expr callee :: args.map .expr
  | .expr (.get object _) => [.expr object]
  | .expr (.set object _ value) => [.expr object, .expr value]
  | .expr (.this _ _) => []
  | .expr (.super _ _ _) => []

/-- The constructs with a scope between a part and one of the parts directly inside it, the
innermost first, as they are at the inner part.  Around the methods of a class is a layer for
`this`, and outside of that one for `super` if there is a superclass; the name of the superclass
itself, which comes first, is outside of both. -/
def opens : Part S → (index : Nat) → List Construct
  | .stmt (.block body), index => [.heldAt [] body index]
  | .stmt (.function decl), index => [.heldAt decl.params decl.body index]
  | .method decl, index => [.heldAt decl.params decl.body index]
  | .stmt (.class _ none _), _ => [["this"]]
  | .stmt (.class _ (some _) _), 0 => []
  | .stmt (.class _ (some _) _), _ + 1 => [["this"], ["super"]]
  | _, _ => []

/-- The name that a part refers to and what its site holds, if it is a reference. -/
def reference? : Part S → Option (ReferenceKind × Token × S)
  | .expr (.variable name site) => some (.variable, name, site)
  | .expr (.assign name site _) => some (.assign, name, site)
  | .expr (.this keyword site) => some (.this, keyword, site)
  | .expr (.super keyword _ site) => some (.super, keyword, site)
  | .superclass parent => some (.variable, parent.name, parent.site)
  | _ => none

/-- The part that a path leads to. -/
def at? : Part S → List Nat → Option (Part S)
  | part, [] => some part
  | part, index :: path => part.children[index]?.bind fun child => child.at? path

/-- The constructs with a scope on a path, the innermost first, as they are where it leads to. -/
def constructs : Part S → List Nat → List Construct
  | _, [] => []
  | part, index :: path =>
      (part.children[index]?.elim [] fun child => child.constructs path) ++ part.opens index

theorem at?_cons {part inner : Part S} {index : Nat} {path : List Nat} :
    part.at? (index :: path) = some inner ↔
      ∃ child, part.children[index]? = some child ∧ child.at? path = some inner :=
  Option.bind_eq_some_iff

theorem constructs_cons {part child : Part S} {index : Nat} (path : List Nat)
    (there : part.children[index]? = some child) :
    part.constructs (index :: path) = child.constructs path ++ part.opens index := by
  rw [constructs, there, Option.elim_some]

section Bare

theorem opens_bare (part : Part S) (index : Nat) : part.bare.opens index = part.opens index := by
  rcases part with body | s | ⟨name, params, body⟩ | parent | e
  · rfl
  · cases s with
    | conditional condition thenBranch elseBranch => cases elseBranch <;> rfl
    | block body => simp [bare, opens, Stmt.map, Stmt.mapAll_eq_map, Construct.heldAt_bare]
    | function decl =>
        obtain ⟨name, params, body⟩ := decl
        simp [bare, opens, Stmt.map, FunctionDecl.map, FunctionDecl.body, FunctionDecl.params,
          Stmt.mapAll_eq_map, Construct.heldAt_bare]
    | «class» name parent methods => cases parent <;> cases index <;> rfl
    | _ => rfl
  · simp [bare, opens, FunctionDecl.map, FunctionDecl.body, FunctionDecl.params,
      Stmt.mapAll_eq_map, Construct.heldAt_bare]
  · rfl
  · cases e <;> rfl

theorem map_bare_expr {args : List (Expr S)} {sources : List (Expr Unit)} :
    (args.map Part.expr).map bare = sources.map Part.expr ↔ args.map Expr.bare = sources := by
  rw [List.map_map, ← List.map_inj_right fun _ _ => Part.expr.inj, List.map_map]
  rfl

theorem map_bare_stmt {body : List (Stmt S)} {sources : List (Stmt Unit)} :
    (body.map Part.stmt).map bare = sources.map Part.stmt ↔ body.map Stmt.bare = sources := by
  rw [List.map_map, ← List.map_inj_right fun _ _ => Part.stmt.inj, List.map_map]
  rfl

theorem map_bare_optionalExpr {value : Option (Expr S)} {source : Option (Expr Unit)} :
    (value.toList.map Part.expr).map bare = source.toList.map Part.expr ↔
      value.map Expr.bare = source := by
  rw [map_bare_expr, ← Option.toList_map]
  cases value <;> cases source <;> simp

theorem map_bare_optionalStmt {branch : Option (Stmt S)} {source : Option (Stmt Unit)} :
    (branch.toList.map Part.stmt).map bare = source.toList.map Part.stmt ↔
      branch.map Stmt.bare = source := by
  rw [map_bare_stmt, ← Option.toList_map]
  cases branch <;> cases source <;> simp

theorem map_bare_method {methods : List (FunctionDecl S)} {sources : List (FunctionDecl Unit)} :
    (methods.map Part.method).map bare = sources.map Part.method ↔
      methods.map (FunctionDecl.map id fun _ => ()) = sources := by
  rw [List.map_map, ← List.map_inj_right fun _ _ => Part.method.inj,
    List.map_map]
  rfl

theorem children_bare (part : Part S) : part.bare.children = part.children.map bare := by
  rcases part with body | s | ⟨name, params, body⟩ | parent | e
  · simp [bare, children]
  · cases s with
    | conditional condition thenBranch elseBranch =>
        cases elseBranch <;> simp [bare, children, Stmt.map]
    | function decl =>
        obtain ⟨name, params, body⟩ := decl
        simp [bare, children, Stmt.map, FunctionDecl.map, FunctionDecl.body, Stmt.mapAll_eq_map]
    | _ =>
        simp [bare, children, Stmt.map, Stmt.mapAll_eq_map, FunctionDecl.mapAll_eq_map,
          Option.toList_map, Function.comp_def]
  · simp [bare, children, FunctionDecl.map, FunctionDecl.body, Stmt.mapAll_eq_map]
  · simp [bare, children]
  · cases e <;> simp [bare, children, Expr.map, Expr.mapEach_eq_map]

theorem reference?_bare (part : Part S) :
    part.bare.reference? = part.reference?.map fun found => (found.1, found.2.1, ()) := by
  rcases part with body | s | decl | parent | e
  · rfl
  · cases s <;> rfl
  · rfl
  · rfl
  · cases e <;> rfl

theorem at?_bare (part : Part S) (path : List Nat) :
    part.bare.at? path = (part.at? path).map bare := by
  induction path generalizing part with
  | nil => rfl
  | cons index path induction =>
      simp only [at?, children_bare, List.getElem?_map]
      cases part.children[index]? with
      | none => rfl
      | some child => exact induction child

theorem constructs_bare (part : Part S) (path : List Nat) :
    part.bare.constructs path = part.constructs path := by
  induction path generalizing part with
  | nil => rfl
  | cons index path induction =>
      simp only [constructs, children_bare, List.getElem?_map, opens_bare]
      cases part.children[index]? with
      | none => rfl
      | some child => simp [induction child]

end Bare

section Everywhere

variable {property : List Construct → Part S → Prop} {plain : Part S → Prop}
  {around : List Construct} {part : Part S}

/-- The property holds of all parts of a part together with the constructs around them. -/
def Throughout (property : List Construct → Part S → Prop) (around : List Construct)
    (part : Part S) : Prop :=
  ∀ path inner, part.at? path = some inner → property (part.constructs path ++ around) inner

/-- The property holds of all parts of a part. -/
def Everywhere (plain : Part S → Prop) (part : Part S) : Prop :=
  ∀ path inner, part.at? path = some inner → plain inner

theorem throughout_iff : Throughout property around part ↔ property around part ∧
    ∀ index child, part.children[index]? = some child →
      Throughout property (part.opens index ++ around) child := by
  constructor
  · intro throughout
    refine ⟨throughout [] part rfl, ?_⟩
    intro index child there path inner leads
    have holds := throughout (index :: path) inner (at?_cons.2 ⟨child, there, leads⟩)
    rwa [constructs_cons path there, List.append_assoc] at holds
  · rintro ⟨root, inside⟩ path inner leads
    cases path with
    | nil =>
        cases leads
        exact root
    | cons index path =>
        obtain ⟨child, there, leads⟩ := at?_cons.1 leads
        rw [constructs_cons path there, List.append_assoc]
        exact inside index child there path inner leads

theorem everywhere_iff : Everywhere plain part ↔
    plain part ∧ ∀ child ∈ part.children, Everywhere plain child := by
  constructor
  · intro everywhere
    refine ⟨everywhere [] part rfl, ?_⟩
    intro child member path inner leads
    obtain ⟨index, there⟩ := List.getElem?_of_mem member
    exact everywhere (index :: path) inner (at?_cons.2 ⟨child, there, leads⟩)
  · rintro ⟨root, inside⟩ path inner leads
    cases path with
    | nil =>
        cases leads
        exact root
    | cons index path =>
        obtain ⟨child, there, leads⟩ := at?_cons.1 leads
        exact inside child (List.mem_of_getElem? there) path inner leads

end Everywhere

end Part

end LoxLang
