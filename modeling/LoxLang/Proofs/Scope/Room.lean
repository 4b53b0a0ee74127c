import LoxLang.Proofs.Stateful
import LoxLang.Scope.Resolve

/-!
# Room for the pass through scopes

The pass is never cut off in a tree with fewer nodes than there is room.
-/

namespace LoxLang

variable {S : Type}

mutual

/-- How many nodes an expression has. -/
def Expr.nodes : Expr S → Nat
  | .literal _ | .variable _ _ | .this _ _ | .super _ _ _ => 1
  | .grouping inner => inner.nodes + 1
  | .unary _ operand => operand.nodes + 1
  | .binary left _ right | .logical left _ right => left.nodes + right.nodes + 1
  | .assign _ _ value => value.nodes + 1
  | .call callee _ args => callee.nodes + Expr.nodesOfEach args + 1
  | .get object _ => object.nodes + 1
  | .set object _ value => object.nodes + value.nodes + 1

/-- How many nodes several expressions have. -/
def Expr.nodesOfEach : List (Expr S) → Nat
  | [] => 0
  | first :: rest => first.nodes + Expr.nodesOfEach rest

end

/-- How many nodes an expression has, if it is there. -/
def Expr.nodesOfOptional : Option (Expr S) → Nat
  | none => 0
  | some value => value.nodes

mutual

/-- How many nodes a statement has. -/
def Stmt.nodes : Stmt S → Nat
  | .expression value | .print value => value.nodes + 1
  | .var _ value | .return _ value => Expr.nodesOfOptional value + 1
  | .block body => Stmt.nodesOfAll body + 1
  | .conditional condition thenBranch none => condition.nodes + thenBranch.nodes + 1
  | .conditional condition thenBranch (some elseBranch) =>
      condition.nodes + thenBranch.nodes + elseBranch.nodes + 1
  | .loop condition body => condition.nodes + body.nodes + 1
  | .function decl => decl.nodes + 1
  | .class _ _ methods => FunctionDecl.nodesOfAll methods + 1
  | .lost => 1

/-- How many nodes statements have. -/
def Stmt.nodesOfAll : List (Stmt S) → Nat
  | [] => 0
  | first :: rest => first.nodes + Stmt.nodesOfAll rest

/-- How many nodes the body of a function has. -/
def FunctionDecl.nodes : FunctionDecl S → Nat
  | .mk _ _ body => Stmt.nodesOfAll body

/-- How many nodes the bodies of functions have. -/
def FunctionDecl.nodesOfAll : List (FunctionDecl S) → Nat
  | [] => 0
  | first :: rest => first.nodes + FunctionDecl.nodesOfAll rest

end

namespace Scoping

variable {α β : Type} {part : Scoping α} {room : Nat}

/-- The part of the pass comes to its end, wherever it begins. -/
def Ends (part : Scoping α) : Prop := ∀ start, ∃ result after, part start = .ok result after

namespace Ends

theorem pure (result : α) : Ends (Pure.pure result) := fun start => ⟨result, start, rfl⟩

theorem bind {next : α → Scoping β} (first : Ends part) (second : ∀ value, Ends (next value)) :
    Ends (part >>= next) := by
  intro start
  obtain ⟨value, middle, partDone⟩ := first start
  obtain ⟨result, after, nextDone⟩ := second value middle
  exact ⟨result, after, bind_eq_ok.2 ⟨value, middle, partDone, nextDone⟩⟩

theorem wrap (inside : Ends part) (build : α → β) :
    Ends (part >>= fun value => Pure.pure (build value)) :=
  inside.bind fun _ => pure _

theorem complain (about : Token) (error : ScopeError) : Ends (Scoping.complain about error) :=
  fun _ => ⟨_, _, rfl⟩

theorem get : Ends (MonadState.get : Scoping ScopeState) := fun _ => ⟨_, _, rfl⟩

theorem change (update : ScopeState → ScopeState) : Ends (modify update : Scoping Unit) :=
  fun _ => ⟨_, _, rfl⟩

theorem declare (name : Token) : Ends (Scoping.declare name) := by
  intro start
  unfold Scoping.declare
  split <;> exact ⟨_, _, rfl⟩

theorem define (name : String) : Ends (Scoping.define name) := by
  intro start
  unfold Scoping.define
  split <;> exact ⟨_, _, rfl⟩

theorem locate (kind : ReferenceKind) (name : Token) : Ends (Scoping.locate kind name) := by
  intro start
  unfold Scoping.locate
  split <;> exact ⟨_, _, rfl⟩

theorem isPending (name : String) : Ends (Scoping.isPending name) := by
  intro start
  unfold Scoping.isPending
  split <;> exact ⟨_, _, rfl⟩

theorem reference (name : Token) : Ends (Scoping.reference name) := by
  apply (isPending name.lexeme).bind
  intro pending
  cases pending with
  | false => exact locate .variable name
  | true => exact (complain name .ownInitializer).bind fun _ => locate .variable name

/-- Before and after a part only the state is changed. -/
theorem between (inside : Ends part) (before after : ScopeState → ScopeState) :
    Ends (modify before >>= fun _ => part >>= fun result =>
      modify after >>= fun _ => Pure.pure result) := by
  refine (change before).bind fun _ => ?_
  refine inside.bind fun result => ?_
  exact (change after).bind fun _ => pure result

theorem inScope (scope : Scope) (inside : Ends part) : Ends (Scoping.inScope scope part) :=
  inside.between _ _

theorem inFunction (kind : FunctionKind) (inside : Ends part) :
    Ends (Scoping.inFunction kind part) :=
  get.bind fun _ => inside.between _ _

theorem inClass (kind : ClassKind) (inside : Ends part) : Ends (Scoping.inClass kind part) :=
  get.bind fun _ => inside.between _ _

theorem each {visit : α → Scoping β} {items : List α} (ends : ∀ item ∈ items, Ends (visit item)) :
    Ends (Scoping.each visit items) := by
  induction items with
  | nil => exact pure []
  | cons first rest induction =>
      obtain ⟨firstEnds, restEnds⟩ := List.forall_mem_cons.1 ends
      exact firstEnds.bind fun _ => (induction restEnds).wrap _

theorem complainIf {condition : Prop} [Decidable condition] {about : Token} {error : ScopeError}
    {next : Scoping β} (rest : Ends next) :
    Ends (if condition then Scoping.complain about error >>= fun _ => next else next) := by
  split
  · exact (complain about error).bind fun _ => rest
  · exact rest

theorem param (name : Token) : Ends (Scoping.param name) :=
  (declare name).bind fun _ => define name.lexeme

end Ends

theorem args_end {visit : Expr Unit → Scoping (Expr Site)}
    (ends : ∀ e : Expr Unit, e.nodes ≤ room → Ends (visit e)) (args : List (Expr Unit))
    (few : Expr.nodesOfEach args ≤ room) : Ends (each visit args) := by
  apply Ends.each
  induction args with
  | nil => simp
  | cons first rest induction =>
      rw [Expr.nodesOfEach] at few
      exact List.forall_mem_cons.2 ⟨ends first (by omega), induction (by omega)⟩

/-- The pass through an expression with no more nodes than there is room. -/
theorem expr_ends (e : Expr Unit) (small : e.nodes ≤ room) : Ends (expr room e) := by
  induction room generalizing e with
  | zero => cases e <;> simp [Expr.nodes] at small
  | succ room induction =>
      cases e <;> simp only [Expr.nodes] at small
      case literal value => exact .pure _
      case grouping inner => exact (induction inner (by omega)).wrap _
      case unary op operand => exact (induction operand (by omega)).wrap _
      case binary left op right =>
        refine (induction left (by omega)).bind fun left => ?_
        exact (induction right (by omega)).wrap _
      case logical left op right =>
        refine (induction left (by omega)).bind fun left => ?_
        exact (induction right (by omega)).wrap _
      case «variable» name site => exact (Ends.reference name).wrap _
      case assign name site value =>
        refine (induction value (by omega)).bind fun value => ?_
        exact (Ends.locate .assign name).wrap _
      case call callee paren args =>
        refine (induction callee (by omega)).bind fun callee => ?_
        exact (args_end induction args (by omega)).wrap _
      case get object name => exact (induction object (by omega)).wrap _
      case set object name value =>
        refine (induction value (by omega)).bind fun value => ?_
        exact (induction object (by omega)).wrap _
      case this keyword site =>
        apply Ends.get.bind
        intro state
        split
        · exact (Ends.complain _ _).bind fun _ => .pure _
        · exact (Ends.locate .this keyword).wrap _
      case super keyword method site =>
        apply Ends.get.bind
        intro state
        have located := (Ends.locate .super keyword).wrap (Expr.super keyword method)
        cases state.classKind with
        | none => exact (Ends.complain _ _).bind fun _ => located
        | plain => exact (Ends.complain _ _).bind fun _ => located
        | derived => exact (Ends.pure ()).bind fun _ => located

theorem optional_ends (value : Option (Expr Unit)) (few : Expr.nodesOfOptional value ≤ room) :
    Ends (optional (expr room) value) := by
  cases value with
  | none => exact .pure none
  | some value => exact (expr_ends value few).wrap _

section Bodies

variable {visit : Stmt Unit → Scoping (Stmt Site)}
  (ends : ∀ s : Stmt Unit, s.nodes ≤ room → Ends (visit s))

include ends

theorem body_ends (body : List (Stmt Unit)) (few : Stmt.nodesOfAll body ≤ room) :
    Ends (each visit body) := by
  apply Ends.each
  induction body with
  | nil => simp
  | cons first rest induction =>
      rw [Stmt.nodesOfAll] at few
      exact List.forall_mem_cons.2 ⟨ends first (by omega), induction (by omega)⟩

theorem functionRest_ends (kind : FunctionKind) (decl : FunctionDecl Unit)
    (few : decl.nodes ≤ room) : Ends (functionRest visit kind decl) := by
  obtain ⟨name, params, body⟩ := decl
  have declared : Ends (each param params) := Ends.each fun param _ => .param param
  have visited := (body_ends ends body few).wrap (FunctionDecl.mk name params)
  exact Ends.inFunction kind (Ends.inScope _ (declared.bind fun _ => visited))

theorem methodsRest_ends (methods : List (FunctionDecl Unit))
    (few : FunctionDecl.nodesOfAll methods ≤ room) : Ends (methodsRest visit methods) := by
  apply Ends.inScope
  apply Ends.each
  induction methods with
  | nil => simp
  | cons first rest induction =>
      rw [FunctionDecl.nodesOfAll] at few
      exact List.forall_mem_cons.2
        ⟨functionRest_ends ends _ first (by omega), induction (by omega)⟩

end Bodies

theorem stmt_ends (s : Stmt Unit) (small : s.nodes ≤ room) : Ends (stmt room s) := by
  induction room generalizing s with
  | zero =>
      cases s with
      | conditional condition thenBranch elseBranch =>
          cases elseBranch <;> simp [Stmt.nodes] at small
      | _ => simp [Stmt.nodes] at small
  | succ room induction =>
      cases s with
      | expression value =>
          rw [Stmt.nodes] at small
          exact (expr_ends value (by omega)).wrap _
      | print value =>
          rw [Stmt.nodes] at small
          exact (expr_ends value (by omega)).wrap _
      | var name initializer =>
          rw [Stmt.nodes] at small
          refine (Ends.declare name).bind fun _ => ?_
          refine (optional_ends initializer (by omega)).bind fun initializer => ?_
          exact (Ends.define name.lexeme).wrap _
      | block body =>
          rw [Stmt.nodes] at small
          exact (Ends.inScope _ (body_ends induction body (by omega))).wrap _
      | conditional condition thenBranch elseBranch =>
          cases elseBranch with
          | none =>
              rw [Stmt.nodes] at small
              refine (expr_ends condition (by omega)).bind fun condition => ?_
              refine (induction thenBranch (by omega)).bind fun thenBranch => ?_
              exact (Ends.pure none).wrap _
          | some branch =>
              rw [Stmt.nodes] at small
              refine (expr_ends condition (by omega)).bind fun condition => ?_
              refine (induction thenBranch (by omega)).bind fun thenBranch => ?_
              exact ((induction branch (by omega)).wrap some).wrap _
      | loop condition body =>
          rw [Stmt.nodes] at small
          refine (expr_ends condition (by omega)).bind fun condition => ?_
          exact (induction body (by omega)).wrap _
      | function decl =>
          rw [Stmt.nodes] at small
          refine (Ends.declare decl.name).bind fun _ => ?_
          refine (Ends.define decl.name.lexeme).bind fun _ => ?_
          exact (functionRest_ends induction .function decl (by omega)).wrap _
      | «return» keyword value =>
          rw [Stmt.nodes] at small
          apply Ends.get.bind
          intro state
          cases value with
          | none => exact Ends.complainIf (.pure _)
          | some value =>
              rw [Expr.nodesOfOptional] at small
              have valueEnds := expr_ends value (Nat.lt_succ_iff.1 small)
              refine Ends.complainIf (Ends.get.bind fun _ => ?_)
              exact Ends.complainIf (valueEnds.wrap _)
      | «class» name parent methods =>
          rw [Stmt.nodes] at small
          apply Ends.inClass
          have methodsEnd := methodsRest_ends induction methods (by omega)
          refine (Ends.declare name).bind fun _ => ?_
          refine (Ends.define name.lexeme).bind fun _ => ?_
          cases parent with
          | none => exact methodsEnd.wrap _
          | some parent =>
              have located := (Ends.reference parent.name).wrap (Superclass.mk parent.name)
              have parentEnds : Ends (superclass name parent) :=
                Ends.complainIf ((Ends.change _).bind fun _ => located)
              exact parentEnds.bind fun parent => (Ends.inScope _ methodsEnd).wrap _
      | lost => exact .pure _

end Scoping

/-- With enough room the pass through a program is not cut off. -/
theorem resolveWithin_isSome {room : Nat} {statements : List (Stmt Unit)}
    (enough : Stmt.nodesOfAll statements ≤ room) :
    (resolveWithin room statements).statements.isSome = true := by
  obtain ⟨results, state, passed⟩ :=
    Scoping.body_ends (fun s => Scoping.stmt_ends s) statements enough ScopeState.start
  simp [resolveWithin, passed]

end LoxLang
