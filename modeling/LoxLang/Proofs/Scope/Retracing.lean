import LoxLang.Proofs.Scope.Survey

/-!
# The pass under observation is the pass

Without the notes, watching the pass through the scopes changes nothing: every
part of the watched pass retraces the plain one.
-/

namespace LoxLang.Surveying

open Watched (Retraces lift note)

variable {α β : Type}

theorem declare_retraces (name : Token) : Retraces (declare name) (Scoping.declare name) :=
  Retraces.noteThen (.lift _)

theorem param_retraces (name : Token) : Retraces (param name) (Scoping.param name) :=
  Retraces.bind (declare_retraces name) fun _ => .lift _

theorem inScope_retraces {scope : Scope} {part : Surveying α} {plain : Scoping α}
    (partRetraces : Retraces part plain) :
    Retraces (inScope scope part) (Scoping.inScope scope plain) := by
  apply Retraces.noteThen
  apply Retraces.bind (.lift _)
  intro _
  apply Retraces.bind partRetraces
  intro result
  apply Retraces.noteThen
  exact Retraces.bind (.lift _) fun _ => .pure result

theorem inFunction_retraces {kind : FunctionKind} {part : Surveying α} {plain : Scoping α}
    (partRetraces : Retraces part plain) :
    Retraces (inFunction kind part) (Scoping.inFunction kind plain) := by
  apply Retraces.bind (.lift _)
  intro enclosing
  apply Retraces.bind (.lift _)
  intro _
  apply Retraces.bind partRetraces
  intro result
  exact Retraces.bind (.lift _) fun _ => .pure result

theorem inClass_retraces {kind : ClassKind} {part : Surveying α} {plain : Scoping α}
    (partRetraces : Retraces part plain) :
    Retraces (inClass kind part) (Scoping.inClass kind plain) := by
  apply Retraces.bind (.lift _)
  intro enclosing
  apply Retraces.bind (.lift _)
  intro _
  apply Retraces.bind partRetraces
  intro result
  exact Retraces.bind (.lift _) fun _ => .pure result

theorem each_retraces {visit : Nat → α → Surveying β} {plain : α → Scoping β}
    (visitRetraces : ∀ index part, Retraces (visit index part) (plain part)) (index : Nat)
    (parts : List α) : Retraces (each visit index parts) (Scoping.each plain parts) := by
  induction parts generalizing index with
  | nil => exact .pure []
  | cons first rest induction =>
      apply Retraces.bind (visitRetraces index first)
      intro head
      exact Retraces.bind (induction (index + 1)) fun tail => .pure (head :: tail)

theorem optional_retraces {visit : α → Surveying β} {plain : α → Scoping β}
    (visitRetraces : ∀ part, Retraces (visit part) (plain part)) (part : Option α) :
    Retraces (optional visit part) (Scoping.optional plain part) := by
  cases part with
  | none => exact .pure none
  | some present => exact Retraces.bind (visitRetraces present) fun result => .pure (some result)

theorem expr_retraces (room : Nat) (address : Address) (e : Expr Unit) :
    Retraces (expr room address e) (Scoping.expr room e) := by
  induction room generalizing address e with
  | zero => exact .throw _
  | succ room induction =>
      apply Retraces.noteThen
      cases e with
      | literal value => exact .pure _
      | grouping inner => exact Retraces.bind (induction _ inner) fun _ => .pure _
      | unary op operand => exact Retraces.bind (induction _ operand) fun _ => .pure _
      | binary left op right =>
          apply Retraces.bind (induction _ left)
          intro _
          exact Retraces.bind (induction _ right) fun _ => .pure _
      | logical left op right =>
          apply Retraces.bind (induction _ left)
          intro _
          exact Retraces.bind (induction _ right) fun _ => .pure _
      | «variable» name site => exact Retraces.bind (.lift _) fun _ => .pure _
      | assign name site value =>
          apply Retraces.bind (induction _ value)
          intro _
          exact Retraces.bind (.lift _) fun _ => .pure _
      | call callee paren args =>
          apply Retraces.bind (induction _ callee)
          intro _
          apply Retraces.bind (each_retraces (fun _ => induction _) 1 args)
          exact fun _ => .pure _
      | get object name => exact Retraces.bind (induction _ object) fun _ => .pure _
      | set object name value =>
          apply Retraces.bind (induction _ value)
          intro _
          exact Retraces.bind (induction _ object) fun _ => .pure _
      | this keyword site =>
          apply Retraces.bind (.lift _)
          intro state
          apply Retraces.ite
          · exact Retraces.bind (.lift _) fun _ => .pure _
          · exact Retraces.bind (.lift _) fun _ => .pure _
      | super keyword method site =>
          apply Retraces.bind (.lift _)
          intro state
          have located := fun (_ : Unit) => Retraces.bind
            (.lift (Scoping.locate .super keyword)) fun found =>
              Retraces.pure (γ := Survey) (ε := TooDeep) (Expr.super keyword method found)
          cases state.classKind with
          | none => exact Retraces.bind (.lift _) located
          | plain => exact Retraces.bind (.lift _) located
          | derived => exact located ()

section Statements

variable {visit : Address → Stmt Unit → Surveying (Stmt Site)}
  {plain : Stmt Unit → Scoping (Stmt Site)}
  (visitRetraces : ∀ address s, Retraces (visit address s) (plain s))

include visitRetraces

theorem functionRest_retraces (kind : FunctionKind) (address : Address)
    (decl : FunctionDecl Unit) :
    Retraces (functionRest visit kind address decl) (Scoping.functionRest plain kind decl) := by
  apply inFunction_retraces
  apply inScope_retraces
  apply Retraces.bind (each_retraces (fun _ => param_retraces) 0 decl.params)
  intro _
  apply Retraces.bind (each_retraces (fun _ => visitRetraces _) 0 decl.body)
  exact fun _ => .pure _

theorem methodsRest_retraces (address : Address) (methods : List (FunctionDecl Unit)) :
    Retraces (methodsRest visit address methods) (Scoping.methodsRest plain methods) := by
  apply inScope_retraces
  apply each_retraces
  intro index method
  exact functionRest_retraces visitRetraces _ _ method

end Statements

theorem superclass_retraces (address : Address) (name : Token) (parent : Superclass Unit) :
    Retraces (superclass address name parent) (Scoping.superclass name parent) := by
  unfold superclass Scoping.superclass
  apply Retraces.whenThen (.lift _)
  apply Retraces.bind (.lift _)
  intro _
  apply Retraces.noteThen
  exact Retraces.bind (.lift _) fun _ => .pure _

theorem stmt_retraces (room : Nat) (address : Address) (s : Stmt Unit) :
    Retraces (stmt room address s) (Scoping.stmt room s) := by
  induction room generalizing address s with
  | zero => exact .throw _
  | succ room induction =>
      apply Retraces.noteThen
      cases s with
      | expression value => exact Retraces.bind (expr_retraces _ _ value) fun _ => .pure _
      | print value => exact Retraces.bind (expr_retraces _ _ value) fun _ => .pure _
      | var name initializer =>
          apply Retraces.bind (declare_retraces name)
          intro _
          apply Retraces.bind (optional_retraces (expr_retraces room _) initializer)
          intro _
          exact Retraces.bind (.lift _) fun _ => .pure _
      | block body =>
          apply Retraces.bind (inScope_retraces (each_retraces (fun _ => induction _) 0 body))
          exact fun _ => .pure _
      | conditional condition thenBranch elseBranch =>
          apply Retraces.bind (expr_retraces _ _ condition)
          intro _
          apply Retraces.bind (induction _ thenBranch)
          intro _
          apply Retraces.bind (optional_retraces (induction _) elseBranch)
          exact fun _ => .pure _
      | loop condition body =>
          apply Retraces.bind (expr_retraces _ _ condition)
          intro _
          exact Retraces.bind (induction _ body) fun _ => .pure _
      | function decl =>
          apply Retraces.bind (declare_retraces decl.name)
          intro _
          apply Retraces.bind (.lift _)
          intro _
          apply Retraces.bind (functionRest_retraces induction _ address decl)
          exact fun _ => .pure _
      | «return» keyword value =>
          apply Retraces.bind (.lift _)
          intro state
          apply Retraces.whenThen (.lift _)
          cases value with
          | none => exact .pure _
          | some result =>
              apply Retraces.bind (.lift _)
              intro _
              apply Retraces.whenThen (.lift _)
              exact Retraces.bind (expr_retraces _ _ result) fun _ => .pure _
      | «class» name parent methods =>
          apply inClass_retraces
          apply Retraces.bind (declare_retraces name)
          intro _
          apply Retraces.bind (.lift _)
          intro _
          cases parent with
          | none =>
              apply Retraces.bind (methodsRest_retraces induction address methods)
              exact fun _ => .pure _
          | some parent =>
              apply Retraces.bind (superclass_retraces _ name parent)
              intro _
              apply Retraces.bind
                (inScope_retraces (methodsRest_retraces induction address methods))
              exact fun _ => .pure _
      | lost => exact .pure _

end LoxLang.Surveying
