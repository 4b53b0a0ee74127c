import LoxLang.Proofs.Run.History
import LoxLang.Session

/-!
# The run under observation is the run

Without the notes, watching a run changes nothing: every part of the watched run
retraces the plain one.
-/

namespace LoxLang.Watching

open Watched (Retraces lift note consult)

variable {α : Type}

theorem inFrame_retraces {frame : FrameId} {part : Watching α} {plain : Run α}
    (partRetraces : Retraces part plain) :
    Retraces (inFrame frame part) (Run.inFrame frame plain) := by
  intro start
  have same := partRetraces ⟨{ start.state with current := frame }, start.notes⟩
  unfold inFrame Run.inFrame
  rw [← same]
  cases part ⟨{ start.state with current := frame }, start.notes⟩ <;> rfl

theorem catchOverflow_retraces {about : Token} {part : Watching α} {plain : Run α}
    (partRetraces : Retraces part plain) :
    Retraces (catchOverflow about part) (Run.catchOverflow about plain) := by
  intro start
  have same := partRetraces start
  unfold catchOverflow Run.catchOverflow
  rw [← same]
  cases part start with
  | ok result after => rfl
  | error stop after => cases stop <;> rfl

theorem makeClosure_retraces (origin : Address) (decl : FunctionDecl Site) (frame : FrameId)
    (isInitializer : Bool) :
    Retraces (makeClosure origin decl frame isInitializer)
      (Run.makeClosure decl frame isInitializer) := by
  apply Retraces.bind (.lift _)
  intro serial
  exact Retraces.noteThen (.pure _)

theorem bind_retraces (method : Closure) (object : Value) :
    Retraces (bind method object) (Run.bind method object) := by
  apply Retraces.consultThen
  intro origin
  apply Retraces.bind (.lift _)
  intro frame
  apply Retraces.bind (.lift _)
  intro _
  exact makeClosure_retraces _ _ _ _

theorem evalEach_retraces {evaluate : Nat → Expr Site → Watching Value}
    {plain : Expr Site → Run Value} (retraces : ∀ index e, Retraces (evaluate index e) (plain e))
    (index : Nat) (parts : List (Expr Site)) :
    Retraces (evalEach evaluate index parts) (Run.evalEach plain parts) := by
  induction parts generalizing index with
  | nil => exact .pure []
  | cons first rest induction =>
      apply Retraces.bind (retraces index first)
      intro value
      exact Retraces.bind (induction (index + 1)) fun values => .pure (value :: values)

theorem execEach_retraces {execute : Nat → Stmt Site → Watching Completion}
    {plain : Stmt Site → Run Completion}
    (retraces : ∀ index s, Retraces (execute index s) (plain s)) (index : Nat)
    (parts : List (Stmt Site)) :
    Retraces (execEach execute index parts) (Run.execEach plain parts) := by
  induction parts generalizing index with
  | nil => exact .pure Completion.normal
  | cons first rest induction =>
      apply Retraces.bind (retraces index first)
      intro completion
      cases completion with
      | normal => exact induction (index + 1)
      | returned value => exact .pure _

theorem iterate_retraces {condition : Watching Value} {plainCondition : Run Value}
    {body : Watching Completion} {plainBody : Run Completion}
    (conditionRetraces : Retraces condition plainCondition)
    (bodyRetraces : Retraces body plainBody) (patience : Nat) :
    Retraces (iterate condition body patience)
      (Run.iterate plainCondition plainBody patience) := by
  induction patience with
  | zero => exact .throw _
  | succ patience induction =>
      apply Retraces.bind conditionRetraces
      intro value
      apply Retraces.ite
      · apply Retraces.bind bodyRetraces
        intro completion
        cases completion with
        | normal => exact induction
        | returned value => exact .pure _
      · exact .pure _

section Calls

variable {execute : Address → Stmt Site → Watching Completion} {plain : Stmt Site → Run Completion}
  (retraces : ∀ address s, Retraces (execute address s) (plain s))

include retraces

theorem callClosure_retraces (closure : Closure) (args : List Value) :
    Retraces (callClosure execute closure args) (Run.callClosure plain closure args) := by
  apply Retraces.consultThen
  intro origin
  apply Retraces.bind (.lift _)
  intro frame
  apply Retraces.bind (.lift _)
  intro _
  apply Retraces.bind (inFrame_retraces (execEach_retraces (fun _ => retraces _) 0 _))
  intro completion
  apply Retraces.ite
  · exact .lift _
  · cases completion with
    | normal => exact .pure _
    | returned value => exact .pure _

theorem callClass_retraces (cls : ClassValue) (args : List Value) :
    Retraces (callClass execute cls args) (Run.callClass plain cls args) := by
  apply Retraces.bind (.lift _)
  intro object
  cases cls.initializer? with
  | none => exact .pure _
  | some initializer =>
      apply Retraces.bind (bind_retraces initializer object)
      intro bound
      exact Retraces.bind (callClosure_retraces retraces bound args) fun _ => .pure _

theorem callValue_retraces (host : Host) (paren : Token) (callee : Value) (args : List Value) :
    Retraces (callValue host execute paren callee args)
      (Run.callValue host plain paren callee args) := by
  unfold callValue Run.callValue
  cases callee with
  | primitive function => exact Retraces.ite (catchOverflow_retraces (.lift _)) (.lift _)
  | closure closure =>
      exact Retraces.ite (catchOverflow_retraces (callClosure_retraces retraces closure args))
        (.lift _)
  | «class» cls =>
      exact Retraces.ite (catchOverflow_retraces (callClass_retraces retraces cls args)) (.lift _)
  | _ => exact .lift _

end Calls

theorem property_retraces (object : Value) (name : Token) :
    Retraces (property object name) (Run.property object name) := by
  unfold property Run.property
  cases object with
  | object id cls =>
      apply Retraces.bind (.lift _)
      intro found
      cases found with
      | some value => exact .pure _
      | none =>
          dsimp only
          cases cls.method? name.lexeme with
          | some method => exact Retraces.bind (bind_retraces _ _) fun _ => .pure _
          | none => exact .lift _
  | _ => exact .lift _

theorem superMethod_retraces (method : Token) (site : Site) :
    Retraces (superMethod method site) (Run.superMethod method site) := by
  unfold superMethod Run.superMethod
  cases site with
  | none => exact .lift _
  | some distance =>
      apply Retraces.bind (.lift _)
      intro frame
      apply Retraces.bind (.lift _)
      intro superclass
      apply Retraces.bind (.lift _)
      intro object
      cases superclass with
      | «class» cls =>
          dsimp only
          cases cls.method? method.lexeme with
          | some inherited => exact Retraces.bind (bind_retraces _ _) fun _ => .pure _
          | none => exact .lift _
      | _ => exact .lift _

theorem superclass?_retraces (address : Address) (parent : Option (Superclass Site)) :
    Retraces (superclass? address parent) (Run.superclass? parent) := by
  cases parent with
  | none => exact .pure none
  | some parent =>
      apply Retraces.noteThen
      apply Retraces.bind (.lift _)
      intro value
      cases value with
      | «class» cls => exact .pure _
      | _ => exact .lift _

theorem methodTable_retraces (address : Address) (frame : FrameId) (index : Nat)
    (table : Table Closure) (methods : List (FunctionDecl Site)) :
    Retraces (methodTable address frame index table methods)
      (Run.methodTable frame table methods) := by
  induction methods generalizing index table with
  | nil => exact .pure table
  | cons first rest induction =>
      apply Retraces.bind (makeClosure_retraces _ _ _ _)
      intro method
      exact induction _ _

theorem declareClass_retraces (address : Address) (name : Token)
    (parent : Option (Superclass Site)) (methods : List (FunctionDecl Site)) :
    Retraces (declareClass address name parent methods)
      (Run.declareClass name parent methods) := by
  apply Retraces.bind (superclass?_retraces _ parent)
  intro superclass
  apply Retraces.bind (.lift _)
  intro frame
  apply Retraces.bind (.lift _)
  intro _
  apply Retraces.bind (.lift _)
  intro inner
  apply Retraces.bind (methodTable_retraces _ _ _ _ methods)
  intro table
  exact Retraces.bind (.lift _) fun _ => .lift _

mutual

theorem eval_retraces (host : Host) (room : Nat) (address : Address) (e : Expr Site) :
    Retraces (eval host room address e) (Run.eval host room e) := by
  cases room with
  | zero => exact Retraces.noteThen (.throw _)
  | succ room =>
      apply Retraces.noteThen
      cases e with
      | literal value => exact .pure _
      | grouping inner => exact eval_retraces host room _ inner
      | unary op operand =>
          exact Retraces.bind (eval_retraces host room _ operand) fun _ => .lift _
      | binary left op right =>
          apply Retraces.bind (eval_retraces host room _ left)
          intro _
          exact Retraces.bind (eval_retraces host room _ right) fun _ => .lift _
      | logical left op right =>
          apply Retraces.bind (eval_retraces host room _ left)
          intro _
          exact Retraces.ite (.pure _) (eval_retraces host room _ right)
      | «variable» name site => exact .lift _
      | assign name site value =>
          apply Retraces.bind (eval_retraces host room _ value)
          intro _
          exact Retraces.bind (.lift _) fun _ => .pure _
      | call callee paren args =>
          apply Retraces.bind (eval_retraces host room _ callee)
          intro _
          apply Retraces.bind (evalEach_retraces (fun _ => eval_retraces host room _) 1 args)
          intro _
          exact callValue_retraces (exec_retraces host room) host paren _ _
      | get object name =>
          exact Retraces.bind (eval_retraces host room _ object) fun _ => property_retraces _ _
      | set object name value =>
          apply Retraces.bind (eval_retraces host room _ object)
          intro target
          cases target with
          | object id cls =>
              apply Retraces.bind (eval_retraces host room _ value)
              intro _
              exact Retraces.bind (.lift _) fun _ => .pure _
          | _ => exact .lift _
      | this keyword site => exact .lift _
      | super keyword method site => exact superMethod_retraces method site

theorem exec_retraces (host : Host) (room : Nat) (address : Address) (s : Stmt Site) :
    Retraces (exec host room address s) (Run.exec host room s) := by
  cases room with
  | zero => exact Retraces.noteThen (.throw _)
  | succ room =>
      apply Retraces.noteThen
      cases s with
      | expression value => exact Retraces.bind (eval_retraces host room _ value) fun _ => .pure _
      | print value =>
          apply Retraces.bind (eval_retraces host room _ value)
          intro _
          exact Retraces.bind (.lift _) fun _ => .pure _
      | var name initializer =>
          cases initializer with
          | none => exact Retraces.bind (.lift _) fun _ => .pure _
          | some value =>
              apply Retraces.bind (eval_retraces host room _ value)
              intro _
              exact Retraces.bind (.lift _) fun _ => .pure _
      | block body =>
          apply Retraces.bind (.lift _)
          intro _
          apply Retraces.bind (.lift _)
          intro _
          exact inFrame_retraces (execEach_retraces (fun _ => exec_retraces host room _) 0 body)
      | conditional condition thenBranch elseBranch =>
          apply Retraces.bind (eval_retraces host room _ condition)
          intro _
          apply Retraces.ite
          · exact exec_retraces host room _ thenBranch
          · cases elseBranch with
            | none => exact .pure _
            | some branch => exact exec_retraces host room _ branch
      | loop condition body =>
          exact iterate_retraces (eval_retraces host room _ condition)
            (exec_retraces host room _ body) host.patience
      | function decl =>
          apply Retraces.bind (.lift _)
          intro _
          apply Retraces.bind (makeClosure_retraces _ _ _ _)
          intro _
          exact Retraces.bind (.lift _) fun _ => .pure _
      | «return» keyword value =>
          cases value with
          | none => exact .pure _
          | some result =>
              exact Retraces.bind (eval_retraces host room _ result) fun _ => .pure _
      | «class» name parent methods =>
          exact Retraces.bind (declareClass_retraces _ name parent methods) fun _ => .pure _
      | lost => exact .lift _

end

theorem program_retraces (host : Host) (root : Address) (index : Nat)
    (statements : List (Stmt Site)) :
    Retraces (program host root index statements) (Run.program host statements) := by
  induction statements generalizing index with
  | nil => exact .pure ()
  | cons first rest induction =>
      exact Retraces.bind (exec_retraces host _ _ first) fun _ => induction (index + 1)

end LoxLang.Watching
