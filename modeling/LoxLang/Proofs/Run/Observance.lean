import LoxLang.Proofs.Run.Discipline
import LoxLang.Proofs.Run.Return

/-!
# Runs observe protocols

Whatever the protocol, an expression or a statement that may be run where the machine is
keeps everything in order, and yields only good values.  The induction is on the
room; what happens inside of a call happens with less room.
-/

namespace LoxLang

/-- A value that is found from a frame is bound somewhere. -/
theorem Forest.bound_of_get {V : Type} {forest : Forest V} {frame : FrameId} {name : String}
    {value : V} (found : forest.get frame name = .ok value) :
    ∃ holder, (forest.bindings holder).get? name = some value := by
  unfold Forest.get at found
  split at found
  · rename_i some same
    cases found
    obtain ⟨holder, -, bound⟩ := List.exists_of_findSome?_eq_some same
    exact ⟨holder, bound⟩
  · cases found

theorem Forest.bound_of_getAt {V : Type} {forest : Forest V} {frame : FrameId} {distance : Nat}
    {name : String} {value : V} (found : forest.getAt frame distance name = .ok value) :
    ∃ holder, (forest.bindings holder).get? name = some value := by
  unfold Forest.getAt at found
  cases ancestor : forest.ancestor frame distance with
  | error error =>
      rw [ancestor] at found
      cases found
  | ok holder =>
      rw [ancestor] at found
      simp only [bind, Except.bind] at found
      split at found
      · rename_i some same
        cases found
        exact ⟨holder, same⟩
      · cases found

/-- Operators on numbers yield numbers and truth values. -/
theorem numberOperator_isPlain {kind : TokenKind} {operator : Float → Float → Value}
    (found : numberOperator kind = some operator) (left right : Float) :
    (operator left right).IsPlain := by
  unfold numberOperator at found
  split at found <;> cases found <;> trivial

namespace Protocol.Keeps

open Watched (lift)
open Watching

variable {law : Protocol} {start : Running}

theorem applyUnary {op : Token} {operand : Value} (ok : law.Ok start) :
    law.Keeps start (lift (Run.applyUnary op operand)) law.Good := by
  apply look ok
  unfold Run.applyUnary
  split
  · exact .inl ⟨_, rfl, law.plain trivial⟩
  · split
    · exact .inl ⟨_, rfl, law.plain trivial⟩
    · exact .inr ⟨_, rfl⟩

theorem add {op : Token} {left right : Value} (ok : law.Ok start) :
    law.Keeps start (lift (Run.add op left right)) law.Good := by
  apply look ok
  unfold Run.add
  split
  · exact .inl ⟨_, rfl, law.plain trivial⟩
  · exact .inl ⟨_, rfl, law.plain trivial⟩
  · exact .inr ⟨_, rfl⟩

theorem applyToNumbers {op : Token} {left right : Value} (ok : law.Ok start) :
    law.Keeps start (lift (Run.applyToNumbers op left right)) law.Good := by
  apply look ok
  unfold Run.applyToNumbers
  split
  · cases found : numberOperator op.kind with
    | none => exact .inr ⟨_, rfl⟩
    | some operator => exact .inl ⟨_, rfl, law.plain (numberOperator_isPlain found _ _)⟩
  · exact .inr ⟨_, rfl⟩

theorem applyBinary {op : Token} {left right : Value} (ok : law.Ok start) :
    law.Keeps start (lift (Run.applyBinary op left right)) law.Good := by
  unfold Run.applyBinary
  split
  · exact pure ok (law.plain trivial)
  · exact pure ok (law.plain trivial)
  · exact add ok
  · exact applyToNumbers ok

theorem readClock {host : Host} (ok : law.Ok start) :
    law.Keeps start (lift (Run.readClock host)) law.Good :=
  effects (.lift rfl) (law.rest ok rfl rfl (Nat.le_refl _) rfl) rfl fun _ _ => law.plain trivial

theorem emit {line : String} (ok : law.Ok start) :
    law.Keeps start (lift (Run.emit line)) fun _ _ => True :=
  effects (.lift rfl) (law.rest ok rfl rfl (Nat.le_refl _) rfl) rfl fun _ _ => trivial

/-- Looking a name up changes nothing. -/
theorem lookUp_stays {name : Token} {site : Site} (ok : law.Ok start) :
    law.Keeps start (lift (Run.lookUp name site)) fun value running =>
      law.Good value running ∧ running = start := by
  apply look ok
  unfold Run.lookUp
  split
  · rename_i value found
    refine .inl ⟨value, rfl, ?_, rfl⟩
    have bound : ∃ holder, (start.state.forest.bindings holder).get? name.lexeme = some value := by
      cases site with
      | none => exact Forest.bound_of_get found
      | some distance => exact Forest.bound_of_getAt found
    obtain ⟨holder, bound⟩ := bound
    exact law.bound ok bound
  · exact .inr ⟨_, rfl⟩

theorem lookUp {name : Token} {site : Site} (ok : law.Ok start) :
    law.Keeps start (lift (Run.lookUp name site)) law.Good :=
  (lookUp_stays ok).mono fun _ _ found => found.1

theorem lookUpAt {frame : FrameId} {distance : Nat} {name : String} (ok : law.Ok start) :
    law.Keeps start (lift (Run.lookUpAt frame distance name)) fun value running =>
      law.Good value running ∧
        ∃ holder, (running.state.forest.bindings holder).get? name = some value := by
  apply look ok
  unfold Run.lookUpAt
  split
  · rename_i value found
    obtain ⟨holder, bound⟩ := Forest.bound_of_getAt found
    exact .inl ⟨value, rfl, law.bound ok bound, holder, bound⟩
  · exact .inr ⟨_, rfl⟩

theorem evalEach {evaluate : Nat → Expr Site → Watching Value} {index : Nat}
    {parts : List (Expr Site)} (ok : law.Ok start)
    (fits : ∀ part ∈ parts, law.Fits start start.state.current (.expr part))
    (evaluates : ∀ start index part, law.Ok start →
      law.Fits start start.state.current (.expr part) →
      law.Keeps start (evaluate index part) law.Good) :
    law.Keeps start (Watching.evalEach evaluate index parts) law.AllGood := by
  induction parts generalizing start index with
  | nil => exact pure ok nofun
  | cons first rest induction =>
      obtain ⟨firstFits, restFit⟩ := List.forall_mem_cons.1 fits
      apply bind (evaluates start index first ok firstFits)
      intro value middle led valueGood
      apply bind (induction led.ok fun part member => led.fits (restFit part member))
      intro values last lastLed valuesGood
      exact pure lastLed.ok (List.forall_mem_cons.2 ⟨lastLed.good valueGood, valuesGood⟩)

theorem iterate {condition : Watching Value} {body : Watching Completion} {patience : Nat}
    {whole : Part Site} (ok : law.Ok start)
    (fits : law.Fits start start.state.current whole)
    (conditionKeeps : ∀ start, law.Ok start →
      law.Fits start start.state.current whole → law.Keeps start condition law.Good)
    (bodyKeeps : ∀ start, law.Ok start →
      law.Fits start start.state.current whole → law.Keeps start body law.GoodEnd) :
    law.Keeps start (Watching.iterate condition body patience) law.GoodEnd := by
  induction patience generalizing start with
  | zero => exact throw ok
  | succ patience induction =>
      apply bind (conditionKeeps start ok fits)
      intro value middle led _
      apply ite
      · intro _
        apply bind (bodyKeeps middle led.ok (led.fits fits))
        intro completion last lastLed good
        cases completion with
        | normal => exact induction lastLed.ok (lastLed.fits (led.fits fits))
        | returned value => exact pure lastLed.ok good
      · intro _
        exact pure led.ok trivial

/-- The arguments of a call lie directly in it. -/
theorem argsFit {running : Running} {frame : FrameId} {callee : Expr Site} {paren : Token}
    {args : List (Expr Site)} (fits : law.Fits running frame (.expr (.call callee paren args))) :
    ∀ arg ∈ args, law.Fits running frame (.expr arg) := by
  intro arg member
  obtain ⟨index, there⟩ := List.getElem?_of_mem member
  exact law.inside (index + 1) fits (by simp [Part.children, there]) rfl

/-- Binding a method of a good class. -/
theorem bindMethod {cls : ClassValue} {name : String} {method : Closure} {object : Value}
    (ok : law.Ok start) (classGood : law.Good (.class cls) start)
    (found : cls.method? name = some method) (objectGood : law.Good object start)
    (receiver : start.state.IsReceiver object) :
    law.Keeps start (Watching.bind method object) fun bound running =>
      law.Good (.closure bound) running ∧ bound.decl = method.decl := by
  obtain ⟨leads, good⟩ := law.tie ok classGood found objectGood receiver
  exact effects (bind_effects _ _ method object) leads rfl
    fun _ follows => ⟨law.good_later follows good, rfl⟩

theorem callWith {paren : Token} {arity : Nat} {args : List Value} {body : Watching Value}
    (ok : law.Ok start)
    (keeps : args.length = arity → law.Keeps start body law.Good) :
    law.Keeps start (Watching.callWith paren arity args body) law.Good :=
  ite (fun enough => (keeps enough).catchOverflow) fun _ => fault ok

section Calls

variable {execute : Address → Stmt Site → Watching Completion}
  (executes : ∀ start address s, law.Ok start →
    law.Fits start start.state.current (.stmt s) →
    law.Keeps start (execute address s) law.GoodEnd)

include executes

theorem execEach {address : Address} {index : Nat} {body : List (Stmt Site)}
    (ok : law.Ok start)
    (fits : ∀ s ∈ body, law.Fits start start.state.current (.stmt s)) :
    law.Keeps start (Watching.execEach (fun index => execute (address.child index)) index body)
      law.GoodEnd := by
  induction body generalizing start index with
  | nil => exact pure ok trivial
  | cons first rest induction =>
      obtain ⟨firstFits, restFit⟩ := List.forall_mem_cons.1 fits
      apply bind (executes start (address.child index) first ok firstFits)
      intro completion middle led good
      cases completion with
      | normal => exact induction led.ok fun s member => led.fits (restFit s member)
      | returned value => exact pure led.ok good

/-- Statements in a frame of their own. -/
theorem execInside {address : Address} {frame : FrameId} {body : List (Stmt Site)}
    (ok : law.Ok start) (fits : ∀ s ∈ body, law.Fits start frame (.stmt s)) :
    law.Keeps start (Watching.inFrame frame
      (Watching.execEach (fun index => execute (address.child index)) 0 body)) law.GoodEnd :=
  inFrame ok (fun _ _ _ => law.goodEnd_later) fun entered =>
    execEach executes entered.ok fun s member => law.fits_later entered.follows (fits s member)

theorem callClosure {closure : Closure} {args : List Value} (ok : law.Ok start)
    (closureGood : law.Good (.closure closure) start)
    (argsGood : law.AllGood args start) (lengths : args.length = closure.arity) :
    law.Keeps start (Watching.callClosure execute closure args) law.Good := by
  obtain ⟨leads, fits⟩ := law.call ok closureGood argsGood lengths
  let body : Watching Value := do
    let completion ← Watching.inFrame start.state.forest.size (Watching.execEach
      (fun index => execute ((start.notes.origins closure.serial).child index)) 0
      closure.decl.body)
    answer closure completion
  have led : law.Led start (start.become (start.state.entered closure args)) := ⟨leads, rfl⟩
  have same : Watching.callClosure execute closure args start =
      body (start.become (start.state.entered closure args)) := by
    show EStateM.bind (lift (Run.defineParams start.state.forest.size closure.decl.params args))
      (fun _ => body) ⟨start.state.child closure.frame, start.notes⟩ = _
    unfold EStateM.bind lift
    rw [defineParams_eq]
    rfl
  apply via led same
  apply bind (execInside executes led.ok fits)
  intro completion last lastLed good
  apply ite
  · intro _
    exact (lookUpAt lastLed.ok).mono fun _ _ found => found.1
  · intro _
    cases completion with
    | normal => exact pure lastLed.ok (law.plain trivial)
    | returned value => exact pure lastLed.ok good

theorem callClass {cls : ClassValue} {args : List Value} (ok : law.Ok start)
    (classGood : law.Good (.class cls) start) (argsGood : law.AllGood args start)
    (lengths : args.length = cls.arity) :
    law.Keeps start (Watching.callClass execute cls args) law.Good := by
  obtain ⟨leads, created⟩ := law.create ok classGood
  have makes : law.Keeps start (lift (Run.newObject cls)) fun object running =>
      law.Good object running ∧ running.state.IsReceiver object :=
    effects (.lift rfl) leads rfl
      fun _ follows => ⟨law.good_later follows created, .inl ⟨_, _, rfl⟩⟩
  apply bind makes
  rintro object middle led ⟨objectGood, receiver⟩
  cases found : cls.initializer? with
  | none => exact pure led.ok objectGood
  | some initializer =>
      apply bind (bindMethod led.ok (led.good classGood) found objectGood receiver)
      rintro bound last lastLed ⟨boundGood, sameDecl⟩
      have arity : args.length = bound.arity := by
        unfold Closure.arity
        rw [sameDecl, lengths]
        unfold ClassValue.arity
        rw [found]
        rfl
      have called := callClosure executes lastLed.ok boundGood
        (fun arg member => lastLed.good (led.good (argsGood arg member))) arity
      apply bind called
      intro _ final finalLed _
      exact pure finalLed.ok (finalLed.good (lastLed.good objectGood))

theorem callValue {host : Host} {paren : Token} {callee : Value} {args : List Value}
    (ok : law.Ok start) (calleeGood : law.Good callee start)
    (argsGood : law.AllGood args start) :
    law.Keeps start (Watching.callValue host execute paren callee args) law.Good := by
  cases callee with
  | primitive function => exact callWith ok fun _ => readClock ok
  | closure closure =>
      exact callWith ok (callClosure executes ok calleeGood argsGood)
  | «class» cls => exact callWith ok (callClass executes ok calleeGood argsGood)
  | _ => exact fault ok

end Calls

/-- A property is a field, or else a method bound to the object. -/
theorem property {object : Value} {name : Token} (ok : law.Ok start)
    (objectGood : law.Good object start) :
    law.Keeps start (Watching.property object name) law.Good := by
  cases object with
  | object id cls =>
      have looks : law.Keeps start (lift (Run.field? id name.lexeme)) fun found running =>
          ∀ value ∈ found, law.Good value running :=
        look ok (.inl ⟨_, rfl, fun value found => law.field ok found⟩)
      apply bind looks
      intro value middle led valueGood
      cases value with
      | some value => exact pure led.ok (valueGood value rfl)
      | none =>
          cases found : cls.method? name.lexeme with
          | none =>
              simp only
              exact fault led.ok
          | some method =>
              simp only
              have objectGood := led.good objectGood
              apply bind (bindMethod led.ok (law.classOf objectGood) found objectGood
                (.inl ⟨id, cls, rfl⟩))
              rintro closure last lastLed ⟨closureGood, -⟩
              exact pure lastLed.ok closureGood
  | _ => exact fault ok

theorem superMethod {method : Token} {site : Site} (ok : law.Ok start) :
    law.Keeps start (Watching.superMethod method site) law.Good := by
  cases site with
  | none => exact defect ok
  | some distance =>
      apply bind (lookUpAt ok)
      rintro superclass middle led ⟨superGood, -⟩
      apply bind (lookUpAt led.ok)
      rintro object last lastLed ⟨objectGood, holder, bound⟩
      cases superclass with
      | «class» cls =>
          cases found : cls.method? method.lexeme with
          | none =>
              simp only [found]
              exact fault lastLed.ok
          | some superMethod =>
              simp only [found]
              apply bind (bindMethod lastLed.ok (lastLed.good superGood) found objectGood
                (.inr ⟨holder, bound⟩))
              rintro closure final finalLed ⟨closureGood, -⟩
              exact pure finalLed.ok closureGood
      | _ => exact defect lastLed.ok

/-- The superclass is looked up like a variable, and a class if the run goes on. -/
theorem superclass? {address : Address} {parent : Option (Superclass Site)} {s : Stmt Site}
    (ok : law.Ok start)
    (fits : ∀ named ∈ parent, law.Fits start start.state.current (.superclass named))
    (arrived : start.At s) :
    law.Keeps start (Watching.superclass? address parent) fun superclass running =>
      running.At s ∧ superclass.isSome = parent.isSome ∧
        ∀ cls ∈ superclass, law.Good (.class cls) running := by
  cases parent with
  | none => exact pure ok ⟨arrived, rfl, nofun⟩
  | some named =>
      apply bind (come address (.expr (.variable named.name named.site)) ok
        (law.superclass (fits named rfl)))
      rintro _ _ led rfl
      apply bind (lookUp_stays led.ok)
      rintro value _ lastLed ⟨good, rfl⟩
      cases value with
      | «class» cls =>
          refine pure lastLed.ok ⟨arrived.come _ _, rfl, ?_⟩
          rintro found ⟨⟩
          exact good
      | _ => exact fault lastLed.ok

theorem declareClass {address : Address} {name : Token} {parent : Option (Superclass Site)}
    {methods : List (FunctionDecl Site)} (ok : law.Ok start)
    (fits : law.Fits start start.state.current (.stmt (.class name parent methods)))
    (arrived : start.At (.class name parent methods)) :
    law.Keeps start (Watching.declareClass address name parent methods) fun _ _ => True := by
  have parentFits : ∀ named ∈ parent,
      law.Fits start start.state.current (.superclass named) := by
    rintro named ⟨⟩
    exact law.inside 0 fits rfl rfl
  apply bind (superclass? ok parentFits arrived)
  rintro superclass middle led ⟨arrived, sameKind, good⟩
  have leads := law.declareClass led.ok (led.fits fits) arrived sameKind good
  exact effects (classRest_effects _ _ _ name superclass methods) leads
    (Machine.current_withClass _ _ _ _) fun _ _ => trivial

/-- Storing the value of an assignment. -/
theorem store {name : Token} {site : Site} {source : Expr Site} {value : Value}
    (ok : law.Ok start)
    (fits : law.Fits start start.state.current (.expr (.assign name site source)))
    (good : law.Good value start) :
    law.Keeps start (lift (Run.store name site value)) fun _ _ => True := by
  cases found : Run.target start.state.forest start.state.current name.lexeme site with
  | ok frame =>
      have ends : Run.store name site value start.state =
          .ok () (start.state.define frame name.lexeme value) := by
        unfold Run.store
        rw [found]
        rfl
      exact effects (.lift ends) (law.assign ok fits good found) rfl fun _ _ => trivial
  | error error =>
      refine look ok (.inr ⟨Run.accessStop name site error, ?_⟩)
      unfold Run.store
      rw [found]

theorem setField {id : Nat} {cls : ClassValue} {name : String} {value : Value}
    (ok : law.Ok start) (objectGood : law.Good (.object id cls) start)
    (good : law.Good value start) :
    law.Keeps start (lift (Run.setField id name value)) fun _ _ => True :=
  effects (.lift rfl) (law.set ok objectGood good) rfl fun _ _ => trivial

/-- Declaring a variable. -/
theorem defineHere {name : Token} {initializer : Option (Expr Site)} {value : Value}
    (ok : law.Ok start)
    (fits : law.Fits start start.state.current (.stmt (.var name initializer)))
    (good : law.Good value start) :
    law.Keeps start (do
      lift (Run.defineHere name.lexeme value)
      return Completion.normal) law.GoodEnd := by
  have declares : law.Keeps start (lift (Run.defineHere name.lexeme value)) fun _ _ => True :=
    effects (.lift rfl) (law.declareVar ok fits good) rfl fun _ _ => trivial
  apply bind declares
  exact fun _ _ led _ => pure led.ok trivial

theorem block {execute : Address → Stmt Site → Watching Completion}
    (executes : ∀ start address s, law.Ok start →
      law.Fits start start.state.current (.stmt s) →
      law.Keeps start (execute address s) law.GoodEnd)
    {address : Address} {body : List (Stmt Site)} (ok : law.Ok start)
    (fits : law.Fits start start.state.current (.stmt (.block body))) :
    law.Keeps start (do
      let frame ← lift (Run.childOf (← lift Run.here))
      Watching.inFrame frame
        (Watching.execEach (fun index => execute (address.child index)) 0 body)) law.GoodEnd := by
  obtain ⟨leads, inside⟩ := law.block ok fits
  have led : law.Led start (start.become (start.state.child start.state.current)) := ⟨leads, rfl⟩
  exact via led rfl (execInside executes led.ok inside)

-- By recursion on the room, as runs are: what is inside a node, and the body of what is called, has
-- less of it.
mutual

theorem eval (host : Host) (room : Nat) {start : Running} {address : Address}
    {e : Expr Site} (ok : law.Ok start)
    (fits : law.Fits start start.state.current (.expr e)) :
    law.Keeps start (Watching.eval host room address e) law.Good := by
  have arrives := come address (.expr e) ok fits
  cases room with
  | zero => exact bind arrives fun _ _ led _ => throw led.ok
  | succ room =>
      apply bind arrives
      intro _ middle led _
      have ok := led.ok
      have fits := led.fits fits
      cases e with
      | literal value => cases value <;> exact pure ok (law.plain trivial)
      | grouping inner => exact eval host room ok (law.inside 0 fits rfl rfl)
      | unary op operand =>
          apply bind (eval host room ok (law.inside 0 fits rfl rfl))
          exact fun _ _ led _ => applyUnary led.ok
      | binary left op right =>
          apply bind (eval host room ok (law.inside 0 fits rfl rfl))
          intro _ second led _
          apply bind (eval host room led.ok (led.fits (law.inside 1 fits rfl rfl)))
          exact fun _ _ led _ => applyBinary led.ok
      | logical left op right =>
          apply bind (eval host room ok (law.inside 0 fits rfl rfl))
          intro value second led good
          exact ite (fun _ => pure led.ok good) fun _ =>
            eval host room led.ok (led.fits (law.inside 1 fits rfl rfl))
      | «variable» name site => exact lookUp ok
      | assign name site value =>
          apply bind (eval host room ok (law.inside 0 fits rfl rfl))
          intro value second led good
          apply bind (store led.ok (led.fits fits) good)
          exact fun _ _ lastLed _ => pure lastLed.ok (lastLed.good good)
      | call callee paren args =>
          apply bind (eval host room ok (law.inside 0 fits rfl rfl))
          intro callee second led calleeGood
          apply bind (evalEach led.ok (argsFit (led.fits fits)) fun start index arg =>
            eval host room)
          exact fun _ _ lastLed argsGood => callValue (exec host room) lastLed.ok
            (lastLed.good calleeGood) argsGood
      | get object name =>
          apply bind (eval host room ok (law.inside 0 fits rfl rfl))
          exact fun _ _ led good => property led.ok good
      | set object name value =>
          apply bind (eval host room ok (law.inside 0 fits rfl rfl))
          intro object second led objectGood
          cases object with
          | object id cls =>
              apply bind (eval host room led.ok (led.fits (law.inside 1 fits rfl rfl)))
              intro value third lastLed good
              apply bind (setField lastLed.ok (lastLed.good objectGood) good)
              exact fun _ _ lastLed _ => pure lastLed.ok (lastLed.good good)
          | _ => exact fault led.ok
      | this keyword site => exact lookUp ok
      | super keyword method site => exact superMethod ok

theorem exec (host : Host) (room : Nat) (start : Running) (address : Address)
    (s : Stmt Site) (ok : law.Ok start)
    (fits : law.Fits start start.state.current (.stmt s)) :
    law.Keeps start (Watching.exec host room address s) law.GoodEnd := by
  have arrives := come address (.stmt s) ok fits
  cases room with
  | zero => exact bind arrives fun _ _ led _ => throw led.ok
  | succ room =>
      apply bind arrives
      rintro _ _ led rfl
      have arrived := start.at_come address s
      have ok := led.ok
      have fits := led.fits fits
      cases s with
      | expression value =>
          apply bind (eval host room ok (law.inside 0 fits rfl rfl))
          exact fun _ _ led _ => pure led.ok trivial
      | print value =>
          apply bind (eval host room ok (law.inside 0 fits rfl rfl))
          intro value second led _
          apply bind (emit led.ok)
          exact fun _ _ led _ => pure led.ok trivial
      | var name initializer =>
          cases initializer with
          | none => exact defineHere ok fits (law.plain trivial)
          | some initializer =>
              apply bind (eval host room ok (law.inside 0 fits rfl rfl))
              exact fun _ _ led good => defineHere led.ok (led.fits fits) good
      | block body => exact block (exec host room) ok fits
      | conditional condition thenBranch elseBranch =>
          apply bind (eval host room ok (law.inside 0 fits rfl rfl))
          intro value second led _
          apply ite
          · intro _
            exact exec host room _ _ _ led.ok (led.fits (law.inside 1 fits rfl rfl))
          · intro _
            cases elseBranch with
            | none => exact pure led.ok trivial
            | some branch =>
                exact exec host room _ _ _ led.ok (led.fits (law.inside 2 fits rfl rfl))
      | loop condition body =>
          exact iterate ok fits
            (fun start ok fits => eval host room ok (law.inside 0 fits rfl rfl))
            fun start ok fits =>
              exec host room _ _ _ ok (law.inside 1 fits rfl rfl)
      | function decl =>
          exact effects (function_effects _ _ address decl)
            (law.declareFunction ok fits arrived) rfl fun _ _ => trivial
      | «return» keyword value =>
          cases value with
          | none => exact pure ok (law.plain trivial)
          | some value =>
              apply bind (eval host room ok (law.inside 0 fits rfl rfl))
              exact fun _ _ led good => pure led.ok good
      | «class» name parent methods =>
          apply bind (declareClass ok fits arrived)
          exact fun _ _ led _ => pure led.ok trivial
      | lost => exact defect ok

end

/-- The statements of a program in turn. -/
theorem program (host : Host) {root : Address} {index : Nat} {statements : List (Stmt Site)}
    (ok : law.Ok start)
    (fits : ∀ s ∈ statements, law.Fits start start.state.current (.stmt s)) :
    law.Keeps start (Watching.program host root index statements) fun _ _ => True := by
  induction statements generalizing start index with
  | nil => exact pure ok trivial
  | cons first rest induction =>
      obtain ⟨firstFits, restFit⟩ := List.forall_mem_cons.1 fits
      apply bind (exec host host.room _ _ _ ok firstFits)
      intro _ middle led _
      exact induction led.ok fun s member => led.fits (restFit s member)

end Protocol.Keeps

namespace Discipline

variable {law : Discipline} {α : Type} {machine : Machine} {part : Watching α} {plain : Run α}
  {post : α → Running → Prop}

/-- What is known of the watched part is known of the plain one, however it ends. -/
theorem leads_of_keeps (keeps : law.protocol.Keeps ⟨machine, History.blank⟩ part post)
    (retraces : Watched.Retraces part plain) : law.Leads machine (Run.leaves plain machine) := by
  have same := retraces ⟨machine, History.blank⟩
  unfold Run.leaves
  rw [← same]
  cases outcome : part ⟨machine, History.blank⟩ with
  | ok result after =>
      obtain ⟨led, -⟩ := keeps.of_ok outcome
      exact ⟨led.follows, led.ok.ok⟩
  | error stop after =>
      have led := keeps.of_error outcome
      exact ⟨led.follows, led.ok.ok⟩

end Discipline

end LoxLang
