import LoxLang.Proofs.Parser.Naming
import LoxLang.Proofs.Scope.Placement
import LoxLang.Proofs.Scope.Reporting
import LoxLang.Proofs.Session.Acceptance
import Mathlib.Data.List.Forall2

/-!
# Distances are those to the innermost constructs

The scopes that the pass has in mind are the constructs around the place to which it
has come, and each has there the names that the construct holds.  So the distance
found for a reference is that to the innermost construct that holds its name, and each
reference with a distance is recorded once.
-/

namespace LoxLang

namespace Construct

/-- The constructs around a place after some declarations there. -/
def bring (names : List String) (around : List Construct) : List Construct :=
  around.modifyHead (· ++ names)

@[simp] theorem bring_nil (around : List Construct) : bring [] around = around := by
  cases around <;> simp [bring]

theorem bring_bring (names others : List String) (around : List Construct) :
    bring others (bring names around) = bring (names ++ others) around := by
  cases around <;> simp [bring]

/-- The scope has the names that the construct holds. -/
def Matches (construct : Construct) (scope : Scope) : Prop :=
  ∀ name, scope.binds name = true ↔ name ∈ construct

theorem Matches.empty : Matches [] Table.empty := by
  intro name
  simp [Table.binds]

theorem Matches.only (name : String) : Matches [name] (Table.empty.insert name true) := by
  intro other
  rw [Table.binds_insert, List.mem_singleton, eq_comm (a := other)]
  simp [Table.binds]

theorem Matches.insert {construct : Construct} {scope : Scope} (isMatch : Matches construct scope)
    (name : String) (usable : Bool) : Matches (construct ++ [name]) (scope.insert name usable) := by
  intro other
  rw [Table.binds_insert, Bool.or_eq_true, isMatch other, decide_eq_true_eq, List.mem_append,
    List.mem_singleton, or_comm, eq_comm]

theorem Matches.insert_mem {construct : Construct} {scope : Scope}
    (isMatch : Matches construct scope) {name : String} (member : name ∈ construct)
    (usable : Bool) : Matches construct (scope.insert name usable) := by
  intro other
  rw [Table.binds_insert, Bool.or_eq_true, isMatch other, decide_eq_true_eq]
  exact ⟨fun either => either.elim (fun same => same ▸ member) id, .inr⟩

/-- The distance to a scope is that to the construct. -/
theorem distance?_eq {around : List Construct} {scopes : List Scope}
    (same : List.Forall₂ Matches around scopes) (name : String) :
    Scope.distance? scopes name = distance? around name := by
  unfold Scope.distance? distance?
  induction same with
  | nil => rfl
  | cons first _ induction =>
      have same := first name
      rw [List.findIdx?_cons, List.findIdx?_cons, induction]
      simp only [← same, Bool.decide_eq_true]

end Construct

namespace Scoping

open Construct (bring Matches)

variable {around between after : List Construct} {classAround : Prop} {α β : Type}
  {start middle last : ScopeState}

/-- The scopes that the pass has in mind are the constructs around a place, and outside of all
classes none of them holds `this`. -/
structure Keeps (around : List Construct) (state : ScopeState) : Prop where
  scopes : List.Forall₂ Matches around state.scopes
  outside : state.classKind = .none → ∀ construct ∈ around, "this" ∉ construct

theorem Keeps.distance (keeps : Keeps around start) (name : String) :
    Scope.distance? start.scopes name = Construct.distance? around name :=
  Construct.distance?_eq keeps.scopes name

theorem Keeps.bring {name : String} (keeps : Keeps around start) (usable : Bool)
    (noThis : name ≠ "this") :
    Keeps (Construct.bring [name] around)
      { start with scopes := start.scopes.modifyHead (·.insert name usable) } := by
  obtain ⟨scopes, outside⟩ := keeps
  constructor
  · generalize start.scopes = found at scopes
    cases scopes with
    | nil => exact .nil
    | cons first rest => exact .cons (first.insert name usable) rest
  · intro nowhere
    cases around with
    | nil => simp [Construct.bring]
    | cons head outer =>
        have noneHolds := outside nowhere
        simp only [Construct.bring, List.modifyHead_cons, List.mem_cons, forall_eq_or_imp,
          List.mem_append, List.not_mem_nil, not_or, or_false] at noneHolds ⊢
        exact ⟨⟨noneHolds.1, noThis.symm⟩, noneHolds.2⟩

/-- What has happened on the way through a part: the constructs are others, and these references
have been recorded. -/
structure Went (after : List Construct) (start : ScopeState) (told : List Reference)
    (last : ScopeState) : Prop where
  keeps : Keeps after last
  inClass : start.classKind ≠ .none → last.classKind ≠ .none
  references : last.references = told.reverse ++ start.references

/-- The pass goes through a part, which is in a class or may be anywhere, from constructs to others,
with a result and references of this kind. -/
def Goes (classAround : Prop) (around after : List Construct) (part : Scoping α)
    (outcome : α → List Reference → Prop) : Prop :=
  ∀ start result last, Keeps around start → (classAround → start.classKind ≠ .none) →
    part start = .ok result last → ∃ told, outcome result told ∧ Went after start told last

namespace Goes

variable {part : Scoping α} {outcome : α → List Reference → Prop}

theorem anywhere (goes : Goes False around after part outcome) :
    Goes classAround around after part outcome :=
  fun start result last keeps _ ends => goes start result last keeps False.elim ends

theorem pure {result : α} (comes : outcome result []) :
    Goes classAround around around (Pure.pure result) outcome := by
  intro start found last keeps _ ends
  cases ends
  exact ⟨[], comes, keeps, id, rfl⟩

theorem bind {next : α → Scoping β} {goal : β → List Reference → Prop}
    (first : Goes classAround around between part outcome)
    (second : ∀ value told, outcome value told →
      Goes classAround between after (next value) fun result later => goal result (told ++ later)) :
    Goes classAround around after (part >>= next) goal := by
  intro start result last keeps inside ends
  obtain ⟨value, middle, partDone, rest⟩ := bind_eq_ok.1 ends
  obtain ⟨told, comes, went⟩ := first start value middle keeps inside partDone
  obtain ⟨later, finally_, wentOn⟩ := second value told comes middle result last went.keeps
    (fun isInside => went.inClass (inside isInside)) rest
  refine ⟨told ++ later, finally_, wentOn.keeps, wentOn.inClass ∘ went.inClass, ?_⟩
  rw [wentOn.references, went.references, List.reverse_append, List.append_assoc]

/-- A part with a result of which something is made. -/
theorem wrap {build : α → β} {goal : β → List Reference → Prop}
    (inside : Goes classAround around after part outcome)
    (made : ∀ value told, outcome value told → goal (build value) told) :
    Goes classAround around after (part >>= fun value => Pure.pure (build value)) goal :=
  bind inside fun value told comes => pure (by simpa using made value told comes)

/-- A step that only complains. -/
theorem complain (about : Token) (error : ScopeError) :
    Goes classAround around around (Scoping.complain about error) fun _ told => told = [] := by
  intro start result last keeps _ ends
  cases ends
  exact ⟨[], rfl, ⟨keeps.scopes, keeps.outside⟩, id, rfl⟩

theorem locate (kind : ReferenceKind) (name : Token) :
    Goes classAround around around (Scoping.locate kind name) fun site told =>
      site = Construct.distance? around name.lexeme ∧
        told = site.toList.map (Reference.mk kind name) := by
  intro start site last keeps _ ends
  have same := keeps.distance name.lexeme
  unfold Scoping.locate at ends
  split at ends
  · rename_i missing
    cases ends
    exact ⟨[], ⟨missing.symm.trans same, rfl⟩, keeps, id, rfl⟩
  · rename_i distance found
    cases ends
    exact ⟨[⟨kind, name, distance⟩], ⟨found.symm.trans same, rfl⟩,
      ⟨keeps.scopes, keeps.outside⟩, id, rfl⟩

theorem reference (name : Token) :
    Goes classAround around around (Scoping.reference name) fun site told =>
      site = Construct.distance? around name.lexeme ∧
        told = site.toList.map (Reference.mk .variable name) := by
  have pending : Goes classAround around around (isPending name.lexeme) fun _ told => told = [] := by
    intro start result last keeps _ ends
    unfold isPending at ends
    split at ends <;> cases ends <;> exact ⟨[], rfl, keeps, id, rfl⟩
  refine bind pending fun isPending told none => ?_
  subst none
  cases isPending with
  | false => exact locate .variable name
  | true =>
      refine bind (complain name .ownInitializer) fun _ told none => ?_
      subst none
      exact locate .variable name

section Enclosed

variable {part : Scoping α} {outcome : α → List Reference → Prop}

/-- Inside a new scope the pass has one more construct in mind, which it then forgets. -/
theorem inScope {construct grown : Construct} {scope : Scope} (isMatch : Matches construct scope)
    (needs : "this" ∈ construct → classAround)
    (goes : Goes classAround (construct :: around) (grown :: after) part outcome) :
    Goes classAround around after (Scoping.inScope scope part) outcome := by
  intro start result last keeps inside ends
  obtain ⟨inner, partDone, rfl⟩ := inScope_eq_ok ends
  have entered : Keeps (construct :: around) { start with scopes := scope :: start.scopes } := by
    refine ⟨.cons isMatch keeps.scopes, ?_⟩
    intro nowhere other member
    rcases List.mem_cons.1 member with rfl | isOuter
    · exact fun holdsThis => inside (needs holdsThis) nowhere
    · exact keeps.outside nowhere other isOuter
  obtain ⟨told, comes, went⟩ := goes _ result inner entered inside partDone
  obtain ⟨_, outer, _, isMatch, split⟩ := List.forall₂_cons_left_iff.1 went.keeps.scopes
  refine ⟨told, comes, ⟨?_, ?_⟩, went.inClass, went.references⟩
  · rw [split]
    exact isMatch
  · exact fun nowhere other member =>
      went.keeps.outside nowhere other (List.mem_cons_of_mem _ member)

theorem inFunction {kind : FunctionKind} (goes : Goes classAround around after part outcome) :
    Goes classAround around after (Scoping.inFunction kind part) outcome := by
  intro start result last keeps inside ends
  obtain ⟨inner, partDone, rfl⟩ := inFunction_eq_ok ends
  have entered : Keeps around { start with function := kind } := ⟨keeps.scopes, keeps.outside⟩
  obtain ⟨told, comes, went⟩ := goes _ result inner entered inside partDone
  exact ⟨told, comes, ⟨went.keeps.scopes, went.keeps.outside⟩, went.inClass, went.references⟩

/-- Inside a class `this` may be held; afterwards the place is again where it was, with some names
more. -/
theorem inClassKind {names : List String} (noThis : "this" ∉ names)
    (goes : Goes True around (Construct.bring names around) part outcome) :
    Goes classAround around (Construct.bring names around) (Scoping.inClass .plain part) outcome := by
  intro start result last keeps inside ends
  obtain ⟨inner, partDone, rfl⟩ := inClass_eq_ok ends
  have entered : Keeps around { start with classKind := .plain } :=
    ⟨keeps.scopes, fun impossible => by cases impossible⟩
  obtain ⟨told, comes, went⟩ := goes _ result inner entered
    (fun _ impossible => by cases impossible) partDone
  refine ⟨told, comes, ⟨went.keeps.scopes, ?_⟩, id, went.references⟩
  intro nowhere
  cases around with
  | nil => simp [Construct.bring]
  | cons head outer =>
      have noneHolds := keeps.outside nowhere
      simp only [Construct.bring, List.modifyHead_cons, List.mem_cons, forall_eq_or_imp,
        List.mem_append, not_or] at noneHolds ⊢
      exact ⟨⟨noneHolds.1, noThis⟩, noneHolds.2⟩

end Enclosed

section Declarations

theorem declare {name : Token} (isName : IsName name.lexeme) :
    Goes classAround around (Construct.bring [name.lexeme] around) (Scoping.declare name)
      fun _ told => told = [] := by
  intro start result last keeps _ ends
  have brought := keeps.bring false isName.1
  unfold Scoping.declare at ends
  split at ends
  · rename_i nowhere
    cases ends
    rw [nowhere] at brought
    refine ⟨[], rfl, ⟨?_, brought.outside⟩, id, rfl⟩
    simpa [nowhere] using brought.scopes
  · rename_i scope outer here
    cases ends
    rw [here] at brought
    exact ⟨[], rfl, ⟨brought.scopes, brought.outside⟩, id, rfl⟩

/-- To make a name usable changes nothing about which names there are. -/
theorem define (name : String) :
    Goes classAround (Construct.bring [name] around) (Construct.bring [name] around)
      (Scoping.define name) fun _ told => told = [] := by
  intro start result last keeps _ ends
  have scopes := keeps.scopes
  unfold Scoping.define at ends
  split at ends
  · cases ends
    exact ⟨[], rfl, keeps, id, rfl⟩
  · rename_i scope outer here
    cases ends
    rw [here] at scopes
    refine ⟨[], rfl, ⟨?_, keeps.outside⟩, id, rfl⟩
    cases around with
    | nil => cases scopes
    | cons head rest =>
        obtain ⟨first, others⟩ := List.forall₂_cons.1 scopes
        exact .cons (first.insert_mem (by simp) true) others

/-- A declaration of a name that can be used at once, and what follows. -/
theorem bring {name : Token} (isName : IsName name.lexeme) {rest : Scoping β}
    {goal : β → List Reference → Prop}
    (goes : Goes classAround (Construct.bring [name.lexeme] around) after rest goal) :
    Goes classAround around after
      (Scoping.declare name >>= fun _ => Scoping.define name.lexeme >>= fun _ => rest) goal := by
  refine bind (declare isName) fun _ told none => ?_
  subst none
  refine bind (define name.lexeme) fun _ told none => ?_
  subst none
  exact goes

end Declarations

end Goes

open LoxLang.Part (Placed EachPlaced)

section Expressions

variable {room : Nat}

/-- An expression or statement is placed among the constructs. -/
abbrev ExprPlaced (around : List Construct) (e : Expr Unit) (result : Expr Site)
    (told : List Reference) : Prop :=
  Placed around (.expr e) (.expr result) told

/-- Several expressions are placed among the constructs. -/
abbrev ExprsPlaced (around : List Construct) (args : List (Expr Unit))
    (results : List (Expr Site)) (told : List Reference) : Prop :=
  EachPlaced (fun _ => around) (args.map .expr) (results.map .expr) told

theorem args_go {visit : Expr Unit → Scoping (Expr Site)} (args : List (Expr Unit))
    (goes : ∀ arg ∈ args, Goes classAround around around (visit arg) (ExprPlaced around arg)) :
    Goes classAround around around (each visit args) (ExprsPlaced around args) := by
  induction args with
  | nil => exact .pure .nil
  | cons first rest induction =>
      refine .bind (goes first List.mem_cons_self) fun head told headPlaced => ?_
      refine .wrap (induction fun arg member => goes arg (List.mem_cons_of_mem _ member)) ?_
      exact fun tail later tailPlaced => .cons headPlaced tailPlaced

theorem this_goes (keyword : Token) (isThis : keyword.lexeme = "this") :
    Goes classAround around around
      (do
        if (← get).classKind = .none then
          Scoping.complain keyword .thisOutsideClass
          return Expr.this keyword none
        else
          return Expr.this keyword (← Scoping.locate .this keyword))
      (ExprPlaced around (.this keyword ())) := by
  intro start result last keeps inside ends
  obtain ⟨_, _, getDone, rest⟩ := bind_eq_ok.1 ends
  cases getDone
  by_cases nowhere : start.classKind = .none
  · rw [if_pos nowhere] at rest
    have noScope : none = Construct.distance? around keyword.lexeme := by
      rw [isThis, eq_comm, Construct.distance?, List.findIdx?_eq_none_iff]
      simpa using keeps.outside nowhere
    have complained : Goes classAround around around
        (Scoping.complain keyword .thisOutsideClass >>= fun _ => pure (Expr.this keyword none))
        (ExprPlaced around (.this keyword ())) :=
      .bind (.complain keyword .thisOutsideClass) fun _ told silent =>
        .pure (by subst silent; exact .leaf rfl noScope rfl rfl)
    exact complained _ _ _ keeps inside rest
  · rw [if_neg nowhere] at rest
    have located : Goes classAround around around
        (Scoping.locate .this keyword >>= fun site => pure (Expr.this keyword site))
        (ExprPlaced around (.this keyword ())) := by
      refine .wrap (.locate .this keyword) ?_
      rintro site told ⟨located, rfl⟩
      exact .leaf rfl located rfl rfl
    exact located _ _ _ keeps inside rest

theorem super_goes (keyword method : Token) :
    Goes classAround around around
      (do
        match (← get).classKind with
        | .none => Scoping.complain keyword .superOutsideClass
        | .plain => Scoping.complain keyword .superWithoutSuperclass
        | .derived => pure ()
        return Expr.super keyword method (← Scoping.locate .super keyword))
      (ExprPlaced around (.super keyword method ())) := by
  have located : Goes classAround around around
      (Scoping.locate .super keyword >>= fun site => pure (Expr.super keyword method site))
      (ExprPlaced around (.super keyword method ())) := by
    refine .wrap (.locate .super keyword) ?_
    rintro site told ⟨located, rfl⟩
    exact .leaf rfl located rfl rfl
  have complained (error : ScopeError) : Goes classAround around around
      (Scoping.complain keyword error >>= fun _ => Scoping.locate .super keyword >>= fun site =>
        pure (Expr.super keyword method site)) (ExprPlaced around (.super keyword method ())) :=
    .bind (.complain keyword error) fun _ told silent => by subst silent; exact located
  intro start result last keeps inside ends
  obtain ⟨_, _, getDone, rest⟩ := bind_eq_ok.1 ends
  cases getDone
  cases classKind : start.classKind with
  | none =>
      rw [classKind] at rest
      exact complained _ _ _ _ keeps inside rest
  | plain =>
      rw [classKind] at rest
      exact complained _ _ _ _ keeps inside rest
  | derived =>
      rw [classKind] at rest
      exact located _ _ _ keeps inside rest

theorem expr_goes (e : Expr Unit) (ordinary : e.Ordinary) :
    Goes classAround around around (expr room e) (ExprPlaced around e) := by
  induction room generalizing e with
  | zero =>
      intro start result last _ _ ends
      cases ends
  | succ room induction =>
      cases e with
      | literal value => exact .pure (.node rfl .nil fun _ => rfl)
      | grouping inner =>
          refine .wrap (induction inner (ordinary.inside (by simp [Part.children]))) ?_
          exact fun result told placed =>
            .node rfl (.single placed) (by simp [Part.bare, Part.children, Expr.map])
      | unary op operand =>
          refine .wrap (induction operand (ordinary.inside (by simp [Part.children]))) ?_
          exact fun result told placed =>
            .node rfl (.single placed) (by simp [Part.bare, Part.children, Expr.map])
      | binary left op right =>
          refine .bind (induction left (ordinary.inside (by simp [Part.children])))
            fun left told leftPlaced =>
              .wrap (induction right (ordinary.inside (by simp [Part.children]))) ?_
          exact fun right later rightPlaced => .node rfl (.cons leftPlaced (.single rightPlaced))
            (by simp [Part.bare, Part.children, Expr.map])
      | logical left op right =>
          refine .bind (induction left (ordinary.inside (by simp [Part.children])))
            fun left told leftPlaced =>
              .wrap (induction right (ordinary.inside (by simp [Part.children]))) ?_
          exact fun right later rightPlaced => .node rfl (.cons leftPlaced (.single rightPlaced))
            (by simp [Part.bare, Part.children, Expr.map])
      | «variable» name site =>
          refine .wrap (.reference name) ?_
          rintro site told ⟨located, rfl⟩
          exact .leaf rfl located rfl rfl
      | assign name site value =>
          refine .bind (induction value (ordinary.inside (by simp [Part.children])))
            fun value told placed => .wrap (.locate .assign name) ?_
          rintro site later ⟨located, rfl⟩
          exact .reference rfl located (.single placed)
            (by simp [Part.bare, Part.children, Expr.map])
      | call callee paren args =>
          refine .bind (induction callee (ordinary.inside (by simp [Part.children])))
            fun callee told placed => .wrap (args_go args fun arg member =>
              induction arg (ordinary.inside (by simp [Part.children, member]))) ?_
          refine fun args later argsPlaced => .node rfl (.cons placed argsPlaced) fun same => ?_
          obtain ⟨calleeSame, argsSame⟩ := List.cons.inj same
          have calleeBare := Part.expr.inj calleeSame
          have argsBare := Part.map_bare_expr.1 argsSame
          simp [Part.bare, Expr.map, Expr.mapEach_eq_map, calleeBare, argsBare]
      | get object name =>
          refine .wrap (induction object (ordinary.inside (by simp [Part.children]))) ?_
          exact fun result told placed =>
            .node rfl (.single placed) (by simp [Part.bare, Part.children, Expr.map])
      | set object name value =>
          refine .bind (induction value (ordinary.inside (by simp [Part.children])))
            fun value told valuePlaced =>
              .wrap (induction object (ordinary.inside (by simp [Part.children]))) ?_
          intro object later objectPlaced
          -- What is assigned comes first in the pass and last in the text.
          exact (Placed.node rfl (.cons objectPlaced (.single valuePlaced))
            (by simp [Part.bare, Part.children, Expr.map])).perm List.perm_append_comm
      | this keyword site => exact this_goes keyword ordinary.root
      | super keyword method site => exact super_goes keyword method

end Expressions

section Statements

variable {room : Nat} {visit : Stmt Unit → Scoping (Stmt Site)}

/-- A statement is placed among the constructs. -/
abbrev StmtPlaced (around : List Construct) (s : Stmt Unit) (result : Stmt Site)
    (told : List Reference) : Prop :=
  Placed around (.stmt s) (.stmt result) told

/-- What is assumed of the statements inside: the pass goes on to the constructs with what the
statement declares, and there the statement is placed. -/
def Goes.Visits (visit : Stmt Unit → Scoping (Stmt Site)) : Prop :=
  ∀ (around : List Construct) (s : Stmt Unit), s.Ordinary →
    Goes False around (Construct.bring s.brought around) (visit s)
      (StmtPlaced (Construct.bring s.brought around) s)

/-- A statement that declares nothing. -/
theorem Goes.undeclared {part : Scoping (Stmt Site)} {s : Stmt Unit} (none : s.brought = [])
    (goes : Goes classAround around around part (StmtPlaced around s)) :
    Goes classAround around (Construct.bring s.brought around) part
      (StmtPlaced (Construct.bring s.brought around) s) := by
  rwa [none, Construct.bring_nil]

theorem Goes.Visits.branch (visits : Goes.Visits visit) {s : Stmt Unit} (ordinary : s.Ordinary)
    (none : s.brought = []) :
    Goes classAround around around (visit s) (StmtPlaced around s) := by
  have goes := visits around s ordinary
  rw [none, Construct.bring_nil] at goes
  exact goes.anywhere

theorem optional_goes {value : Option (Expr Unit)} (ordinary : ∀ found ∈ value, found.Ordinary) :
    Goes classAround around around (optional (expr room) value)
      fun result told => ExprsPlaced around value.toList result.toList told := by
  cases value with
  | none => exact .pure .nil
  | some value => exact .wrap (expr_goes value (ordinary value rfl)) fun _ _ placed => .single placed

theorem param_goes (name : Token) (isName : IsName name.lexeme) :
    Goes classAround around (Construct.bring [name.lexeme] around) (param name)
      fun _ told => told = [] :=
  .bind (.declare isName) fun _ told silent => by
    subst silent
    exact .define name.lexeme

theorem params_go (params : List Token) (names : ∀ param ∈ params, IsName param.lexeme) :
    Goes classAround around (Construct.bring (params.map Token.lexeme) around) (each param params)
      fun _ told => told = [] := by
  induction params generalizing around with
  | nil =>
      rw [List.map_nil, Construct.bring_nil]
      exact .pure rfl
  | cons first rest induction =>
      have others : Goes classAround (Construct.bring [first.lexeme] around) _ (each param rest) _ :=
        induction fun param member => names param (List.mem_cons_of_mem _ member)
      rw [Construct.bring_bring] at others
      refine .bind (param_goes first (names first List.mem_cons_self)) fun _ told silent => ?_
      subst silent
      exact .wrap others fun _ _ silent => silent

theorem branch?_goes (visits : Goes.Visits visit) {branch : Option (Stmt Unit)}
    (ordinary : ∀ found ∈ branch, found.Ordinary ∧ found.brought = []) :
    Goes classAround around around (optional visit branch) fun result told =>
      EachPlaced (fun _ => around) (branch.toList.map .stmt) (result.toList.map .stmt) told := by
  cases branch with
  | none => exact .pure .nil
  | some branch =>
      obtain ⟨branchOrdinary, none⟩ := ordinary branch rfl
      exact .wrap (visits.branch branchOrdinary none) fun _ _ placed => .single placed

theorem body_goes (visits : Goes.Visits visit) (body : List (Stmt Unit))
    (ordinary : ∀ s ∈ body, s.Ordinary) :
    Goes classAround around (Construct.bring (body.flatMap Stmt.brought) around) (each visit body)
      fun results told =>
        EachPlaced
          (fun index => Construct.bring ((body.take (index + 1)).flatMap Stmt.brought) around)
          (body.map .stmt) (results.map .stmt) told := by
  induction body generalizing around with
  | nil =>
      rw [List.flatMap_nil, Construct.bring_nil]
      exact .pure .nil
  | cons first rest induction =>
      rw [List.flatMap_cons, ← Construct.bring_bring]
      refine .bind (visits around first (ordinary first List.mem_cons_self)).anywhere
        fun head told headPlaced => ?_
      refine .wrap (induction fun s member => ordinary s (List.mem_cons_of_mem _ member)) ?_
      intro tail later tailPlaced
      refine .cons (by simpa using headPlaced) ?_
      simpa [Construct.bring_bring] using tailPlaced

/-- The statements of a function are placed inside its construct. -/
structure FunctionPlaced (around : List Construct) (decl : FunctionDecl Unit)
    (result : FunctionDecl Site) (told : List Reference) : Prop where
  name : result.name = decl.name
  params : result.params = decl.params
  body : EachPlaced (fun index => Construct.heldAt decl.params decl.body index :: around)
    (decl.body.map .stmt) (result.body.map .stmt) told

namespace FunctionPlaced

variable {decl : FunctionDecl Unit} {result : FunctionDecl Site} {told : List Reference}

theorem bare (placed : FunctionPlaced around decl result told) :
    (result.map id fun _ => ()) = decl := by
  have sameName := placed.name
  have sameParams := placed.params
  have sameBody := Part.map_bare_stmt.1 placed.body.bare
  obtain ⟨name, params, body⟩ := decl
  obtain ⟨resultName, resultParams, resultBody⟩ := result
  simp only [FunctionDecl.name, FunctionDecl.params] at sameName sameParams
  simp only [FunctionDecl.body] at sameBody
  simp [FunctionDecl.map, Stmt.mapAll_eq_map, sameName, sameParams, sameBody]

theorem method (placed : FunctionPlaced around decl result told) :
    Placed around (.method decl) (.method result) told :=
  .node rfl placed.body fun _ => congrArg Part.method placed.bare

theorem function (placed : FunctionPlaced around decl result told) :
    StmtPlaced around (.function decl) (.function result) told :=
  .node rfl placed.body fun _ => congrArg (Part.stmt ∘ Stmt.function) placed.bare

end FunctionPlaced

theorem functionRest_goes (visits : Goes.Visits visit) (kind : FunctionKind)
    (decl : FunctionDecl Unit) (ordinary : decl.Ordinary) :
    Goes classAround around around (functionRest visit kind decl) (FunctionPlaced around decl) := by
  obtain ⟨name, params, body⟩ := decl
  have bodyOrdinary : ∀ s ∈ body, s.Ordinary := fun s member =>
    ordinary.inside (by simpa [Part.children, FunctionDecl.body] using member)
  have inside : Goes classAround ([] :: around)
      ((params.map Token.lexeme ++ body.flatMap Stmt.brought) :: around)
      (each param params >>= fun _ => each visit body >>= fun body =>
        pure (FunctionDecl.mk name params body)) (FunctionPlaced around ⟨name, params, body⟩) :=
    .bind (params_go params ordinary.root.2) fun _ told silent => by
      subst silent
      exact .wrap (body_goes visits body bodyOrdinary) fun results told placed => ⟨rfl, rfl, placed⟩
  exact .inFunction (.inScope .empty (by simp) inside)

theorem methods_go (visits : Goes.Visits visit) (methods : List (FunctionDecl Unit))
    (ordinary : ∀ method ∈ methods, method.Ordinary) :
    Goes classAround around around
      (each (fun method => functionRest visit (methodKind method) method) methods)
      fun results told =>
        EachPlaced (fun _ => around) (methods.map .method) (results.map .method) told := by
  induction methods with
  | nil => exact .pure .nil
  | cons first rest induction =>
      refine .bind (functionRest_goes visits _ first (ordinary first List.mem_cons_self))
        fun head told headPlaced => ?_
      refine .wrap (induction fun method member => ordinary method (List.mem_cons_of_mem _ member))
        fun tail later tailPlaced => ?_
      exact .cons headPlaced.method tailPlaced

/-- The methods of a class are placed inside the layer of `this`. -/
theorem methodsRest_goes (visits : Goes.Visits visit) (methods : List (FunctionDecl Unit))
    (ordinary : ∀ method ∈ methods, method.Ordinary) :
    Goes True around around (methodsRest visit methods) fun results told =>
      EachPlaced (fun _ => ["this"] :: around) (methods.map .method) (results.map .method) told :=
  .inScope (.only "this") (fun _ => trivial) (methods_go visits methods ordinary)

/-- A superclass is placed outside of the layers of its class. -/
theorem superclass_goes (name : Token) (parent : Superclass Unit) :
    Goes classAround around around (superclass name parent) fun result told =>
      Placed around (.superclass parent) (.superclass result) told := by
  have derived : Goes classAround around around
      (modify (fun state => { state with classKind := .derived }) : Scoping Unit)
      fun _ told => told = [] := by
    intro start result last keeps _ ends
    cases ends
    exact ⟨[], rfl, ⟨keeps.scopes, fun impossible => by cases impossible⟩,
      fun _ => by simp, rfl⟩
  have named : Goes classAround around around
      (modify (fun state => { state with classKind := .derived }) >>= fun _ =>
        reference parent.name >>= fun site => pure (Superclass.mk parent.name site))
      fun result told => Placed around (.superclass parent) (.superclass result) told := by
    refine .bind derived fun _ told silent => ?_
    subst silent
    refine .wrap (.reference parent.name) ?_
    rintro site told ⟨located, rfl⟩
    exact .leaf rfl located rfl rfl
  unfold superclass
  split
  · refine .bind (.complain parent.name .selfInheritance) fun _ told silent => ?_
    subst silent
    exact named
  · exact named

theorem return_goes {keyword : Token} {value : Option (Expr Unit)}
    (ordinary : ∀ found ∈ value, found.Ordinary) :
    Goes classAround around around
      (do
        if (← get).function = .none then complain keyword .returnAtTopLevel
        match value with
        | none => return Stmt.return keyword none
        | some result =>
            if (← get).function = .initializer then complain keyword .valueFromInitializer
            return .return keyword (some (← expr room result)))
      (StmtPlaced around (.return keyword value)) := by
  have inKind {next : Scoping (Stmt Site)} {outcome : Stmt Site → List Reference → Prop}
      (kind : FunctionKind) (error : ScopeError) (goes : Goes classAround around around next outcome) :
      Goes classAround around around
        (do
          if (← get).function = kind then complain keyword error
          next) outcome := by
    intro start result last keeps inside ends
    obtain ⟨_, _, getDone, rest⟩ := bind_eq_ok.1 ends
    cases getDone
    by_cases same : start.function = kind
    · simp only [same, if_true] at rest
      have complained : Goes classAround around around (complain keyword error >>= fun _ => next)
          outcome :=
        .bind (.complain keyword error) fun _ told silent => by
          subst silent
          exact goes
      exact complained _ _ _ keeps inside rest
    · simp only [same, if_false] at rest
      exact goes _ _ _ keeps inside rest
  cases value with
  | none => exact inKind _ _ (.pure (.node rfl .nil fun _ => rfl))
  | some result =>
      refine inKind _ _ (inKind _ _ (.wrap (expr_goes result (ordinary result rfl)) ?_))
      exact fun found told placed =>
        .node rfl (.single placed) (by simp [Part.bare, Part.children, Stmt.map])

/-- The pass goes through every statement like this. -/
theorem stmt_visits_placed (room : Nat) : Goes.Visits (stmt room) := by
  induction room with
  | zero =>
      intro around s _ start result last _ _ ends
      cases ends
  | succ room induction =>
      intro around s ordinary
      cases s with
      | expression value =>
          have valueOrdinary : value.Ordinary := ordinary.inside (by simp [Part.children])
          refine .undeclared rfl ?_
          refine .wrap (expr_goes value valueOrdinary) fun result told placed => ?_
          exact .node rfl (.single placed) (by simp [Part.bare, Part.children, Stmt.map])
      | print value =>
          have valueOrdinary : value.Ordinary := ordinary.inside (by simp [Part.children])
          refine .undeclared rfl ?_
          refine .wrap (expr_goes value valueOrdinary) fun result told placed => ?_
          exact .node rfl (.single placed) (by simp [Part.bare, Part.children, Stmt.map])
      | var name initializer =>
          have isName : IsName name.lexeme := ordinary.root
          have valueOrdinary : ∀ found ∈ initializer, found.Ordinary := fun found member =>
            ordinary.inside (by simpa [Part.children] using member)
          refine .bind (.declare isName) fun _ told silent => ?_
          subst silent
          refine .bind (optional_goes valueOrdinary) fun result told placed => ?_
          refine .bind (.define name.lexeme) fun _ later silent => .pure ?_
          subst silent
          rw [List.append_nil, List.append_nil, List.nil_append]
          refine .node rfl placed fun same => ?_
          simp [Part.bare, Stmt.map, Part.map_bare_optionalExpr.1 same]
      | block body =>
          have bodyOrdinary : ∀ s ∈ body, s.Ordinary := fun s member =>
            ordinary.inside (by simpa [Part.children] using member)
          refine .undeclared rfl ?_
          refine .wrap (.inScope .empty (by simp) (body_goes induction body bodyOrdinary))
            fun results told placed => ?_
          refine .node rfl placed fun same => ?_
          simp [Part.bare, Stmt.map, Stmt.mapAll_eq_map, Part.map_bare_stmt.1 same]
      | conditional condition thenBranch elseBranch =>
          obtain ⟨thenNone, elseNone⟩ := ordinary.root
          have none : (Stmt.conditional condition thenBranch elseBranch).brought = [] := by
            cases elseBranch with
            | none => exact thenNone
            | some branch => simp [Stmt.brought, thenNone, elseNone branch rfl]
          have conditionOrdinary : condition.Ordinary := ordinary.inside (by simp [Part.children])
          have thenOrdinary : thenBranch.Ordinary := ordinary.inside (by simp [Part.children])
          have elseOrdinary : ∀ found ∈ elseBranch, found.Ordinary ∧ found.brought = [] :=
            fun found member =>
              ⟨ordinary.inside (by simp_all [Part.children]), elseNone found member⟩
          refine .undeclared none ?_
          refine .bind (expr_goes condition conditionOrdinary)
            fun condition told conditionPlaced => ?_
          refine .bind (induction.branch thenOrdinary thenNone)
            fun thenBranch later thenPlaced => ?_
          refine .wrap (branch?_goes induction elseOrdinary) fun other last otherPlaced => ?_
          refine .node rfl (.cons conditionPlaced (.cons thenPlaced otherPlaced)) fun same => ?_
          obtain ⟨conditionSame, same⟩ := List.cons.inj same
          obtain ⟨thenSame, otherSame⟩ := List.cons.inj same
          have otherBare := Part.map_bare_optionalStmt.1 otherSame
          cases other with
          | none =>
              cases otherBare
              simp [Part.bare, Stmt.map, Part.expr.inj conditionSame, Part.stmt.inj thenSame]
          | some branch =>
              cases otherBare
              simp [Part.bare, Stmt.map, Part.expr.inj conditionSame, Part.stmt.inj thenSame]
      | loop condition body =>
          have none : body.brought = [] := ordinary.root
          have conditionOrdinary : condition.Ordinary := ordinary.inside (by simp [Part.children])
          have bodyOrdinary : body.Ordinary := ordinary.inside (by simp [Part.children])
          refine .undeclared none ?_
          refine .bind (expr_goes condition conditionOrdinary)
            fun condition told conditionPlaced => ?_
          refine .wrap (induction.branch bodyOrdinary none) fun body later bodyPlaced => ?_
          exact .node rfl (.cons conditionPlaced (.single bodyPlaced))
            (by simp [Part.bare, Part.children, Stmt.map])
      | function decl =>
          have declOrdinary : decl.Ordinary :=
            .of ordinary.root fun _ member => ordinary.inside member
          refine .bring ordinary.root.1 ?_
          exact .wrap (functionRest_goes induction .function decl declOrdinary)
            fun _ _ placed => placed.function
      | «return» keyword value =>
          have valueOrdinary : ∀ found ∈ value, found.Ordinary := fun found member =>
            ordinary.inside (by simpa [Part.children] using member)
          exact .undeclared rfl (return_goes valueOrdinary)
      | «class» name parent methods =>
          have isName : IsName name.lexeme := ordinary.root
          have methodsOrdinary : ∀ method ∈ methods, method.Ordinary := fun method member =>
            ordinary.inside (by simp [Part.children, member])
          refine .inClassKind (by simpa [Stmt.brought] using isName.1.symm) (.bring isName ?_)
          cases parent with
          | none =>
              refine .wrap (methodsRest_goes induction methods methodsOrdinary)
                fun results told placed => .node rfl placed fun same => ?_
              simp [Part.bare, Stmt.map, FunctionDecl.mapAll_eq_map, Part.map_bare_method.1 same]
          | some parent =>
              refine .bind (superclass_goes name parent) fun found told parentPlaced => ?_
              refine .wrap (.inScope (.only "super") (fun _ => trivial)
                (methodsRest_goes induction methods methodsOrdinary)) fun results later placed => ?_
              refine .node rfl (.cons parentPlaced placed) fun same => ?_
              obtain ⟨parentSame, methodsSame⟩ := List.cons.inj same
              simp [Part.bare, Stmt.map, FunctionDecl.mapAll_eq_map,
                Part.superclass.inj parentSame, Part.map_bare_method.1 methodsSame]
      | lost => exact .undeclared rfl (.pure (.node rfl .nil fun _ => rfl))

/-- The pass through a whole program places it outside of all constructs. -/
theorem program_placed {statements : List (Stmt Unit)} {results : List (Stmt Site)}
    (ordinary : ∀ s ∈ statements, s.Ordinary)
    (ends : each (stmt room) statements ScopeState.start = .ok results last) :
    Placed [] (.program statements) (.program results) last.references.reverse := by
  have keeps : Keeps [] ScopeState.start := ⟨.nil, by simp⟩
  obtain ⟨told, placed, went⟩ :=
    body_goes (stmt_visits_placed room) statements ordinary _ _ _ keeps
      False.elim ends
  have references : last.references = told.reverse := by
    rw [went.references]
    exact List.append_nil _
  rw [references, List.reverse_reverse]
  refine .node rfl placed fun same => ?_
  simp [Part.bare, Part.map_bare_stmt.1 same]

end Statements

end Scoping

/-- The statement was read from the tokens of some text. -/
def Stmt.IsParsed (s : Stmt Unit) : Prop :=
  ∃ depth text statements,
    (parseWithin depth (TokenStream.ofText text).tokens).statements = some statements ∧
      s ∈ statements

theorem Stmt.IsParsed.ordinary {s : Stmt Unit} (parsed : s.IsParsed) : s.Ordinary := by
  obtain ⟨depth, text, statements, read, member⟩ := parsed
  exact parseWithin_ordinary read s member

/-- With enough room the pass through parsed statements comes to its end.  When it does, the
statements are what they were; the site of a reference holds a distance just if the construct at
that distance is the innermost one that holds the name at that point; and the references with a
distance are recorded, each once. -/
theorem distances_are_innermost (statements : List (Stmt Unit))
    (parsed : ∀ s ∈ statements, s.IsParsed) :
    (∃ enough, ∀ room ≥ enough, (resolveWithin room statements).statements.isSome = true) ∧
      ∀ room results, (resolveWithin room statements).statements = some results →
        results.map Stmt.bare = statements ∧
        (∀ path reference, (Part.program results).Refers path reference ↔
          (Part.program statements).IsBoundAt path reference) ∧
        Lists (Part.program statements).IsBoundAt (resolveWithin room statements).references := by
  refine ⟨⟨Stmt.nodesOfAll statements, fun room enough => resolveWithin_isSome enough⟩, ?_⟩
  intro room results resolved
  unfold resolveWithin at resolved ⊢
  cases outcome : Scoping.each (Scoping.stmt room) statements ScopeState.start with
  | error stop state =>
      rw [outcome] at resolved
      cases resolved
  | ok found state =>
      rw [outcome] at resolved
      cases resolved
      have placed := Scoping.program_placed (fun s member => (parsed s member).ordinary) outcome
      refine ⟨Part.program.inj placed.bare, fun path reference => placed.refers_iff, ?_⟩
      exact placed.lists.congr fun path reference => placed.refers_iff.symm

/-- The name of a superclass is outside of the layers of its class, a method has that of `this`
around it and then that of `super`, and a variable is in its own initializer. -/
theorem distances_are_innermost_nested :
    let text :=
      "\x7b class A \x7b\x7d for (var i = i; i; i = i) \x7b class B < A \x7b m(a) \x7b " ++
      "fun f(b) \x7b return super.m(this, a, b, f, B, c); \x7d \x7d \x7d var c; \x7d \x7d"
    let statements := (parse (TokenStream.ofText text).tokens).statements.getD []
    (∀ s ∈ statements, s.IsParsed) ∧
      (resolveWithin 30 statements).references.map
          (fun reference => (reference.token.lexeme, reference.distance)) =
        [("i", 0), ("i", 0), ("A", 3), ("super", 3), ("this", 2), ("a", 1), ("b", 0), ("f", 1),
          ("B", 4), ("i", 1), ("i", 1)] ∧
      Lists (Part.program statements).IsBoundAt (resolveWithin 30 statements).references := by
  intro text statements
  have read : (parse (TokenStream.ofText text).tokens).statements = some statements := by
    have isRead : (parse (TokenStream.ofText text).tokens).statements.isSome = true := by
      decide +kernel
    obtain ⟨found, isFound⟩ := Option.isSome_iff_exists.1 isRead
    simp only [statements, isFound, Option.getD_some]
  have parsed : ∀ s ∈ statements, s.IsParsed := fun s member => ⟨_, text, statements, read, member⟩
  have reached : (resolveWithin 30 statements).statements.isSome = true := by decide +kernel
  obtain ⟨results, resolved⟩ := Option.isSome_iff_exists.1 reached
  exact ⟨parsed, by decide +kernel,
    ((distances_are_innermost statements parsed).2 30 results resolved).2.2⟩

end LoxLang
