import LoxLang.Proofs.Scope.ExpressionLayout

/-!
# Accepted programs are laid out well

If the pass comes through statements of the grammar and ends without a complaint,
then the trees with their sites are laid out well, and without their sites they
are the trees that were visited.
-/

namespace LoxLang

theorem Table.mem_names_of_binds {V : Type} {table : Table V} {name : String}
    (bound : table.binds name) : name ∈ table.names := by
  obtain ⟨entries⟩ := table
  unfold binds get? at bound
  unfold names
  induction entries with
  | nil => cases bound
  | cons entry rest induction =>
      unfold lookup at bound
      split at bound
      · rename_i same
        simp [same]
      · exact List.mem_cons_of_mem _ (induction bound)

section Declarations

variable {S T : Type}

@[simp] theorem FunctionDecl.name_map (onToken : Token → Token) (onSite : S → T)
    (decl : FunctionDecl S) : (decl.map onToken onSite).name = onToken decl.name := by
  cases decl
  simp only [FunctionDecl.map, FunctionDecl.name]

/-- Forgetting sites changes nothing about what is declared. -/
theorem Stmt.declares_bare (s : Stmt S) : s.bare.declares = s.declares := by
  cases s with
  | conditional condition thenBranch elseBranch =>
      cases elseBranch <;> simp only [Stmt.map, declares]
  | _ => simp [Stmt.map, declares]

/-- Only declarations declare, and they are no branches. -/
theorem Stmt.Grammatical.declares_eq_none {s : Stmt S} (grammatical : s.Grammatical .branch) :
    s.declares = none := by
  cases grammatical <;> rfl

end Declarations

namespace Context

variable {context : Context} {S : Type}

/-- The context outside of the innermost scope. -/
def outside (context : Context) : Context :=
  { context with scopes := context.scopes.tail, numbers := context.numbers.tail }

theorem after_eq_of_declares {first : Stmt S} {T : Type} {second : Stmt T}
    (same : first.declares = second.declares) : context.after first = context.after second := by
  unfold after
  rw [same]

theorem after_of_declares_eq_none {s : Stmt S} (declaresNothing : s.declares = none) :
    context.after s = context := by
  unfold after
  rw [declaresNothing]

/-- Statements in a scope change nothing outside of it. -/
theorem outside_foldl_after (number : Nat) (scope : Scope) (body : List (Stmt S)) :
    (body.foldl after (context.within number scope)).outside = context := by
  induction body generalizing scope with
  | nil => rfl
  | cons first rest induction =>
      rw [List.foldl_cons]
      cases declared : first.declares with
      | none =>
          rw [after_of_declares_eq_none declared]
          exact induction scope
      | some name =>
          have brought : (context.within number scope).after first =
              context.within number ((scope.insert name false).insert name true) := by
            unfold after
            rw [declared]
            rfl
          rw [brought]
          exact induction _

end Context

namespace Surveying

open Watched (lift note)

variable {α : Type} {final start after : Watched ScopeState Survey}

theorem define_done {name : String} {result : Unit}
    (succeeded : lift (Scoping.define name) start = .ok result after) :
    after.context = start.context.define name := by
  obtain ⟨defined, notes⟩ := lift_eq_ok.1 succeeded
  unfold Scoping.define at defined
  unfold Watched.context Context.define Context.innermost
  rw [notes]
  split at defined
  · rename_i noScope
    simp only [EStateM.Result.ok.injEq] at defined
    rw [← defined.2, noScope]
    rfl
  · rename_i scope outer scopes
    simp only [EStateM.Result.ok.injEq] at defined
    rw [← defined.2, scopes]
    rfl

theorem declare_done {name : Token} {result : Unit}
    (succeeded : declare name start = .ok result after) (endsWell : EndsWell final after) :
    after.context = start.context.declare name.lexeme ∧
      start.context.Admits final.notes name.lexeme := by
  obtain ⟨_, noted, putDone, declared⟩ := bind_eq_ok.1 succeeded
  cases putDone
  obtain ⟨declared, notes⟩ := lift_eq_ok.1 declared
  constructor
  · unfold Scoping.declare at declared
    unfold Watched.context Context.declare Context.innermost
    rw [notes]
    split at declared
    · rename_i noScope
      simp only [EStateM.Result.ok.injEq] at declared
      have noScope : start.state.scopes = [] := noScope
      rw [← declared.2, noScope]
      rfl
    · rename_i scope outer scopes
      simp only [EStateM.Result.ok.injEq] at declared
      have scopes : start.state.scopes = scope :: outer := scopes
      rw [← declared.2, scopes]
      rfl
  · intro number innermost
    apply endsWell.grows.put.subset
    rw [notes]
    apply List.mem_append_left
    rw [Option.mem_toList]
    exact Option.map_eq_some_iff.2 ⟨number, innermost, rfl⟩

/-- A name that the innermost scope had already would have been complained about. -/
theorem declare_lacks {name : Token} {result : Unit}
    (succeeded : declare name start = .ok result after) (endsWell : EndsWell final after) :
    start.context.Lacks name.lexeme := by
  obtain ⟨_, noted, putDone, declared⟩ := bind_eq_ok.1 succeeded
  cases putDone
  obtain ⟨declared, _⟩ := lift_eq_ok.1 declared
  intro scope innermost
  have quiet := endsWell.complaints
  unfold Scoping.declare at declared
  split at declared
  · rename_i noScope
    rw [show start.context.scopes = [] from noScope] at innermost
    cases innermost
  · rename_i first outer scopes
    rw [show start.context.scopes = first :: outer from scopes] at innermost
    cases innermost
    simp only [EStateM.Result.ok.injEq] at declared
    rw [← declared.2] at quiet
    cases bound : scope.binds name.lexeme with
    | false => rfl
    | true => simp [bound] at quiet

/-- A name may be brought into a scope that admits it and lacks it, and is usable there at once. -/
theorem bring_done {name : Token} {declared : Watched ScopeState Survey} {first second : Unit}
    (declareDone : declare name start = .ok first declared)
    (defineDone : lift (Scoping.define name.lexeme) declared = .ok second after)
    (endsWell : EndsWell final after) :
    EndsWell final start ∧ start.context.Admits final.notes name.lexeme ∧
      start.context.Lacks name.lexeme ∧ after.context = start.context.bring name.lexeme := by
  have defineSilent : Adds nowhere (lift (Scoping.define name.lexeme)) := define_adds _
  have declareSilent : Adds nowhere (declare name) := declare_adds _
  have endsDeclared := defineSilent.endsWell defineDone endsWell
  obtain ⟨declaredContext, admitted⟩ := declare_done declareDone endsDeclared
  have brought : after.context = start.context.bring name.lexeme := by
    rw [define_done defineDone, declaredContext]
    rfl
  exact ⟨declareSilent.endsWell declareDone endsDeclared, admitted,
    declare_lacks declareDone endsDeclared, brought⟩

/-- A part inside a new scope sees that scope around it, and after it the scope is gone. -/
theorem inScope_done {scope : Scope} {part : Surveying α} {result : α}
    {region : Address → Prop} (adds : Adds region part)
    (succeeded : inScope scope part start = .ok result after) (endsWell : EndsWell final after) :
    ∃ number middle last, middle.context = start.context.within number scope ∧
      part middle = .ok result last ∧ EndsWell final last ∧
      (∀ name, scope.binds name → (number, name) ∈ final.notes.put) ∧
      after.context = last.context.outside := by
  obtain ⟨_, opened, openedDone, rest⟩ := bind_eq_ok.1 succeeded
  obtain ⟨_, middle, pushed, rest⟩ := bind_eq_ok.1 rest
  obtain ⟨found, last, partDone, rest⟩ := bind_eq_ok.1 rest
  obtain ⟨_, closed, closedDone, rest⟩ := bind_eq_ok.1 rest
  obtain ⟨_, popped, popDone, rest⟩ := bind_eq_ok.1 rest
  cases openedDone
  cases pushed
  cases closedDone
  cases popDone
  cases rest
  have endsLast : EndsWell final last :=
    endsWell.earlier ⟨List.suffix_refl _, List.suffix_refl _, List.suffix_refl _⟩
  refine ⟨_, _, last, rfl, partDone, endsLast, ?_, rfl⟩
  intro name bound
  apply endsLast.grows.put.subset
  apply (adds _ _ _ partDone).1.put.subset
  apply List.mem_append_left
  exact List.mem_map.2 ⟨name, Table.mem_names_of_binds bound, rfl⟩

theorem inFunction_done {kind : FunctionKind} {part : Surveying α} {result : α}
    (succeeded : inFunction kind part start = .ok result after)
    (endsWell : EndsWell final after) :
    ∃ middle last, middle.context = start.context.inFunction kind ∧
      part middle = .ok result last ∧ EndsWell final last ∧
      after.context = last.context.inFunction start.context.function := by
  obtain ⟨enclosing, asked, got, rest⟩ := bind_eq_ok.1 succeeded
  cases got
  obtain ⟨_, middle, entered, rest⟩ := bind_eq_ok.1 rest
  obtain ⟨found, last, partDone, rest⟩ := bind_eq_ok.1 rest
  obtain ⟨_, left, leftDone, rest⟩ := bind_eq_ok.1 rest
  cases entered
  cases leftDone
  cases rest
  have endsLast : EndsWell final last :=
    endsWell.earlier ⟨List.suffix_refl _, List.suffix_refl _, List.suffix_refl _⟩
  exact ⟨_, last, rfl, partDone, endsLast, rfl⟩

theorem inClass_done {kind : ClassKind} {part : Surveying α} {result : α}
    (succeeded : inClass kind part start = .ok result after)
    (endsWell : EndsWell final after) :
    ∃ middle last, Grows start middle ∧ middle.context = start.context.inClass kind ∧
      part middle = .ok result last ∧ EndsWell final last ∧
      after.context = last.context.inClass start.context.classKind := by
  obtain ⟨enclosing, asked, got, rest⟩ := bind_eq_ok.1 succeeded
  cases got
  obtain ⟨_, middle, entered, rest⟩ := bind_eq_ok.1 rest
  obtain ⟨found, last, partDone, rest⟩ := bind_eq_ok.1 rest
  obtain ⟨_, left, leftDone, rest⟩ := bind_eq_ok.1 rest
  cases entered
  cases leftDone
  cases rest
  have endsLast : EndsWell final last :=
    endsWell.earlier ⟨List.suffix_refl _, List.suffix_refl _, List.suffix_refl _⟩
  have grows : Grows start ⟨{ start.state with classKind := kind }, start.notes⟩ :=
    ⟨List.suffix_refl _, List.suffix_refl _, List.suffix_refl _⟩
  exact ⟨_, last, grows, rfl, partDone, endsLast, rfl⟩

/-- Parameters are put into the scope of their function one after the other. -/
theorem params_done {params : List Token} {base : Context} {number index : Nat} {scope : Scope}
    {result : List Unit}
    (isName : ∀ param ∈ params, param.lexeme ≠ "this" ∧ param.lexeme ≠ "super")
    (succeeded : each (fun _ => param) index params start = .ok result after)
    (endsWell : EndsWell final after) (here : start.context = base.within number scope)
    (sound : start.context.Sound final.notes none) :
    after.context = base.within number
        (params.foldl (fun scope param =>
          (scope.insert param.lexeme false).insert param.lexeme true) scope) ∧
      (∀ param ∈ params, (number, param.lexeme) ∈ final.notes.put) ∧
      (∀ param ∈ params, scope.binds param.lexeme = false) ∧
      (params.map Token.lexeme).Nodup ∧ after.context.Sound final.notes none := by
  induction params generalizing start index scope result with
  | nil =>
      cases succeeded
      exact ⟨here, by simp, by simp, by simp, sound⟩
  | cons first rest induction =>
      obtain ⟨_, defined, firstDone, remaining⟩ := bind_eq_ok.1 succeeded
      obtain ⟨_, last, restDone, remaining⟩ := bind_eq_ok.1 remaining
      cases remaining
      obtain ⟨_, declared, declareDone, defineDone⟩ := bind_eq_ok.1 firstDone
      have restSilent : Adds nowhere (each (fun _ => param) (index + 1) rest) := params_adds _ _
      obtain ⟨_, admitted, lacks, brought⟩ :=
        bring_done declareDone defineDone (restSilent.endsWell restDone endsWell)
      rw [here] at lacks
      have firstNew : scope.binds first.lexeme = false := lacks scope rfl
      obtain ⟨notThis, notSuper⟩ := isName first List.mem_cons_self
      have broughtSound := sound.bring admitted notThis notSuper
      rw [← brought] at broughtSound
      obtain ⟨endContext, known, restNew, distinct, endSound⟩ :=
        induction (fun param member => isName param (List.mem_cons_of_mem _ member)) restDone
          (brought.trans (by rw [here, Context.bring_within])) broughtSound
      simp only [Table.binds_insert, Bool.or_eq_false_iff, decide_eq_false_iff_not] at restNew
      refine ⟨endContext, ?_, ?_, ?_, endSound⟩
      · intro param member
        rcases List.mem_cons.1 member with same | later
        · rw [same]
          exact admitted number (by rw [here]; rfl)
        · exact known param later
      · intro param member
        rcases List.mem_cons.1 member with same | later
        · rw [same]
          exact firstNew
        · exact (restNew param later).2.2
      · rw [List.map_cons, List.nodup_cons]
        refine ⟨?_, distinct⟩
        intro repeated
        obtain ⟨param, later, same⟩ := List.mem_map.1 repeated
        exact (restNew param later).1 same.symm

/-- Whatever comes of visiting the statement is laid out well. -/
def StmtAccepted (final : Watched ScopeState Survey) (s : Stmt Unit) : Prop :=
  ∀ room address start result after, stmt room address s start = .ok result after →
    EndsWell final after → start.context.Sound final.notes none →
    after.context = start.context.after s ∧ after.context.Sound final.notes none ∧
      result.bare = s ∧ result.Scoped final.notes start.context address

/-- Whatever comes of visiting the function is laid out well. -/
def DeclAccepted (final : Watched ScopeState Survey) (decl : FunctionDecl Unit) : Prop :=
  ∀ room address kind start result after,
    functionRest (stmt room) kind address decl start = .ok result after →
    EndsWell final after → start.context.Sound final.notes none →
    after.context = start.context ∧ result.map id (fun _ => ()) = decl ∧
      result.Scoped final.notes start.context address

section Parts

variable {room : Nat} {address : Address}

theorem body_accepted {body : List (Stmt Unit)} {index : Nat} {results : List (Stmt Site)}
    (accepted : ∀ s ∈ body, StmtAccepted final s)
    (succeeded : each (fun index => stmt room (address.child index)) index body start =
      .ok results after)
    (endsWell : EndsWell final after) (sound : start.context.Sound final.notes none) :
    after.context = body.foldl Context.after start.context ∧
      after.context.Sound final.notes none ∧ results.map Stmt.bare = body ∧
      Stmt.ListScoped final.notes start.context address index results := by
  induction body generalizing index start results with
  | nil =>
      cases succeeded
      exact ⟨rfl, sound, rfl, .nil⟩
  | cons first rest induction =>
      obtain ⟨head, middle, firstDone, remaining⟩ := bind_eq_ok.1 succeeded
      obtain ⟨tail, last, restDone, remaining⟩ := bind_eq_ok.1 remaining
      cases remaining
      have restAdds := each_adds (fun index => stmt_adds room (address.child index))
        (index + 1) rest
      have endsMiddle := restAdds.endsWell restDone endsWell
      obtain ⟨middleContext, middleSound, firstBare, firstScoped⟩ :=
        accepted first List.mem_cons_self _ _ _ _ _ firstDone endsMiddle sound
      obtain ⟨endContext, endSound, restBare, restScoped⟩ :=
        induction (fun s member => accepted s (List.mem_cons_of_mem _ member)) restDone
          middleSound
      rw [middleContext] at endContext restScoped
      refine ⟨endContext, endSound, by rw [List.map_cons, firstBare, restBare], ?_⟩
      apply Stmt.ListScoped.cons firstScoped
      have declared : head.declares = first.declares := by
        rw [← firstBare, Stmt.declares_bare]
      rw [Context.after_eq_of_declares declared]
      exact restScoped

theorem functionRest_accepted {decl : FunctionDecl Unit}
    (isName : ∀ param ∈ decl.params, param.lexeme ≠ "this" ∧ param.lexeme ≠ "super")
    (accepted : ∀ s ∈ decl.body, StmtAccepted final s) : DeclAccepted final decl := by
  intro room address kind start result after succeeded endsWell sound
  obtain ⟨entered, left, enteredContext, scopeDone, endsLeft, afterContext⟩ :=
    inFunction_done succeeded endsWell
  obtain ⟨number, middle, last, middleContext, partDone, endsLast, _, leftContext⟩ :=
    inScope_done (functionPart_adds (stmt_adds room) address decl) scopeDone endsLeft
  obtain ⟨_, brought, paramsDone, rest⟩ := bind_eq_ok.1 partDone
  obtain ⟨body, closing, bodyDone, rest⟩ := bind_eq_ok.1 rest
  cases rest
  have bodyAdds := each_adds (fun index => stmt_adds room (address.child index)) 0 decl.body
  have middleSound : middle.context.Sound final.notes none := by
    rw [middleContext, enteredContext]
    apply (sound.inFunction kind).within
    · simp
    · intro name bound
      cases bound
    · rfl
  obtain ⟨broughtContext, known, _, distinct, broughtSound⟩ :=
    params_done isName paramsDone (bodyAdds.endsWell bodyDone endsLast) middleContext middleSound
  obtain ⟨closingContext, _, bodyBare, bodyScoped⟩ :=
    body_accepted accepted bodyDone endsLast broughtSound
  rw [broughtContext, enteredContext] at closingContext bodyScoped
  refine ⟨?_, ?_, ?_⟩
  · rw [afterContext, leftContext, closingContext, Context.outside_foldl_after]
    rfl
  · obtain ⟨name, params, statements⟩ := decl
    simp only [FunctionDecl.map, Stmt.mapAll_eq_map, id_eq, List.map_id_fun, FunctionDecl.name,
      FunctionDecl.params]
    exact congrArg _ bodyBare
  · apply FunctionDecl.Scoped.mk _ distinct bodyScoped
    intro param member
    exact ⟨known param member, (isName param member).2⟩

/-- The methods of a class are laid out well in the scope of `this`. -/
theorem methodsRest_accepted {methods : List (FunctionDecl Unit)}
    {results : List (FunctionDecl Site)} {context : Context}
    (accepted : ∀ method ∈ methods, DeclAccepted final method)
    (succeeded : methodsRest (stmt room) address methods start = .ok results after)
    (endsWell : EndsWell final after) (here : start.context = context)
    (sound : ∀ number, (number, "this") ∈ final.notes.put →
      (context.within number (Scope.only "this")).Sound final.notes none) :
    after.context = context ∧ results.map (FunctionDecl.map id fun _ => ()) = methods ∧
      ∃ number, (number, "this") ∈ final.notes.put ∧
        ∀ (index : Nat) (method : FunctionDecl Site), results[index]? = some method →
          method.Scoped final.notes (context.within number (Scope.only "this"))
            (address.child (index + 1)) := by
  obtain ⟨number, middle, last, middleContext, partDone, endsLast, known, leftContext⟩ :=
    inScope_done (methods_adds (stmt_adds room) address 1 methods) succeeded endsWell
  have middleContext : middle.context = context.within number (Scope.only "this") :=
    here ▸ middleContext
  have knownThis := known "this" rfl
  have middleSound : middle.context.Sound final.notes none := middleContext ▸ sound number knownThis
  have adds := fun (index : Nat) (method : FunctionDecl Unit) =>
    (functionRest_adds (stmt_adds room) (Scoping.methodKind method) (address.child index)
      method).mono fun _ inside => inside.isWithin
  obtain ⟨unmoved, bareEq, allScoped⟩ :=
    each_accepted adds (fun method member index => accepted method member room _ _) partDone
      endsLast middleSound
  rw [unmoved, middleContext] at leftContext
  refine ⟨leftContext, bareEq, number, knownThis, ?_⟩
  intro index method there
  rw [Nat.add_comm, ← middleContext]
  exact allScoped index method there

theorem var_accepted {name : Token} {initializer : Option (Expr Unit)}
    (notThis : name.lexeme ≠ "this") (notSuper : name.lexeme ≠ "super")
    (accepted : ∀ value ∈ initializer, ExprAccepted final (some name.lexeme) value) :
    StmtAccepted final (.var name initializer) := by
  intro room address start result after succeeded endsWell sound
  cases room with
  | zero => cases succeeded
  | succ room =>
      obtain ⟨_, seen, visited, rest⟩ := bind_eq_ok.1 succeeded
      obtain ⟨_, declared, declareDone, rest⟩ := bind_eq_ok.1 rest
      obtain ⟨found, filled, initializerDone, rest⟩ := bind_eq_ok.1 rest
      obtain ⟨_, last, defineDone, rest⟩ := bind_eq_ok.1 rest
      cases rest
      have defineSilent : Adds nowhere (lift (Scoping.define name.lexeme)) := define_adds _
      have declareSilent : Adds nowhere (declare name) := declare_adds _
      have endsFilled := defineSilent.endsWell defineDone endsWell
      have endsDeclared :=
        (optional_adds (expr_adds room (address.child 0)) initializer).endsWell initializerDone
          endsFilled
      have endsSeen := declareSilent.endsWell declareDone endsDeclared
      obtain ⟨same, inSurvey⟩ := visit_seen visited endsSeen
      obtain ⟨declaredContext, admitted⟩ := declare_done declareDone endsDeclared
      have lacks := declare_lacks declareDone endsDeclared
      rw [same] at declaredContext admitted lacks
      have pendingSound := sound.declare admitted notThis notSuper
      have filledPart : filled.context = declared.context ∧ found.map Expr.bare = initializer ∧
          ∀ value ∈ found,
            value.Scoped final.notes declared.context (address.child 0) := by
        cases initializer with
        | none =>
            cases initializerDone
            exact ⟨rfl, rfl, by simp⟩
        | some value =>
            obtain ⟨result, reached, valueDone, rest⟩ := bind_eq_ok.1 initializerDone
            cases rest
            rw [← declaredContext] at pendingSound
            obtain ⟨unmoved, valueBare, valueScoped⟩ :=
              accepted value rfl _ _ _ _ _ valueDone endsFilled pendingSound
            refine ⟨unmoved, congrArg some valueBare, ?_⟩
            intro other same
            cases same
            exact valueScoped
      obtain ⟨unmoved, initializerBare, initializerScoped⟩ := filledPart
      have defined := define_done defineDone
      rw [unmoved, declaredContext] at defined
      have bareEq : (Stmt.var name found).bare = .var name initializer := by
        simp only [Stmt.map, initializerBare, id_eq]
      refine ⟨defined, defined ▸ pendingSound.define admitted, bareEq, ?_⟩
      apply Stmt.Scoped.mk
      · rw [bareEq]
        exact inSurvey
      · apply Stmt.PartsScoped.var admitted lacks notSuper
        rw [← declaredContext]
        exact initializerScoped

theorem block_accepted {body : List (Stmt Unit)}
    (accepted : ∀ s ∈ body, StmtAccepted final s) : StmtAccepted final (.block body) := by
  intro room address start result after succeeded endsWell sound
  cases room with
  | zero => cases succeeded
  | succ room =>
      obtain ⟨_, seen, visited, rest⟩ := bind_eq_ok.1 succeeded
      obtain ⟨found, closed, scopeDone, rest⟩ := bind_eq_ok.1 rest
      cases rest
      have bodyAdds := each_adds (fun index => stmt_adds room (address.child index)) 0 body
      have endsSeen := (inScope_adds bodyAdds).endsWell scopeDone endsWell
      obtain ⟨same, inSurvey⟩ := visit_seen visited endsSeen
      obtain ⟨number, middle, last, middleContext, bodyDone, endsLast, _, closedContext⟩ :=
        inScope_done bodyAdds scopeDone endsWell
      rw [same] at middleContext
      have middleSound : middle.context.Sound final.notes none := by
        rw [middleContext]
        apply sound.within
        · simp
        · intro name bound
          cases bound
        · rfl
      obtain ⟨lastContext, _, bodyBare, bodyScoped⟩ :=
        body_accepted accepted bodyDone endsLast middleSound
      rw [middleContext] at lastContext bodyScoped
      rw [lastContext, Context.outside_foldl_after] at closedContext
      have bareEq : (Stmt.block found).bare = .block body := by
        simp only [Stmt.map, Stmt.mapAll_eq_map]
        exact congrArg _ bodyBare
      refine ⟨closedContext, closedContext.symm ▸ sound, bareEq, ?_⟩
      apply Stmt.Scoped.mk
      · rw [bareEq]
        exact inSurvey
      · exact .block bodyScoped

theorem conditional_accepted {condition : Expr Unit} {thenBranch : Stmt Unit}
    {elseBranch : Option (Stmt Unit)} (conditionAccepted : ExprAccepted final none condition)
    (thenAccepted : StmtAccepted final thenBranch) (thenDeclares : thenBranch.declares = none)
    (elseAccepted : ∀ branch ∈ elseBranch, StmtAccepted final branch)
    (elseDeclares : ∀ branch ∈ elseBranch, branch.declares = none) :
    StmtAccepted final (.conditional condition thenBranch elseBranch) := by
  intro room address start result after succeeded endsWell sound
  cases room with
  | zero => cases succeeded
  | succ room =>
      obtain ⟨_, seen, visited, rest⟩ := bind_eq_ok.1 succeeded
      obtain ⟨conditionFound, tested, conditionDone, rest⟩ := bind_eq_ok.1 rest
      obtain ⟨thenFound, middle, thenDone, rest⟩ := bind_eq_ok.1 rest
      obtain ⟨elseFound, last, elseDone, rest⟩ := bind_eq_ok.1 rest
      cases rest
      have endsMiddle :=
        (optional_adds (stmt_adds room (address.child 2)) elseBranch).endsWell elseDone endsWell
      have endsTested := (stmt_adds room _ thenBranch).endsWell thenDone endsMiddle
      have endsSeen := (expr_adds room _ condition).endsWell conditionDone endsTested
      obtain ⟨same, inSurvey⟩ := visit_seen visited endsSeen
      rw [← same] at sound ⊢
      obtain ⟨testedContext, conditionBare, conditionScoped⟩ :=
        conditionAccepted _ _ _ _ _ conditionDone endsTested sound
      obtain ⟨middleContext, middleSound, thenBare, thenScoped⟩ :=
        thenAccepted _ _ _ _ _ thenDone endsMiddle (testedContext ▸ sound)
      rw [testedContext] at middleContext thenScoped
      rw [Context.after_of_declares_eq_none thenDeclares] at middleContext
      have elsePart : after.context = seen.context ∧ elseFound.map Stmt.bare = elseBranch ∧
          (∀ branch ∈ elseFound,
            branch.Scoped final.notes seen.context (address.child 2)) ∧
          ∀ branch ∈ elseFound, branch.declares = none := by
        cases elseBranch with
        | none =>
            cases elseDone
            exact ⟨middleContext, rfl, by simp, by simp⟩
        | some branch =>
            obtain ⟨found, reached, branchDone, rest⟩ := bind_eq_ok.1 elseDone
            cases rest
            obtain ⟨endContext, _, branchBare, branchScoped⟩ :=
              elseAccepted branch rfl _ _ _ _ _ branchDone endsWell middleSound
            have declaresNothing := elseDeclares branch rfl
            rw [Context.after_of_declares_eq_none declaresNothing] at endContext
            refine ⟨endContext.trans middleContext, congrArg some branchBare, ?_, ?_⟩
            · intro other same
              cases same
              exact middleContext ▸ branchScoped
            · intro other same
              cases same
              rw [← Stmt.declares_bare, branchBare, declaresNothing]
      obtain ⟨endContext, elseBare, elseScoped, elseDeclaresNothing⟩ := elsePart
      have bareEq : (Stmt.conditional conditionFound thenFound elseFound).bare =
          .conditional condition thenBranch elseBranch := by
        subst elseBare
        cases elseFound <;> simp only [Stmt.map, conditionBare, thenBare, Option.map]
      refine ⟨endContext, endContext.symm ▸ sound, bareEq, ?_⟩
      apply Stmt.Scoped.mk
      · rw [bareEq]
        exact same ▸ inSurvey
      · apply Stmt.PartsScoped.conditional conditionScoped thenScoped _ elseScoped
          elseDeclaresNothing
        rw [← Stmt.declares_bare, thenBare, thenDeclares]

theorem loop_accepted {condition : Expr Unit} {body : Stmt Unit}
    (conditionAccepted : ExprAccepted final none condition)
    (bodyAccepted : StmtAccepted final body) (bodyDeclares : body.declares = none) :
    StmtAccepted final (.loop condition body) := by
  intro room address start result after succeeded endsWell sound
  cases room with
  | zero => cases succeeded
  | succ room =>
      obtain ⟨_, seen, visited, rest⟩ := bind_eq_ok.1 succeeded
      obtain ⟨conditionFound, tested, conditionDone, rest⟩ := bind_eq_ok.1 rest
      obtain ⟨bodyFound, last, bodyDone, rest⟩ := bind_eq_ok.1 rest
      cases rest
      have endsTested := (stmt_adds room _ body).endsWell bodyDone endsWell
      have endsSeen := (expr_adds room _ condition).endsWell conditionDone endsTested
      obtain ⟨same, inSurvey⟩ := visit_seen visited endsSeen
      rw [← same] at sound ⊢
      obtain ⟨testedContext, conditionBare, conditionScoped⟩ :=
        conditionAccepted _ _ _ _ _ conditionDone endsTested sound
      obtain ⟨endContext, _, bodyBare, bodyScoped⟩ :=
        bodyAccepted _ _ _ _ _ bodyDone endsWell (testedContext ▸ sound)
      rw [testedContext] at endContext bodyScoped
      rw [Context.after_of_declares_eq_none bodyDeclares] at endContext
      have bareEq : (Stmt.loop conditionFound bodyFound).bare = .loop condition body := by
        simp only [Stmt.map, conditionBare, bodyBare]
      refine ⟨endContext, endContext.symm ▸ sound, bareEq, ?_⟩
      apply Stmt.Scoped.mk
      · rw [bareEq]
        exact same ▸ inSurvey
      · apply Stmt.PartsScoped.loop conditionScoped bodyScoped
        rw [← Stmt.declares_bare, bodyBare, bodyDeclares]

theorem single_accepted {value : Expr Unit} {s : Stmt Unit} (build : Expr Site → Stmt Site)
    (valueAccepted : ExprAccepted final none value) (declaresNothing : s.declares = none)
    (unfolded : ∀ room address, stmt (room + 1) address s = (do
      visit address (.stmt s)
      return build (← expr room (address.child 0) value)))
    (bareEq : ∀ found : Expr Site, found.bare = value → (build found).bare = s)
    (parts : ∀ (context : Context) (address : Address) (found : Expr Site),
      found.Scoped final.notes context (address.child 0) →
      (build found).PartsScoped final.notes context address) : StmtAccepted final s := by
  intro room address start result after succeeded endsWell sound
  cases room with
  | zero => cases succeeded
  | succ room =>
      rw [unfolded] at succeeded
      obtain ⟨unmoved, inSurvey, found, rfl, valueBare, valueScoped⟩ :=
        oneChild_accepted valueAccepted succeeded endsWell sound
      have sameBare := bareEq found valueBare
      rw [Context.after_of_declares_eq_none declaresNothing]
      exact ⟨unmoved, unmoved.symm ▸ sound, sameBare,
        .mk (sameBare.symm ▸ inSurvey) (parts _ _ _ valueScoped)⟩

theorem function_accepted {decl : FunctionDecl Unit} (notThis : decl.name.lexeme ≠ "this")
    (notSuper : decl.name.lexeme ≠ "super") (accepted : DeclAccepted final decl) :
    StmtAccepted final (.function decl) := by
  intro room address start result after succeeded endsWell sound
  cases room with
  | zero => cases succeeded
  | succ room =>
      obtain ⟨_, seen, visited, rest⟩ := bind_eq_ok.1 succeeded
      obtain ⟨_, declared, declareDone, rest⟩ := bind_eq_ok.1 rest
      obtain ⟨_, defined, defineDone, rest⟩ := bind_eq_ok.1 rest
      obtain ⟨found, last, declDone, rest⟩ := bind_eq_ok.1 rest
      cases rest
      have endsDefined :=
        (functionRest_adds (stmt_adds room) .function address decl).endsWell declDone endsWell
      obtain ⟨endsSeen, admitted, lacks, brought⟩ :=
        bring_done declareDone defineDone endsDefined
      obtain ⟨same, inSurvey⟩ := visit_seen visited endsSeen
      rw [same] at admitted lacks brought
      have broughtSound := sound.bring admitted notThis notSuper
      rw [← brought] at broughtSound
      obtain ⟨endContext, declBare, declScoped⟩ :=
        accepted _ _ _ _ _ _ declDone endsWell broughtSound
      have bareEq : (Stmt.function found).bare = .function decl := by
        simp only [Stmt.map, declBare]
      have sameName : found.name = decl.name := by
        rw [← declBare, FunctionDecl.name_map, id_eq]
      refine ⟨endContext.trans brought, endContext.symm ▸ broughtSound, bareEq, ?_⟩
      apply Stmt.Scoped.mk
      · rw [bareEq]
        exact inSurvey
      · apply Stmt.PartsScoped.function
        · exact sameName ▸ admitted
        · exact sameName ▸ lacks
        · exact sameName ▸ notSuper
        · rw [sameName, ← brought]
          exact declScoped

theorem return_accepted {keyword : Token} {value : Option (Expr Unit)}
    (accepted : ∀ result ∈ value, ExprAccepted final none result) :
    StmtAccepted final (.return keyword value) := by
  intro room address start result after succeeded endsWell sound
  cases room with
  | zero => cases succeeded
  | succ room =>
      obtain ⟨_, seen, visited, rest⟩ := bind_eq_ok.1 succeeded
      obtain ⟨state, asked, got, rest⟩ := bind_eq_ok.1 rest
      cases got
      have restAdds := returnRest_adds room address keyword value
      obtain ⟨inFunction, rest⟩ := complaint_avoided restAdds rest endsWell
      have endsSeen := restAdds.endsWell rest endsWell
      obtain ⟨same, inSurvey⟩ := visit_seen visited endsSeen
      have isInside : start.context.function ≠ .none := same ▸ inFunction
      have valuePart : after.context = start.context ∧ ∃ found, result = .return keyword found ∧
          found.map Expr.bare = value ∧
          ∀ result ∈ found, result.Scoped final.notes start.context (address.child 0) := by
        cases value with
        | none =>
            cases rest
            exact ⟨same, none, rfl, rfl, by simp⟩
        | some value =>
            obtain ⟨state, asked, got, rest⟩ := bind_eq_ok.1 rest
            cases got
            have returnedAdds := returned_adds room address keyword value
            obtain ⟨_, rest⟩ := complaint_avoided returnedAdds rest endsWell
            obtain ⟨found, last, valueDone, rest⟩ := bind_eq_ok.1 rest
            cases rest
            obtain ⟨unmoved, valueBare, valueScoped⟩ :=
              accepted value rfl _ _ _ _ _ valueDone endsWell (same ▸ sound)
            refine ⟨unmoved.trans same, some found, rfl, congrArg some valueBare, ?_⟩
            intro other sameValue
            cases sameValue
            exact same ▸ valueScoped
      obtain ⟨unmoved, found, rfl, valueBare, valueScoped⟩ := valuePart
      have bareEq : (Stmt.return keyword found).bare = .return keyword value := by
        simp only [Stmt.map, valueBare, id_eq]
      refine ⟨unmoved, unmoved.symm ▸ sound, bareEq, ?_⟩
      apply Stmt.Scoped.mk
      · rw [bareEq]
        exact inSurvey
      · exact .return isInside valueScoped

/-- The superclass is not the class itself, so that it is found where it was before. -/
theorem superclass_accepted {name : Token} {parent : Superclass Unit}
    {result : Superclass Site} {context : Context}
    (succeeded : superclass address name parent start = .ok result after)
    (endsWell : EndsWell final after)
    (here : start.context = (context.inClass .plain).bring name.lexeme)
    (sound : (context.bring name.lexeme).Sound final.notes none) :
    after.context = (context.inClass .derived).bring name.lexeme ∧
      result.map id (fun _ => ()) = parent ∧
      ⟨address, .expr (.variable parent.name ()),
        (context.inClass .derived).bring name.lexeme⟩ ∈ final.notes.visits ∧
      ∀ distance ∈ result.site,
        ((context.inClass .derived).bring name.lexeme).Finds distance result.name.lexeme ∧
          context.Holds distance result.name.lexeme := by
  unfold superclass at succeeded
  obtain ⟨distinct, rest⟩ :=
    complaint_avoided (superclassRest_adds address parent) succeeded endsWell
  obtain ⟨_, marked, markDone, rest⟩ := bind_eq_ok.1 rest
  obtain ⟨_, seen, visited, rest⟩ := bind_eq_ok.1 rest
  obtain ⟨site, last, referred, rest⟩ := bind_eq_ok.1 rest
  cases rest
  cases markDone
  have silent : Adds nowhere (lift (Scoping.reference parent.name)) := reference_adds _
  have endsSeen := silent.endsWell referred endsWell
  obtain ⟨same, inSurvey⟩ := visit_seen visited endsSeen
  have markedContext : seen.context = (context.inClass .derived).bring name.lexeme := by
    rw [same]
    have inClass := congrArg (·.inClass .derived) here
    exact inClass
  have scopesEq : seen.context.scopes = (context.bring name.lexeme).scopes := by
    rw [markedContext]
    rfl
  obtain ⟨unmoved, holds⟩ := reference_found referred endsWell fun distance scope other there
    isPending => (sound.defined distance scope other (scopesEq ▸ there) isPending).1
  refine ⟨unmoved.trans markedContext, rfl, markedContext ▸ same ▸ inSurvey, ?_⟩
  intro distance isSite
  obtain ⟨first, found⟩ := holds distance isSite
  rw [markedContext] at first found
  rcases Context.Holds.of_bring found with ⟨_, sameName⟩ | before
  · exact absurd sameName distinct
  · exact ⟨first, before⟩

theorem class_accepted {name : Token} {parent : Option (Superclass Unit)}
    {methods : List (FunctionDecl Unit)} (notThis : name.lexeme ≠ "this")
    (notSuper : name.lexeme ≠ "super")
    (accepted : ∀ method ∈ methods, DeclAccepted final method) :
    StmtAccepted final (.class name parent methods) := by
  intro room address start result after succeeded endsWell sound
  cases room with
  | zero => cases succeeded
  | succ room =>
      obtain ⟨_, seen, visited, rest⟩ := bind_eq_ok.1 succeeded
      obtain ⟨entered, left, entering, enteredContext, partDone, endsLeft, leftContext⟩ :=
        inClass_done rest endsWell
      obtain ⟨_, declared, declareDone, rest⟩ := bind_eq_ok.1 partDone
      obtain ⟨_, defined, defineDone, rest⟩ := bind_eq_ok.1 rest
      have methodsAdds := methodsRest_adds (stmt_adds room) address methods
      -- The name is usable before anything is said about a superclass.
      have beginning (endsDefined : EndsWell final defined) :
          ⟨address, .stmt (.class name parent methods), start.context⟩ ∈ final.notes.visits ∧
            start.context.Admits final.notes name.lexeme ∧ start.context.Lacks name.lexeme ∧
            defined.context = (start.context.inClass .plain).bring name.lexeme ∧
            after.context = left.context.inClass start.context.classKind := by
        obtain ⟨endsEntered, admitted, lacks, brought⟩ :=
          bring_done declareDone defineDone endsDefined
        obtain ⟨same, inSurvey⟩ := visit_seen visited (endsEntered.earlier entering)
        rw [enteredContext, same] at admitted lacks brought
        rw [same] at leftContext
        exact ⟨inSurvey, admitted, lacks, brought, leftContext⟩
      cases parent with
      | none =>
          obtain ⟨found, last, methodsDone, rest⟩ := bind_eq_ok.1 rest
          cases rest
          have endsDefined := methodsAdds.endsWell methodsDone endsLeft
          obtain ⟨inSurvey, admitted, lacks, definedContext, afterContext⟩ := beginning endsDefined
          have broughtSound := sound.bring admitted notThis notSuper
          obtain ⟨lastContext, methodsBare, number, knownThis, methodsScoped⟩ :=
            methodsRest_accepted accepted methodsDone endsLeft definedContext
              fun number known => broughtSound.plainMethods known
          have bareEq : (Stmt.class name none found).bare = .class name none methods := by
            simp only [Stmt.map, Option.map, FunctionDecl.mapAll_eq_map, methodsBare, id_eq]
          have restored : after.context = start.context.bring name.lexeme := by
            rw [afterContext, lastContext]
            rfl
          refine ⟨restored, restored.symm ▸ broughtSound, bareEq, ?_⟩
          apply Stmt.Scoped.mk
          · rw [bareEq]
            exact inSurvey
          · exact .plainClass admitted lacks notSuper knownThis methodsScoped
      | some parent =>
          obtain ⟨parentFound, inherited, parentDone, rest⟩ := bind_eq_ok.1 rest
          obtain ⟨found, last, scopeDone, rest⟩ := bind_eq_ok.1 rest
          cases rest
          have endsInherited := (inScope_adds methodsAdds).endsWell scopeDone endsLeft
          have endsDefined :=
            (superclass_adds _ name parent).endsWell parentDone endsInherited
          obtain ⟨inSurvey, admitted, lacks, definedContext, afterContext⟩ := beginning endsDefined
          have broughtSound := sound.bring admitted notThis notSuper
          obtain ⟨inheritedContext, parentBare, parentInSurvey, parentHolds⟩ :=
            superclass_accepted parentDone endsInherited definedContext broughtSound
          obtain ⟨outer, middle, closing, middleContext, methodsDone, endsClosing, known,
            lastContext⟩ := inScope_done methodsAdds scopeDone endsLeft
          rw [inheritedContext] at middleContext
          have knownSuper := known "super" rfl
          obtain ⟨closingContext, methodsBare, number, knownThis, methodsScoped⟩ :=
            methodsRest_accepted accepted methodsDone endsClosing middleContext
              fun number known => broughtSound.derivedMethods knownSuper known
          subst parentBare
          have bareEq : (Stmt.class name (some parentFound) found).bare =
              .class name (some (parentFound.map id fun _ => ())) methods := by
            simp only [Stmt.map, Option.map, FunctionDecl.mapAll_eq_map, methodsBare, id_eq]
          have restored : after.context = start.context.bring name.lexeme := by
            rw [afterContext, lastContext, closingContext]
            rfl
          refine ⟨restored, restored.symm ▸ broughtSound, bareEq, ?_⟩
          apply Stmt.Scoped.mk
          · rw [bareEq]
            exact inSurvey
          · exact .derivedClass admitted lacks notSuper parentInSurvey parentHolds knownSuper
              knownThis methodsScoped

end Parts

/-- Every statement of the grammar is laid out well, and so is every function. -/
theorem stmt_accepted {position : Position} {s : Stmt Unit}
    (grammatical : s.Grammatical position) (worded : ∀ token ∈ s.tokens, token.Worded) :
    StmtAccepted final s ∧ ∀ decl, s = .function decl → DeclAccepted final decl := by
  induction grammatical with
  | @expression _ value obeys =>
      refine ⟨?_, by simp⟩
      apply single_accepted .expression (expr_accepted obeys worded) rfl
      · exact fun _ _ => rfl
      · intro found valueBare
        simp only [Stmt.map, valueBare]
      · exact fun _ _ _ valueScoped => .expression valueScoped
  | @print _ value obeys =>
      refine ⟨?_, by simp⟩
      apply single_accepted .print (expr_accepted obeys worded) rfl
      · exact fun _ _ => rfl
      · intro found valueBare
        simp only [Stmt.map, valueBare]
      · exact fun _ _ _ valueScoped => .print valueScoped
  | @var name initializer isName obeys =>
      have nameWorded := worded name (by simp [Stmt.tokens])
      refine ⟨?_, by simp⟩
      apply var_accepted (nameWorded.ne_this isName) (nameWorded.ne_super isName)
      intro value isInitializer
      cases isInitializer
      exact expr_accepted (obeys value rfl) fun token member => worded token
        (by simp [Stmt.tokens, Expr.tokensOfOptional, member])
  | @block _ body _ induction =>
      refine ⟨?_, by simp⟩
      apply block_accepted
      intro s member
      exact (induction s member fun token inside => worded token (by
        simp only [Stmt.tokens, Stmt.tokensOfAll_eq_flatMap, List.mem_flatMap]
        exact ⟨s, member, inside⟩)).1
  | @conditional _ condition thenBranch elseBranch obeys thenObeys elseObeys _ thenInduction
      elseInduction =>
      refine ⟨?_, by simp⟩
      apply conditional_accepted
      · apply expr_accepted obeys
        intro token member
        apply worded token
        cases elseBranch <;> simp [Stmt.tokens, member]
      · apply And.left
        apply thenInduction
        intro token member
        apply worded token
        cases elseBranch <;> simp [Stmt.tokens, member]
      · exact thenObeys.declares_eq_none
      · intro branch isElse
        cases isElse
        exact (elseInduction branch rfl fun token member => worded token
          (by simp [Stmt.tokens, member])).1
      · intro branch isElse
        exact (elseObeys branch isElse).declares_eq_none
  | @loop _ condition body obeys bodyObeys induction =>
      refine ⟨?_, by simp⟩
      apply loop_accepted
      · exact expr_accepted obeys fun token member => worded token
          (by simp [Stmt.tokens, member])
      · exact (induction fun token member => worded token (by simp [Stmt.tokens, member])).1
      · exact bodyObeys.declares_eq_none
  | @function name params body isName paramsAre _ _ induction =>
      have accepted : DeclAccepted final ⟨name, params, body⟩ := by
        apply functionRest_accepted
        · intro param member
          have paramWorded := worded param (by
            simp only [Stmt.tokens, FunctionDecl.tokens, List.mem_cons, List.mem_append]
            exact .inr (.inl member))
          exact ⟨paramWorded.ne_this (paramsAre param member),
            paramWorded.ne_super (paramsAre param member)⟩
        · intro s member
          exact (induction s member fun token inside => worded token (by
            simp only [Stmt.tokens, FunctionDecl.tokens, Stmt.tokensOfAll_eq_flatMap,
              List.mem_cons, List.mem_append, List.mem_flatMap]
            exact .inr (.inr ⟨s, member, inside⟩))).1
      have nameWorded := worded name (by simp [Stmt.tokens, FunctionDecl.tokens])
      refine ⟨?_, ?_⟩
      · exact function_accepted (nameWorded.ne_this isName) (nameWorded.ne_super isName) accepted
      · intro decl same
        cases same
        exact accepted
  | @«return» _ keyword value _ obeys =>
      refine ⟨?_, by simp⟩
      apply return_accepted
      intro result isValue
      cases isValue
      exact expr_accepted (obeys result rfl) fun token member => worded token
        (by simp [Stmt.tokens, Expr.tokensOfOptional, member])
  | @«class» name superclass methods isName _ _ induction =>
      have nameWorded := worded name (by simp [Stmt.tokens])
      refine ⟨?_, by simp⟩
      apply class_accepted (nameWorded.ne_this isName) (nameWorded.ne_super isName)
      intro method member
      exact (induction method member fun token inside => worded token (by
        simp only [Stmt.tokens, FunctionDecl.tokensOfAll_eq_flatMap, List.mem_cons,
          List.mem_append, List.mem_flatMap]
        exact .inr (.inr ⟨method, member, inside⟩))).2 method rfl

/-- The statements of a program that is accepted are laid out well at the top level. -/
theorem program_accepted {room program : Nat} {statements : List (Stmt Unit)}
    {results : List (Stmt Site)} {survey : Survey} {after : Watched ScopeState Survey}
    (grammatical : ∀ s ∈ statements, s.Grammatical .list)
    (worded : ∀ s ∈ statements, ∀ token ∈ s.tokens, token.Worded)
    (nothingOpen : survey.opened = [])
    (succeeded : each (fun index => stmt room (Address.child ⟨program, []⟩ index)) 0 statements
      ⟨ScopeState.start, survey⟩ = .ok results after)
    (endsWell : EndsWell final after) :
    results.map Stmt.bare = statements ∧
      Stmt.ListScoped final.notes ⟨[], [], .none, .none⟩ ⟨program, []⟩ 0 results := by
  have atTop : Watched.context ⟨ScopeState.start, survey⟩ = ⟨[], [], .none, .none⟩ := by
    simp only [Watched.context, ScopeState.start, nothingOpen]
  obtain ⟨_, _, bareEq, allScoped⟩ :=
    body_accepted (fun s member => (stmt_accepted (grammatical s member) (worded s member)).1)
      succeeded endsWell (atTop.symm ▸ Context.Sound.top)
  exact ⟨bareEq, atTop ▸ allScoped⟩

end Surveying

end LoxLang
