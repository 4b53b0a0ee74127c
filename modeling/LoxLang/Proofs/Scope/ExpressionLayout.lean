import LoxLang.Proofs.Scope.Growth
import LoxLang.Proofs.Scope.Soundness
import LoxLang.Proofs.TreeTokens
import LoxLang.Proofs.Words

/-!
# Accepted expressions are laid out well

If the pass comes through an expression of the grammar and ends without a
complaint, then the tree with its sites is laid out well, and without its sites it
is the tree that was visited.
-/

namespace LoxLang.Surveying

open Watched (lift note)

variable {α β : Type} {final start after : Watched ScopeState Survey} {pending : Option String}

/-- A state from which the pass came to an end without a complaint. -/
structure EndsWell (final after : Watched ScopeState Survey) : Prop where
  grows : Grows after final
  quiet : final.state.complaints = []

namespace EndsWell

theorem earlier (endsWell : EndsWell final after) (grows : Grows start after) :
    EndsWell final start :=
  ⟨grows.trans endsWell.grows, endsWell.quiet⟩

theorem complaints (endsWell : EndsWell final after) : after.state.complaints = [] := by
  have suffix := endsWell.grows.complaints
  rw [endsWell.quiet] at suffix
  exact List.suffix_nil.1 suffix

end EndsWell

/-- A part that comes before the end of a part that ended well. -/
theorem Adds.endsWell {region : Address → Prop} {part : Surveying α} {result : α}
    (adds : Adds region part) (succeeded : part start = .ok result after)
    (endsWell : EndsWell final after) : EndsWell final start :=
  endsWell.earlier (adds _ _ _ succeeded).1

theorem lift_eq_ok {plain : Scoping α} {result : α} :
    lift plain start = .ok result after ↔
      plain start.state = .ok result after.state ∧ after.notes = start.notes := by
  unfold lift
  cases plain start.state with
  | ok found state =>
      constructor
      · intro succeeded
        cases succeeded
        exact ⟨rfl, rfl⟩
      · intro parts
        obtain ⟨outcome, notes⟩ := parts
        cases outcome
        rw [← notes]
  | error stop state =>
      constructor
      · intro succeeded
        cases succeeded
      · intro parts
        cases parts.1

/-- What surrounds a place is seen by all steps that leave it alone. -/
theorem context_of_lift {plain : Scoping α} {result : α}
    (succeeded : lift plain start = .ok result after)
    (same : after.state.scopes = start.state.scopes ∧
      after.state.function = start.state.function ∧
      after.state.classKind = start.state.classKind) : after.context = start.context := by
  obtain ⟨_, notes⟩ := lift_eq_ok.1 succeeded
  obtain ⟨scopes, function, classKind⟩ := same
  unfold Watched.context
  rw [notes, scopes, function, classKind]

section Steps

theorem visit_seen {address : Address} {node : Node Unit} {result : Unit}
    (succeeded : visit address node start = .ok result after) (endsWell : EndsWell final after) :
    after.context = start.context ∧ ⟨address, node, start.context⟩ ∈ final.notes.visits := by
  cases succeeded
  refine ⟨rfl, ?_⟩
  apply endsWell.grows.visits.subset
  exact List.mem_cons_self

/-- A pass that ends without a complaint has not complained on the way. -/
theorem complaint_avoided {condition : Prop} [Decidable condition] {about : Token}
    {error : ScopeError} {next : Unit → Surveying α} {result : α} {region : Address → Prop}
    (adds : Adds region (next ()))
    (succeeded : (if condition then lift (Scoping.complain about error) >>= next else next ())
      start = .ok result after)
    (endsWell : EndsWell final after) : ¬condition ∧ next () start = .ok result after := by
  split at succeeded
  · obtain ⟨_, complained, complaint, rest⟩ := bind_eq_ok.1 succeeded
    cases complaint
    have quiet := (adds.endsWell rest endsWell).complaints
    cases quiet
  · rename_i fine
    exact ⟨fine, succeeded⟩

theorem distance?_eq_some {scopes : List Scope} {name : String} {distance : Nat}
    (found : Scope.distance? scopes name = some distance) :
    ∃ scope, scopes[distance]? = some scope ∧ scope.binds name := by
  obtain ⟨inside, bound, _⟩ := List.findIdx?_eq_some_iff_getElem.1 found
  exact ⟨scopes[distance], List.getElem?_eq_getElem inside, bound⟩

theorem distance?_isSome {context : Context} {name : String} {distance : Nat}
    (holds : context.Holds distance name) :
    ∃ found, Scope.distance? context.scopes name = some found := by
  obtain ⟨scope, there, usable⟩ := holds
  apply Option.isSome_iff_exists.1
  apply List.findIdx?_isSome.trans
  apply List.any_eq_true.2
  refine ⟨scope, List.mem_of_getElem? there, ?_⟩
  simp [Table.binds, usable]

theorem locate_found {kind : ReferenceKind} {name : Token} {site : Site}
    (succeeded : lift (Scoping.locate kind name) start = .ok site after) :
    after.context = start.context ∧
      site = Scope.distance? start.context.scopes name.lexeme := by
  have located := (lift_eq_ok.1 succeeded).1
  unfold Scoping.locate at located
  split at located
  · rename_i missing
    simp only [EStateM.Result.ok.injEq] at located
    refine ⟨context_of_lift succeeded ?_, located.1.symm.trans missing.symm⟩
    rw [← located.2]
    exact ⟨rfl, rfl, rfl⟩
  · rename_i distance found
    simp only [EStateM.Result.ok.injEq] at located
    refine ⟨context_of_lift succeeded ?_, located.1.symm.trans found.symm⟩
    rw [← located.2]
    exact ⟨rfl, rfl, rfl⟩

/-- A variable is read where its name is usable. -/
theorem reference_found {name : Token} {site : Site}
    (succeeded : lift (Scoping.reference name) start = .ok site after)
    (endsWell : EndsWell final after)
    (defined : ∀ (distance : Nat) (scope : Scope) (name : String),
      start.context.scopes[distance]? = some scope → scope.get? name = some false →
      distance = 0) :
    after.context = start.context ∧ ∀ distance ∈ site,
      start.context.Finds distance name.lexeme ∧ start.context.Holds distance name.lexeme := by
  obtain ⟨referred, notes⟩ := lift_eq_ok.1 succeeded
  obtain ⟨isPending, middle, asked, rest⟩ := bind_eq_ok.1 referred
  have answered : middle = start.state ∧
      isPending = (start.state.scopes.head?.any fun scope => scope.get? name.lexeme == some false)
      := by
    unfold Scoping.isPending at asked
    split at asked <;> cases asked <;> simp [*]
  obtain ⟨unmoved, isPendingEq⟩ := answered
  subst unmoved
  cases isPending with
  | true =>
      -- The complaint would still be there in the end.
      obtain ⟨_, _, complained, located⟩ := bind_eq_ok.1 rest
      cases complained
      have kept := locate_complaints located
      rw [endsWell.complaints] at kept
      cases kept
  | false =>
      have located : lift (Scoping.locate .variable name) start = .ok site after :=
        lift_eq_ok.2 ⟨rest, notes⟩
      obtain ⟨sameContext, siteEq⟩ := locate_found located
      refine ⟨sameContext, ?_⟩
      intro distance isSite
      rw [siteEq] at isSite
      obtain ⟨scope, there, bound⟩ := distance?_eq_some isSite
      refine ⟨isSite, ?_⟩
      obtain ⟨flag, found⟩ := Option.isSome_iff_exists.1 bound
      cases flag with
      | true => exact ⟨scope, there, found⟩
      | false =>
          have innermost := defined _ _ _ there found
          subst innermost
          have headEq : start.state.scopes.head? = some scope := by
            rw [List.head?_eq_getElem?]
            exact there
          rw [headEq] at isPendingEq
          simp [found] at isPendingEq

end Steps

/-- Whatever comes of visiting the expression is laid out well. -/
def ExprAccepted (final : Watched ScopeState Survey) (pending : Option String) (e : Expr Unit) :
    Prop :=
  ∀ room address start result after, expr room address e start = .ok result after →
    EndsWell final after → start.context.Sound final.notes pending →
    after.context = start.context ∧ result.bare = e ∧
      result.Scoped final.notes start.context address

section Parts

variable {room : Nat} {address : Address} {node : Node Unit} {result : β}

theorem oneChild_accepted {inner : Expr Unit} {index : Nat} {build : Expr Site → β}
    (accepted : ExprAccepted final pending inner)
    (succeeded : (do
      visit address node
      return build (← expr room (address.child index) inner) : Surveying β) start =
        .ok result after)
    (endsWell : EndsWell final after) (sound : start.context.Sound final.notes pending) :
    after.context = start.context ∧ ⟨address, node, start.context⟩ ∈ final.notes.visits ∧
      ∃ found, result = build found ∧ found.bare = inner ∧
        found.Scoped final.notes start.context (address.child index) := by
  obtain ⟨_, seen, visited, rest⟩ := bind_eq_ok.1 succeeded
  obtain ⟨found, last, innerDone, rest⟩ := bind_eq_ok.1 rest
  cases rest
  have endsSeen := (expr_adds room _ inner).endsWell innerDone endsWell
  obtain ⟨same, inSurvey⟩ := visit_seen visited endsSeen
  rw [← same] at sound ⊢
  obtain ⟨unmoved, innerBare, innerScoped⟩ := accepted _ _ _ _ _ innerDone endsWell sound
  exact ⟨unmoved, same ▸ inSurvey, found, rfl, innerBare, innerScoped⟩

theorem twoChildren_accepted {first second : Expr Unit} {firstIndex secondIndex : Nat}
    {build : Expr Site → Expr Site → β} (firstAccepted : ExprAccepted final pending first)
    (secondAccepted : ExprAccepted final pending second)
    (succeeded : (do
      visit address node
      let left ← expr room (address.child firstIndex) first
      let right ← expr room (address.child secondIndex) second
      return build left right : Surveying β) start = .ok result after)
    (endsWell : EndsWell final after) (sound : start.context.Sound final.notes pending) :
    after.context = start.context ∧ ⟨address, node, start.context⟩ ∈ final.notes.visits ∧
      ∃ left right, result = build left right ∧ left.bare = first ∧ right.bare = second ∧
        left.Scoped final.notes start.context (address.child firstIndex) ∧
        right.Scoped final.notes start.context (address.child secondIndex) := by
  obtain ⟨_, seen, visited, rest⟩ := bind_eq_ok.1 succeeded
  obtain ⟨left, middle, firstDone, rest⟩ := bind_eq_ok.1 rest
  obtain ⟨right, last, secondDone, rest⟩ := bind_eq_ok.1 rest
  cases rest
  have endsMiddle := (expr_adds room _ second).endsWell secondDone endsWell
  have endsSeen := (expr_adds room _ first).endsWell firstDone endsMiddle
  obtain ⟨same, inSurvey⟩ := visit_seen visited endsSeen
  rw [← same] at sound ⊢
  obtain ⟨unmoved, firstBare, firstScoped⟩ :=
    firstAccepted _ _ _ _ _ firstDone endsMiddle sound
  rw [← unmoved] at sound
  obtain ⟨stillUnmoved, secondBare, secondScoped⟩ :=
    secondAccepted _ _ _ _ _ secondDone endsWell sound
  rw [unmoved] at stillUnmoved secondScoped
  exact ⟨stillUnmoved, same ▸ inSurvey, left, right, rfl, firstBare, secondBare, firstScoped,
    secondScoped⟩

/-- Several parts, which are the children from an index on, and none of which changes what
surrounds the next one. -/
theorem each_accepted {parts : List α} {results : List β} {index : Nat}
    {visit : Nat → α → Surveying β} {bare : β → α} {Laid : Context → Address → β → Prop}
    (adds : ∀ index part, Adds (·.IsWithin (address.child index)) (visit index part))
    (accepted : ∀ part ∈ parts, ∀ index start result after,
      visit index part start = .ok result after → EndsWell final after →
      start.context.Sound final.notes pending → after.context = start.context ∧
        bare result = part ∧ Laid start.context (address.child index) result)
    (succeeded : each visit index parts start = .ok results after)
    (endsWell : EndsWell final after) (sound : start.context.Sound final.notes pending) :
    after.context = start.context ∧ results.map bare = parts ∧
      ∀ (offset : Nat) (result : β), results[offset]? = some result →
        Laid start.context (address.child (index + offset)) result := by
  induction parts generalizing index start results with
  | nil =>
      cases succeeded
      exact ⟨rfl, rfl, by simp⟩
  | cons first rest induction =>
      obtain ⟨head, middle, firstDone, remaining⟩ := bind_eq_ok.1 succeeded
      obtain ⟨tail, last, restDone, remaining⟩ := bind_eq_ok.1 remaining
      cases remaining
      have endsMiddle := (each_adds adds (index + 1) rest).endsWell restDone endsWell
      obtain ⟨unmoved, firstBare, firstLaid⟩ :=
        accepted first List.mem_cons_self _ _ _ _ firstDone endsMiddle sound
      rw [← unmoved] at sound
      obtain ⟨stillUnmoved, restBare, restLaid⟩ :=
        induction (fun part member => accepted part (List.mem_cons_of_mem _ member)) restDone sound
      rw [unmoved] at stillUnmoved restLaid
      refine ⟨stillUnmoved, by rw [List.map_cons, firstBare, restBare], ?_⟩
      intro offset result there
      cases offset with
      | zero =>
          cases there
          exact firstLaid
      | succ further =>
          have laid := restLaid further result there
          rwa [Nat.add_assoc, Nat.add_comm 1] at laid

end Parts

/-- An assignment goes to a scope that has the name, if there is one. -/
theorem assign_accepted {name : Token} {site : Unit} {value : Expr Unit}
    (notSuper : name.lexeme ≠ "super") (valueAccepted : ExprAccepted final pending value) :
    ExprAccepted final pending (.assign name site value) := by
  intro room address start result after succeeded endsWell sound
  cases room with
  | zero => cases succeeded
  | succ room =>
      obtain ⟨_, seen, visited, rest⟩ := bind_eq_ok.1 succeeded
      obtain ⟨found, middle, valueDone, rest⟩ := bind_eq_ok.1 rest
      obtain ⟨distance, last, located, rest⟩ := bind_eq_ok.1 rest
      cases rest
      have silent : Adds nowhere (lift (Scoping.locate .assign name)) := locate_adds _ _
      have endsMiddle := silent.endsWell located endsWell
      have endsSeen := (expr_adds room _ value).endsWell valueDone endsMiddle
      obtain ⟨same, inSurvey⟩ := visit_seen visited endsSeen
      rw [← same] at sound ⊢
      obtain ⟨unmoved, valueBare, valueScoped⟩ :=
        valueAccepted _ _ _ _ _ valueDone endsMiddle sound
      obtain ⟨stillUnmoved, siteEq⟩ := locate_found located
      rw [unmoved] at stillUnmoved siteEq
      have bareEq : (Expr.assign name distance found).bare = .assign name site value := by
        simp only [Expr.map, valueBare, id_eq]
      refine ⟨stillUnmoved, bareEq, ?_⟩
      apply Expr.Scoped.mk
      · rw [bareEq]
        exact same ▸ inSurvey
      · apply Expr.PartsScoped.assign _ notSuper valueScoped
        intro steps isSite
        rw [siteEq] at isSite
        obtain ⟨scope, there, bound⟩ := distance?_eq_some isSite
        have inside : steps < seen.context.numbers.length := by
          rw [sound.lengths]
          exact (List.getElem?_eq_some_iff.1 there).1
        have numbered := List.getElem?_eq_getElem inside
        exact ⟨isSite, sound.usable_or_awaits there bound, _, numbered,
          sound.recorded _ _ _ _ there numbered bound⟩

/-- There is a scope for `this` in every class. -/
theorem this_accepted {keyword : Token} {site : Unit} (isThis : keyword.lexeme = "this") :
    ExprAccepted final pending (.this keyword site) := by
  intro room address start result after succeeded endsWell sound
  cases room with
  | zero => cases succeeded
  | succ room =>
      obtain ⟨_, seen, visited, rest⟩ := bind_eq_ok.1 succeeded
      obtain ⟨state, middle, got, rest⟩ := bind_eq_ok.1 rest
      cases got
      split at rest
      · -- Outside of a class there is a complaint.
        obtain ⟨_, last, complained, rest⟩ := bind_eq_ok.1 rest
        cases complained
        cases rest
        have quiet := endsWell.complaints
        cases quiet
      · rename_i inClass
        obtain ⟨distance, last, located, rest⟩ := bind_eq_ok.1 rest
        cases rest
        have silent : Adds nowhere (lift (Scoping.locate .this keyword)) := locate_adds _ _
        have endsSeen : EndsWell final seen := silent.endsWell located endsWell
        obtain ⟨same, inSurvey⟩ := visit_seen visited endsSeen
        obtain ⟨unmoved, siteEq⟩ := locate_found located
        have soundSeen : seen.context.Sound final.notes pending := same ▸ sound
        obtain ⟨_, holds⟩ := soundSeen.ofClass inClass
        obtain ⟨steps, found⟩ := distance?_isSome holds
        rw [isThis] at siteEq
        have siteIs : distance = some steps := siteEq.trans found
        subst siteIs
        obtain ⟨scope, there, bound⟩ := distance?_eq_some found
        have usable : pending ≠ some "this" :=
          fun isPending => (soundSeen.ordinary _ isPending).1 rfl
        have bareEq : (Expr.this keyword (some steps)).bare = .this keyword site := by
          simp only [Expr.map, id_eq]
        refine ⟨unmoved.trans same, bareEq, ?_⟩
        apply Expr.Scoped.mk
        · rw [bareEq]
          exact inSurvey
        · apply Expr.PartsScoped.this isThis
          rw [isThis, ← same]
          exact soundSeen.holds_of_binds there bound usable

/-- There are scopes for `super` and for `this` inside it in every class that inherits. -/
theorem super_accepted {keyword method : Token} {site : Unit} (isSuper : keyword.lexeme = "super") :
    ExprAccepted final pending (.super keyword method site) := by
  intro room address start result after succeeded endsWell sound
  cases room with
  | zero => cases succeeded
  | succ room =>
      obtain ⟨_, seen, visited, rest⟩ := bind_eq_ok.1 succeeded
      obtain ⟨state, middle, got, rest⟩ := bind_eq_ok.1 rest
      cases got
      have located : ∀ {before : Watched ScopeState Survey},
          (do return Expr.super keyword method (← lift (Scoping.locate .super keyword)) :
            Surveying (Expr Site)) before = .ok result after →
          EndsWell final before ∧ ∃ distance, result = .super keyword method distance ∧
            lift (Scoping.locate .super keyword) before = .ok distance after := by
        intro before done
        obtain ⟨distance, last, located, rest⟩ := bind_eq_ok.1 done
        cases rest
        have silent : Adds nowhere (lift (Scoping.locate .super keyword)) := locate_adds _ _
        exact ⟨silent.endsWell located endsWell, distance, rfl, located⟩
      cases kind : seen.state.classKind with
      | none =>
          rw [kind] at rest
          obtain ⟨_, last, complained, rest⟩ := bind_eq_ok.1 rest
          cases complained
          have quiet := (located rest).1.complaints
          cases quiet
      | plain =>
          rw [kind] at rest
          obtain ⟨_, last, complained, rest⟩ := bind_eq_ok.1 rest
          cases complained
          have quiet := (located rest).1.complaints
          cases quiet
      | derived =>
          rw [kind] at rest
          obtain ⟨endsSeen, distance, rfl, searched⟩ := located rest
          obtain ⟨same, inSurvey⟩ := visit_seen visited endsSeen
          obtain ⟨unmoved, siteEq⟩ := locate_found searched
          have soundSeen : seen.context.Sound final.notes pending := same ▸ sound
          obtain ⟨_, holds⟩ := soundSeen.ofDerived kind
          obtain ⟨steps, found⟩ := distance?_isSome holds
          rw [isSuper] at siteEq
          have siteIs : distance = some steps := siteEq.trans found
          subst siteIs
          obtain ⟨scope, there, bound⟩ := distance?_eq_some found
          obtain ⟨inner, next, holdsThis⟩ := soundSeen.aroundThis _ _ there bound
          subst next
          have usable : pending ≠ some "super" :=
            fun isPending => (soundSeen.ordinary _ isPending).2 rfl
          have bareEq : (Expr.super keyword method (some (inner + 1))).bare =
              .super keyword method site := by
            simp only [Expr.map, id_eq]
          refine ⟨unmoved.trans same, bareEq, ?_⟩
          apply Expr.Scoped.mk
          · rw [bareEq]
            exact inSurvey
          · apply Expr.PartsScoped.super isSuper
            · rw [← same]
              exact soundSeen.holds_of_binds there bound usable
            · exact same ▸ holdsThis

theorem variable_accepted {name : Token} {site : Unit} :
    ExprAccepted final pending (.variable name site) := by
  intro room address start result after succeeded endsWell sound
  cases room with
  | zero => cases succeeded
  | succ room =>
      obtain ⟨_, seen, visited, rest⟩ := bind_eq_ok.1 succeeded
      obtain ⟨distance, last, referred, rest⟩ := bind_eq_ok.1 rest
      cases rest
      have silent : Adds nowhere (lift (Scoping.reference name)) := reference_adds _
      have endsSeen := silent.endsWell referred endsWell
      obtain ⟨same, inSurvey⟩ := visit_seen visited endsSeen
      rw [← same] at sound ⊢
      obtain ⟨unmoved, holds⟩ := reference_found referred endsWell fun distance scope name there
        isPending => (sound.defined distance scope name there isPending).1
      have bareEq : (Expr.variable name distance).bare = .variable name site := by
        simp only [Expr.map, id_eq]
      refine ⟨unmoved, bareEq, ?_⟩
      apply Expr.Scoped.mk
      · rw [bareEq]
        exact same ▸ inSurvey
      · exact .variable holds

theorem call_accepted {callee : Expr Unit} {paren : Token} {args : List (Expr Unit)}
    (calleeAccepted : ExprAccepted final pending callee)
    (argsAccepted : ∀ arg ∈ args, ExprAccepted final pending arg) :
    ExprAccepted final pending (.call callee paren args) := by
  intro room address start result after succeeded endsWell sound
  cases room with
  | zero => cases succeeded
  | succ room =>
      obtain ⟨_, seen, visited, rest⟩ := bind_eq_ok.1 succeeded
      obtain ⟨found, middle, calleeDone, rest⟩ := bind_eq_ok.1 rest
      obtain ⟨results, last, argsDone, rest⟩ := bind_eq_ok.1 rest
      cases rest
      have argsAdds := each_adds (fun index => expr_adds room (address.child index)) 1 args
      have endsMiddle := argsAdds.endsWell argsDone endsWell
      have endsSeen := (expr_adds room _ callee).endsWell calleeDone endsMiddle
      obtain ⟨same, inSurvey⟩ := visit_seen visited endsSeen
      rw [← same] at sound ⊢
      obtain ⟨unmoved, calleeBare, calleeScoped⟩ :=
        calleeAccepted _ _ _ _ _ calleeDone endsMiddle sound
      rw [← unmoved] at sound
      obtain ⟨stillUnmoved, argsBare, argsScoped⟩ :=
        each_accepted (fun index => expr_adds room (address.child index))
          (fun arg member index => argsAccepted arg member room (address.child index)) argsDone
          endsWell sound
      rw [unmoved] at stillUnmoved argsScoped
      have bareEq : (Expr.call found paren results).bare = .call callee paren args := by
        simp only [Expr.map, calleeBare, id_eq, Expr.mapEach_eq_map]
        rw [← argsBare]
      refine ⟨stillUnmoved, bareEq, ?_⟩
      apply Expr.Scoped.mk
      · rw [bareEq]
        exact same ▸ inSurvey
      · apply Expr.PartsScoped.call calleeScoped
        intro index arg there
        rw [Nat.add_comm]
        exact argsScoped index arg there

theorem operand_accepted {inner e : Expr Unit} {index : Nat} (build : Expr Site → Expr Site)
    (innerAccepted : ExprAccepted final pending inner)
    (unfolded : ∀ room address, expr (room + 1) address e = (do
      visit address (.expr e)
      return build (← expr room (address.child index) inner)))
    (bareEq : ∀ found : Expr Site, found.bare = inner → (build found).bare = e)
    (parts : ∀ (context : Context) (address : Address) (found : Expr Site),
      found.Scoped final.notes context (address.child index) →
      (build found).PartsScoped final.notes context address) :
    ExprAccepted final pending e := by
  intro room address start result after succeeded endsWell sound
  cases room with
  | zero => cases succeeded
  | succ room =>
      rw [unfolded] at succeeded
      obtain ⟨unmoved, inSurvey, found, rfl, innerBare, innerScoped⟩ :=
        oneChild_accepted innerAccepted succeeded endsWell sound
      have sameBare := bareEq found innerBare
      exact ⟨unmoved, sameBare, .mk (sameBare.symm ▸ inSurvey) (parts _ _ _ innerScoped)⟩

theorem operands_accepted {first second e : Expr Unit} {firstIndex secondIndex : Nat}
    (build : Expr Site → Expr Site → Expr Site) (firstAccepted : ExprAccepted final pending first)
    (secondAccepted : ExprAccepted final pending second)
    (unfolded : ∀ room address, expr (room + 1) address e = (do
      visit address (.expr e)
      let left ← expr room (address.child firstIndex) first
      let right ← expr room (address.child secondIndex) second
      return build left right))
    (bareEq : ∀ left right : Expr Site, left.bare = first → right.bare = second →
      (build left right).bare = e)
    (parts : ∀ (context : Context) (address : Address) (left right : Expr Site),
      left.Scoped final.notes context (address.child firstIndex) →
      right.Scoped final.notes context (address.child secondIndex) →
      (build left right).PartsScoped final.notes context address) :
    ExprAccepted final pending e := by
  intro room address start result after succeeded endsWell sound
  cases room with
  | zero => cases succeeded
  | succ room =>
      rw [unfolded] at succeeded
      obtain ⟨unmoved, inSurvey, left, right, rfl, leftBare, rightBare, leftScoped, rightScoped⟩ :=
        twoChildren_accepted firstAccepted secondAccepted succeeded endsWell sound
      have sameBare := bareEq left right leftBare rightBare
      exact ⟨unmoved, sameBare,
        .mk (sameBare.symm ▸ inSurvey) (parts _ _ _ _ leftScoped rightScoped)⟩

/-- Every expression of the grammar is laid out well. -/
theorem expr_accepted {layer : Layer} {e : Expr Unit} (inLayer : e.InLayer layer)
    (worded : ∀ token ∈ e.tokens, token.Worded) : ExprAccepted final pending e := by
  induction inLayer with
  | tighter _ induction => exact induction worded
  | @assign name site value isName _ induction =>
      apply assign_accepted
      · exact (worded name (by simp [Expr.tokens])).ne_super isName
      · exact induction fun token member => worded token (by simp [Expr.tokens, member])
  | @set object name value _ _ _ objectInduction valueInduction =>
      apply operands_accepted (fun value object => .set object name value)
        (valueInduction fun token member => worded token (by simp [Expr.tokens, member]))
        (objectInduction fun token member => worded token (by simp [Expr.tokens, member]))
      · exact fun _ _ => rfl
      · intro valueResult objectResult valueBare objectBare
        simp only [Expr.map, valueBare, objectBare, id_eq]
      · exact fun _ _ _ _ valueScoped objectScoped => .set objectScoped valueScoped
  | @logical _ left op right _ _ _ leftInduction rightInduction =>
      apply operands_accepted (fun left right => .logical left op right)
        (leftInduction fun token member => worded token (by simp [Expr.tokens, member]))
        (rightInduction fun token member => worded token (by simp [Expr.tokens, member]))
      · exact fun _ _ => rfl
      · intro leftResult rightResult leftBare rightBare
        simp only [Expr.map, leftBare, rightBare, id_eq]
      · exact fun _ _ _ _ leftScoped rightScoped => .logical leftScoped rightScoped
  | @binary layer left op right known _ _ leftInduction rightInduction =>
      apply operands_accepted (fun left right => .binary left op right)
        (leftInduction fun token member => worded token (by simp [Expr.tokens, member]))
        (rightInduction fun token member => worded token (by simp [Expr.tokens, member]))
      · exact fun _ _ => rfl
      · intro leftResult rightResult leftBare rightBare
        simp only [Expr.map, leftBare, rightBare, id_eq]
      · exact fun _ _ _ _ leftScoped rightScoped => .binary known leftScoped rightScoped
  | @unary op operand _ _ induction =>
      apply operand_accepted (.unary op)
        (induction fun token member => worded token (by simp [Expr.tokens, member]))
      · exact fun _ _ => rfl
      · intro found innerBare
        simp only [Expr.map, innerBare, id_eq]
      · exact fun _ _ _ innerScoped => .unary innerScoped
  | @call callee paren args _ _ _ _ calleeInduction argsInduction =>
      apply call_accepted
      · exact calleeInduction fun token member => worded token (by simp [Expr.tokens, member])
      · intro arg isArg
        apply argsInduction arg isArg
        intro token member
        apply worded token
        simp only [Expr.tokens, Expr.tokensOfEach_eq_flatMap, List.mem_append, List.mem_flatMap]
        exact .inr (.inl ⟨arg, isArg, member⟩)
  | @get object name _ _ induction =>
      apply operand_accepted (fun object => .get object name)
        (induction fun token member => worded token (by simp [Expr.tokens, member]))
      · exact fun _ _ => rfl
      · intro found innerBare
        simp only [Expr.map, innerBare, id_eq]
      · exact fun _ _ _ innerScoped => .get innerScoped
  | @grouping inner _ induction =>
      apply operand_accepted .grouping
        (induction fun token member => worded token (by simp [Expr.tokens, member]))
      · exact fun _ _ => rfl
      · intro found innerBare
        simp only [Expr.map, innerBare]
      · exact fun _ _ _ innerScoped => .grouping innerScoped
  | @literal value =>
      intro room address start result after succeeded endsWell sound
      cases room with
      | zero => cases succeeded
      | succ room =>
          obtain ⟨_, seen, visited, rest⟩ := bind_eq_ok.1 succeeded
          cases rest
          obtain ⟨same, inSurvey⟩ := visit_seen visited endsWell
          have bareEq : (Expr.literal value : Expr Site).bare = .literal value := by
            simp only [Expr.map]
          exact ⟨same, bareEq, .mk (bareEq.symm ▸ inSurvey) .literal⟩
  | «variable» _ => exact variable_accepted
  | @this keyword _ isThis =>
      exact this_accepted ((worded keyword (by simp [Expr.tokens])).this isThis)
  | @super keyword _ _ isSuper _ =>
      exact super_accepted ((worded keyword (by simp [Expr.tokens])).super isSuper)

end LoxLang.Surveying
