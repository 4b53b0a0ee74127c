import LoxLang.Proofs.Renaming.Values
import LoxLang.Proofs.Stateful
import LoxLang.Proofs.TreeMap
import LoxLang.Proofs.TreeTokens
import LoxLang.Scope.Resolve

/-!
# Scopes of renamed programs

If the pass through the scopes of a program comes to an end, then so does the pass
through a renamed program in which the new name is fresh.  It finds the same
distances, and has no more to complain about.
-/

namespace LoxLang

variable {r : Renaming}

/-- The new name is in no token of the list. -/
abbrev Fresh (r : Renaming) (tokens : List Token) : Prop := ∀ token ∈ tokens, token.lexeme ≠ r.new

/-- The scopes on the other side, renamed where they are marked.  No scope has the new name. -/
inductive ScopesRenamed (r : Renaming) : List Bool → List Scope → List Scope → Prop where
  | nil : ScopesRenamed r [] [] []
  | cons {mark : Bool} {marks : List Bool} {scope twin : Scope} {scopes twins : List Scope} :
      Table.Renamed r mark Eq scope twin → scope.binds r.new = false →
      ScopesRenamed r marks scopes twins →
      ScopesRenamed r (mark :: marks) (scope :: scopes) (twin :: twins)

section Lookup

variable {mark : Bool} {scope twin : Scope} {name : String}

/-- In a marked scope the old name is not to be found. -/
theorem Table.Renamed.binds_old (renamed : Table.Renamed r true Eq scope twin)
    (distinct : r.old ≠ r.new) : twin.binds r.old = false := by
  obtain ⟨entries⟩ := scope
  obtain ⟨entriesTwin⟩ := twin
  unfold Table.binds Table.get?
  simp only [Table.Renamed] at renamed
  induction renamed with
  | nil => rfl
  | @cons entry other rest restTwin same others induction =>
      obtain ⟨key, value⟩ := entry
      obtain ⟨keyTwin, valueTwin⟩ := other
      obtain ⟨_, keyEq, _⟩ := same
      dsimp only at keyEq
      have notOld : keyTwin ≠ r.old := by
        rw [keyEq]
        unfold Renaming.apply
        split
        · exact distinct.symm
        · rename_i kept
          exact fun isOld => kept ⟨rfl, isOld⟩
      simpa only [Table.lookup, notOld, if_false] using induction

/-- A name that a scope does not have is not there on the other side either, renamed or not. -/
theorem Table.Renamed.unbound (renamed : Table.Renamed r mark Eq scope twin)
    (fresh : scope.binds r.new = false) (distinct : name ≠ r.new)
    (absent : scope.binds name = false) (marked : Bool) :
    twin.binds (r.apply marked name) = false := by
  have same (other : Bool) (agrees : other = mark) : twin.binds (r.apply other name) = false := by
    subst agrees
    rw [renamed.binds name fun _ => distinct, absent]
  by_cases isOld : name = r.old
  · cases mark with
    | true =>
        cases marked with
        | true => exact same true rfl
        | false =>
            rw [r.apply_false, isOld]
            exact renamed.binds_old (isOld ▸ distinct)
    | false =>
        cases marked with
        | false => exact same false rfl
        | true =>
            have newName : r.apply true name = r.new := by simp [Renaming.apply, isOld]
            rw [newName, renamed.binds_unmarked, fresh]
  · have kept (other : Bool) : r.apply other name = name := r.apply_of_ne isOld
    rw [kept marked, ← kept mark]
    exact same mark rfl

/-- The name leads to the same scope on both sides. -/
theorem ScopesRenamed.distance? {marks : List Bool} {scopes twins : List Scope}
    (renamed : ScopesRenamed r marks scopes twins) (distinct : name ≠ r.new) :
    Scope.distance? twins (r.apply (markedAt marks (Scope.distance? scopes name)) name) =
      Scope.distance? scopes name := by
  unfold Scope.distance?
  induction renamed with
  | nil => rfl
  | @cons mark marks scope twin scopes twins first fresh rest induction =>
      rw [List.findIdx?_cons, List.findIdx?_cons]
      cases present : scope.binds name with
      | true =>
          have there : twin.binds (r.apply mark name) = true := by
            rw [first.binds name fun _ => distinct, present]
          simp [markedAt, there]
      | false =>
          have absent := first.unbound fresh distinct present
          have sameMark (site : Site) :
              markedAt (mark :: marks) (site.map (· + 1)) = markedAt marks site := by
            cases site <;> rfl
          rw [if_neg Bool.false_ne_true, sameMark, absent, if_neg Bool.false_ne_true, induction]

end Lookup

/-- What is told of a reference apart from its token. -/
def Reference.shape (reference : Reference) : ReferenceKind × Nat :=
  (reference.kind, reference.distance)

/-- The same has been gathered on the way through the renamed program, with no more complaints,
besides references that had been found before it. -/
structure ScopeState.Renamed (r : Renaming) (marks : List Bool) (past : List (ReferenceKind × Nat))
    (state twin : ScopeState) : Prop where
  scopes : ScopesRenamed r marks state.scopes twin.scopes
  function : twin.function = state.function
  classKind : twin.classKind = state.classKind
  complaints : twin.complaints.length ≤ state.complaints.length
  references : twin.references.map Reference.shape =
    state.references.map Reference.shape ++ past

namespace Scoping

variable {α β : Type} {marks : List Bool} {past : List (ReferenceKind × Nat)}
  {start twin after : ScopeState}

/-- If the first part ends with the result, then the second part ends with its own result, and what
was gathered stays related. -/
def Mimics (r : Renaming) (marks : List Bool) (part : Scoping α) (result : α) (mimic : Scoping β)
    (other : β) : Prop :=
  ∀ ⦃past⦄ start twin after, ScopeState.Renamed r marks past start twin →
    part start = .ok result after →
      ∃ afterTwin, mimic twin = .ok other afterTwin ∧ after.Renamed r marks past afterTwin

/-- The pass through a `this` in a class of this kind. -/
def thisIn (keyword : Token) (kind : ClassKind) : Scoping (Expr Site) := do
  if kind = .none then
    complain keyword .thisOutsideClass
    return .this keyword none
  else
    return .this keyword (← locate .this keyword)

/-- The pass through a `super` in a class of this kind. -/
def superIn (keyword method : Token) (kind : ClassKind) : Scoping (Expr Site) := do
  match kind with
  | .none => complain keyword .superOutsideClass
  | .plain => complain keyword .superWithoutSuperclass
  | .derived => pure ()
  return .super keyword method (← locate .super keyword)

namespace Mimics

section Names

variable {name nameTwin : Token} {site : Site}

theorem complain (about aboutTwin : Token) (error : ScopeError) :
    Mimics r marks (Scoping.complain about error) () (Scoping.complain aboutTwin error) () := by
  intro past start twin after renamed ends
  cases ends
  exact ⟨_, rfl, { renamed with complaints := Nat.succ_le_succ renamed.complaints }⟩

theorem locate (kind : ReferenceKind) (names : r.Names (markedAt marks site) name nameTwin)
    (distinct : name.lexeme ≠ r.new) :
    Mimics r marks (Scoping.locate kind name) site (Scoping.locate kind nameTwin) site := by
  intro past start twin after renamed ends
  have same := renamed.scopes.distance? distinct
  unfold Scoping.locate at ends ⊢
  cases found : Scope.distance? start.scopes name.lexeme with
  | none =>
      rw [found] at ends same
      cases ends
      rw [← names.lexeme] at same
      rw [same]
      exact ⟨twin, rfl, renamed⟩
  | some distance =>
      rw [found] at ends same
      cases ends
      rw [← names.lexeme] at same
      rw [same]
      exact ⟨_, rfl, { renamed with references := congrArg (_ :: ·) renamed.references }⟩

/-- A name is pending on both sides or on neither. -/
theorem isPending_eq (renamed : ScopeState.Renamed r marks past start twin)
    (names : r.Names (markedAt marks (Scope.distance? start.scopes name.lexeme)) name nameTwin)
    (distinct : name.lexeme ≠ r.new) :
    ∃ pending, Scoping.isPending name.lexeme start = .ok pending start ∧
      Scoping.isPending nameTwin.lexeme twin = .ok pending twin := by
  have scopes := renamed.scopes
  unfold Scoping.isPending
  rw [names.lexeme]
  generalize start.scopes = these at scopes
  generalize twin.scopes = others at scopes
  cases scopes with
  | nil => exact ⟨false, rfl, rfl⟩
  | @cons mark marks scope scopeTwin rest restTwin first fresh outer =>
      refine ⟨_, rfl, ?_⟩
      cases present : scope.binds name.lexeme with
      | true =>
          have here : Scope.distance? (scope :: rest) name.lexeme = some 0 := by
            simp [Scope.distance?, List.findIdx?_cons, present]
          have found := first.get? name.lexeme fun _ => distinct
          have sameMark : markedAt (mark :: marks) (some 0) = mark := rfl
          rw [here, sameMark]
          dsimp only
          generalize scope.get? name.lexeme = usable at found
          generalize scopeTwin.get? _ = usableTwin at found
          cases found with
          | none => rfl
          | some same => rw [same]
      | false =>
          have absent := first.unbound fresh distinct present
            (markedAt (mark :: marks) (Scope.distance? (scope :: rest) name.lexeme))
          have none := Option.not_isSome_iff_eq_none.1 (Bool.eq_false_iff.1 present)
          have noneTwin := Option.not_isSome_iff_eq_none.1 (Bool.eq_false_iff.1 absent)
          dsimp only
          rw [none, noneTwin]

theorem locate_eq_ok {kind : ReferenceKind}
    (ends : Scoping.locate kind name start = .ok site after) :
    site = Scope.distance? start.scopes name.lexeme := by
  unfold Scoping.locate at ends
  split at ends <;> cases ends <;> simp [*]

theorem reference (names : r.Names (markedAt marks site) name nameTwin)
    (distinct : name.lexeme ≠ r.new) :
    Mimics r marks (Scoping.reference name) site (Scoping.reference nameTwin) site := by
  intro past start twin after renamed ends
  obtain ⟨pending, middle, pendingDone, rest⟩ := bind_eq_ok.1 ends
  have unchanged : middle = start := by
    unfold Scoping.isPending at pendingDone
    split at pendingDone <;> cases pendingDone <;> rfl
  subst unchanged
  cases pending with
  | true =>
      obtain ⟨_, told, complainDone, locateDone⟩ := bind_eq_ok.1 rest
      cases complainDone
      have siteEq := locate_eq_ok locateDone
      rw [siteEq] at names
      obtain ⟨pending, done, doneTwin⟩ := isPending_eq renamed names distinct
      rw [← siteEq] at names
      cases pendingDone.symm.trans done
      obtain ⟨toldTwin, tellDone, toldRenamed⟩ :=
        complain name nameTwin .ownInitializer _ _ _ renamed rfl
      obtain ⟨afterTwin, locateTwin, afterRenamed⟩ :=
        locate .variable names distinct _ _ _ toldRenamed locateDone
      exact ⟨afterTwin, bind_eq_ok.2 ⟨_, _, doneTwin, bind_eq_ok.2 ⟨_, _, tellDone, locateTwin⟩⟩,
        afterRenamed⟩
  | false =>
      have siteEq := locate_eq_ok rest
      rw [siteEq] at names
      obtain ⟨pending, done, doneTwin⟩ := isPending_eq renamed names distinct
      rw [← siteEq] at names
      cases pendingDone.symm.trans done
      obtain ⟨afterTwin, locateTwin, afterRenamed⟩ :=
        locate .variable names distinct _ _ _ renamed rest
      exact ⟨afterTwin, bind_eq_ok.2 ⟨_, _, doneTwin, locateTwin⟩, afterRenamed⟩

/-- A name other than the new one may be put into scopes. -/
theorem insert_renamed {scopes twins : List Scope} {scope scopeTwin : Scope}
    (renamed : ScopesRenamed r marks (scope :: scopes) (scopeTwin :: twins))
    (names : r.Names (markedAt marks (some 0)) name nameTwin) (distinct : name.lexeme ≠ r.new)
    (usable : Bool) :
    ScopesRenamed r marks (scope.insert name.lexeme usable :: scopes)
        (scopeTwin.insert nameTwin.lexeme usable :: twins) ∧
      scopeTwin.binds nameTwin.lexeme = scope.binds name.lexeme := by
  cases renamed with
  | @cons mark marks _ _ _ _ first fresh outer =>
      rw [names.lexeme]
      refine ⟨.cons (first.insert _ (fun _ => distinct) rfl) ?_ outer,
        first.binds _ fun _ => distinct⟩
      unfold Table.binds at fresh ⊢
      rw [Table.get?_insert_of_ne _ _ distinct]
      exact fresh

/-- A name is put into the innermost scope, if there is one. -/
theorem declare (result : Unit) (names : r.Names (markedAt marks (some 0)) name nameTwin)
    (distinct : name.lexeme ≠ r.new) :
    Mimics r marks (Scoping.declare name) result (Scoping.declare nameTwin) () := by
  intro past start twin after renamed ends
  obtain ⟨scopes, kind, classKind, complaints, references⟩ := start
  obtain ⟨twins, kindTwin, classKindTwin, complaintsTwin, referencesTwin⟩ := twin
  obtain ⟨scopesRenamed, functions, classKinds, fewer, shapes⟩ := renamed
  dsimp only at scopesRenamed functions classKinds fewer shapes
  cases scopesRenamed with
  | nil =>
      cases ends
      exact ⟨_, rfl, ⟨.nil, functions, classKinds, fewer, shapes⟩⟩
  | cons first fresh outer =>
      obtain ⟨inserted, sameBinds⟩ :=
        insert_renamed (.cons first fresh outer) names distinct false
      cases ends
      refine ⟨_, rfl, ⟨inserted, functions, classKinds, ?_, shapes⟩⟩
      dsimp only
      rw [sameBinds]
      split
      · exact Nat.succ_le_succ fewer
      · exact fewer

theorem define (result : Unit) (names : r.Names (markedAt marks (some 0)) name nameTwin)
    (distinct : name.lexeme ≠ r.new) :
    Mimics r marks (Scoping.define name.lexeme) result (Scoping.define nameTwin.lexeme) () := by
  intro past start twin after renamed ends
  obtain ⟨scopes, kind, classKind, complaints, references⟩ := start
  obtain ⟨twins, kindTwin, classKindTwin, complaintsTwin, referencesTwin⟩ := twin
  obtain ⟨scopesRenamed, functions, classKinds, fewer, shapes⟩ := renamed
  dsimp only at scopesRenamed functions classKinds fewer shapes
  cases scopesRenamed with
  | nil =>
      cases ends
      exact ⟨_, rfl, ⟨.nil, functions, classKinds, fewer, shapes⟩⟩
  | cons first fresh outer =>
      obtain ⟨inserted, _⟩ := insert_renamed (.cons first fresh outer) names distinct true
      cases ends
      exact ⟨_, rfl, ⟨inserted, functions, classKinds, fewer, shapes⟩⟩

end Names

section Parts

variable {γ δ α₂ β₂ : Type} {part : Scoping α} {mimic : Scoping β} {result : α} {other : β}

theorem pure {value : α} {valueTwin : β} (same : value = result → valueTwin = other) :
    Mimics r marks (Pure.pure value) result (Pure.pure valueTwin) other := by
  intro past start twin after renamed ends
  cases ends
  rw [same rfl]
  exact ⟨twin, rfl, renamed⟩

/-- What the first part has found is told by the result of both parts. -/
theorem bind {next : α → Scoping γ} {nextMimic : β → Scoping δ} {final : γ} {finalTwin : δ}
    (first : Mimics r marks part result mimic other)
    (second : Mimics r marks (next result) final (nextMimic other) finalTwin)
    (only : ∀ value middle after, next value middle = .ok final after → value = result) :
    Mimics r marks (part >>= next) final (mimic >>= nextMimic) finalTwin := by
  intro past start twin after renamed ends
  obtain ⟨value, middle, partDone, nextDone⟩ := bind_eq_ok.1 ends
  cases only value middle after nextDone
  obtain ⟨middleTwin, mimicDone, middleRenamed⟩ := first _ _ _ renamed partDone
  obtain ⟨afterTwin, nextTwinDone, afterRenamed⟩ := second _ _ _ middleRenamed nextDone
  exact ⟨afterTwin, bind_eq_ok.2 ⟨_, _, mimicDone, nextTwinDone⟩, afterRenamed⟩

theorem wrap {build : α → γ} {buildTwin : β → δ} (inside : Mimics r marks part result mimic other)
    (only : ∀ value, build value = build result → value = result) :
    Mimics r marks (part >>= fun value => Pure.pure (build value)) (build result)
      (mimic >>= fun value => Pure.pure (buildTwin value)) (buildTwin other) := by
  refine bind inside ?_ fun value middle after ends => ?_
  · exact pure fun _ => rfl
  · injection ends with same
    exact only value same

theorem join {second : Scoping α₂} {secondMimic : Scoping β₂} {secondResult : α₂}
    {secondOther : β₂} {build : α → α₂ → γ} {buildTwin : β → β₂ → δ}
    (firstMimics : Mimics r marks part result mimic other)
    (secondMimics : Mimics r marks second secondResult secondMimic secondOther)
    (only : ∀ value secondValue, build value secondValue = build result secondResult →
      value = result ∧ secondValue = secondResult) :
    Mimics r marks
      (part >>= fun value => second >>= fun secondValue => Pure.pure (build value secondValue))
      (build result secondResult)
      (mimic >>= fun value =>
        secondMimic >>= fun secondValue => Pure.pure (buildTwin value secondValue))
      (buildTwin other secondOther) := by
  refine bind firstMimics ?_ fun value middle after ends => ?_
  · exact wrap secondMimics fun secondValue same => (only result secondValue same).2
  · obtain ⟨secondValue, _, _, rest⟩ := bind_eq_ok.1 ends
    injection rest with same
    exact (only value secondValue same).1

theorem joinThree {α₃ β₃ : Type} {second : Scoping α₂} {secondMimic : Scoping β₂}
    {secondResult : α₂} {secondOther : β₂} {third : Scoping α₃} {thirdMimic : Scoping β₃}
    {thirdResult : α₃} {thirdOther : β₃} {build : α → α₂ → α₃ → γ} {buildTwin : β → β₂ → β₃ → δ}
    (firstMimics : Mimics r marks part result mimic other)
    (secondMimics : Mimics r marks second secondResult secondMimic secondOther)
    (thirdMimics : Mimics r marks third thirdResult thirdMimic thirdOther)
    (only : ∀ value secondValue thirdValue,
      build value secondValue thirdValue = build result secondResult thirdResult →
        value = result ∧ secondValue = secondResult ∧ thirdValue = thirdResult) :
    Mimics r marks
      (part >>= fun value => second >>= fun secondValue => third >>= fun thirdValue =>
        Pure.pure (build value secondValue thirdValue))
      (build result secondResult thirdResult)
      (mimic >>= fun value => secondMimic >>= fun secondValue => thirdMimic >>= fun thirdValue =>
        Pure.pure (buildTwin value secondValue thirdValue))
      (buildTwin other secondOther thirdOther) := by
  refine bind firstMimics ?_ fun value middle after ends => ?_
  · exact join secondMimics thirdMimics fun _ _ same => (only result _ _ same).2
  · obtain ⟨secondValue, _, _, rest⟩ := bind_eq_ok.1 ends
    obtain ⟨thirdValue, _, _, rest⟩ := bind_eq_ok.1 rest
    injection rest with same
    exact (only value secondValue thirdValue same).1

theorem andThen {next : Scoping γ} {nextMimic : Scoping δ} {final : γ} {finalTwin : δ}
    (first : ∀ value, ∃ valueTwin, Mimics r marks part value mimic valueTwin)
    (second : Mimics r marks next final nextMimic finalTwin) :
    Mimics r marks (part >>= fun _ => next) final (mimic >>= fun _ => nextMimic) finalTwin := by
  intro past start twin after renamed ends
  obtain ⟨value, middle, partDone, rest⟩ := bind_eq_ok.1 ends
  obtain ⟨valueTwin, mimics⟩ := first value
  obtain ⟨middleTwin, mimicDone, middleRenamed⟩ := mimics _ _ _ renamed partDone
  obtain ⟨afterTwin, nextDone, afterRenamed⟩ := second _ _ _ middleRenamed rest
  exact ⟨afterTwin, bind_eq_ok.2 ⟨_, _, mimicDone, nextDone⟩, afterRenamed⟩

/-- Go through a part inside a scope that is the same on both sides to begin with. -/
theorem inScope {mark : Bool} {scope : Scope} (same : Table.Renamed r mark Eq scope scope)
    (fresh : scope.binds r.new = false)
    (inside : Mimics r (mark :: marks) part result mimic other) :
    Mimics r marks (Scoping.inScope scope part) result (Scoping.inScope scope mimic) other := by
  intro past start twin after renamed ends
  obtain ⟨_, entered, enterDone, rest⟩ := bind_eq_ok.1 ends
  obtain ⟨value, last, partDone, rest⟩ := bind_eq_ok.1 rest
  obtain ⟨_, left, leaveDone, rest⟩ := bind_eq_ok.1 rest
  cases enterDone
  cases leaveDone
  cases rest
  have enteredRenamed : ScopeState.Renamed r (mark :: marks) past
      { start with scopes := scope :: start.scopes } { twin with scopes := scope :: twin.scopes } :=
    { renamed with scopes := .cons same fresh renamed.scopes }
  obtain ⟨lastTwin, mimicDone, lastRenamed⟩ := inside _ _ _ enteredRenamed partDone
  refine ⟨{ lastTwin with scopes := lastTwin.scopes.tail }, ?_, ?_⟩
  · exact bind_eq_ok.2 ⟨(), _, rfl, bind_eq_ok.2 ⟨_, _, mimicDone, bind_eq_ok.2 ⟨(), _, rfl, rfl⟩⟩⟩
  · have scopes := lastRenamed.scopes
    refine { lastRenamed with scopes := ?_ }
    dsimp only
    generalize last.scopes = these at scopes
    generalize lastTwin.scopes = others at scopes
    cases scopes with
    | cons _ _ outer => exact outer

theorem inFunction (kind : FunctionKind) (inside : Mimics r marks part result mimic other) :
    Mimics r marks (Scoping.inFunction kind part) result (Scoping.inFunction kind mimic) other := by
  intro past start twin after renamed ends
  obtain ⟨_, _, getDone, rest⟩ := bind_eq_ok.1 ends
  cases getDone
  obtain ⟨_, entered, enterDone, rest⟩ := bind_eq_ok.1 rest
  obtain ⟨value, last, partDone, rest⟩ := bind_eq_ok.1 rest
  obtain ⟨_, left, leaveDone, rest⟩ := bind_eq_ok.1 rest
  cases enterDone
  cases leaveDone
  cases rest
  have enteredRenamed : ScopeState.Renamed r marks past { start with function := kind }
      { twin with function := kind } :=
    { renamed with function := rfl }
  obtain ⟨lastTwin, mimicDone, lastRenamed⟩ := inside _ _ _ enteredRenamed partDone
  refine ⟨{ lastTwin with function := twin.function }, ?_, ?_⟩
  · exact bind_eq_ok.2 ⟨twin, twin, rfl, bind_eq_ok.2 ⟨(), _, rfl, bind_eq_ok.2
      ⟨_, _, mimicDone, bind_eq_ok.2 ⟨(), _, rfl, rfl⟩⟩⟩⟩
  · exact { lastRenamed with function := renamed.function }

theorem inClass (kind : ClassKind) (inside : Mimics r marks part result mimic other) :
    Mimics r marks (Scoping.inClass kind part) result (Scoping.inClass kind mimic) other := by
  intro past start twin after renamed ends
  obtain ⟨_, _, getDone, rest⟩ := bind_eq_ok.1 ends
  cases getDone
  obtain ⟨_, entered, enterDone, rest⟩ := bind_eq_ok.1 rest
  obtain ⟨value, last, partDone, rest⟩ := bind_eq_ok.1 rest
  obtain ⟨_, left, leaveDone, rest⟩ := bind_eq_ok.1 rest
  cases enterDone
  cases leaveDone
  cases rest
  have enteredRenamed : ScopeState.Renamed r marks past { start with classKind := kind }
      { twin with classKind := kind } :=
    { renamed with classKind := rfl }
  obtain ⟨lastTwin, mimicDone, lastRenamed⟩ := inside _ _ _ enteredRenamed partDone
  refine ⟨{ lastTwin with classKind := twin.classKind }, ?_, ?_⟩
  · exact bind_eq_ok.2 ⟨twin, twin, rfl, bind_eq_ok.2 ⟨(), _, rfl, bind_eq_ok.2
      ⟨_, _, mimicDone, bind_eq_ok.2 ⟨(), _, rfl, rfl⟩⟩⟩⟩
  · exact { lastRenamed with classKind := renamed.classKind }

/-- What is done next is told by the kind of the class around, which is the same on both sides. -/
theorem ofClassKind (next : ClassKind → Scoping α) (nextMimic : ClassKind → Scoping β)
    (mimics : ∀ kind, Mimics r marks (next kind) result (nextMimic kind) other) :
    Mimics r marks (get >>= fun state => next state.classKind) result
      (get >>= fun state => nextMimic state.classKind) other := by
  intro past start twin after renamed ends
  obtain ⟨_, _, getDone, nextDone⟩ := bind_eq_ok.1 ends
  cases getDone
  obtain ⟨afterTwin, mimicDone, afterRenamed⟩ := mimics _ _ _ _ renamed nextDone
  rw [← renamed.classKind] at mimicDone
  exact ⟨afterTwin, bind_eq_ok.2 ⟨twin, twin, rfl, mimicDone⟩, afterRenamed⟩

theorem each {visit : α → Scoping β} {bare : β → α} {results twins : List β}
    (mimics : List.Forall₂ (fun result other =>
      Mimics r marks (visit (bare result)) result (visit (bare other)) other) results twins) :
    Mimics r marks (Scoping.each visit (results.map bare)) results
      (Scoping.each visit (twins.map bare)) twins := by
  induction mimics with
  | nil => exact pure fun _ => rfl
  | cons first others induction =>
      apply join first induction
      intro head tail same
      cases same
      exact ⟨rfl, rfl⟩

end Parts

section Expressions

variable {room : Nat}

/-- The pass through an expression mimics that through the renamed one. -/
def OnExpressions (r : Renaming) (room : Nat) : Prop :=
  ∀ (marks : List Bool) (e twin : Expr Site), e.Renamed r marks twin → Fresh r e.tokens →
    Mimics r marks (Scoping.expr room e.bare) e (Scoping.expr room twin.bare) twin

theorem args {args argsTwin : List (Expr Site)} (visits : OnExpressions r room)
    (renamed : Expr.AllRenamed r marks args argsTwin) (fresh : Fresh r (Expr.tokensOfEach args)) :
    Mimics r marks (Scoping.each (Scoping.expr room) (args.map Expr.bare)) args
      (Scoping.each (Scoping.expr room) (argsTwin.map Expr.bare)) argsTwin := by
  apply each
  induction args generalizing argsTwin with
  | nil =>
      cases renamed
      exact .nil
  | cons first rest induction =>
      cases renamed with
      | cons firstRenamed restRenamed =>
          obtain ⟨firstFresh, restFresh⟩ := List.forall_mem_append.1 fresh
          exact .cons (visits marks _ _ firstRenamed firstFresh) (induction restRenamed restFresh)

section Keywords

variable {keyword keywordTwin method methodTwin : Token} {site : Site}

theorem this (names : r.Names (markedAt marks site) keyword keywordTwin)
    (distinct : keyword.lexeme ≠ r.new) (kind : ClassKind) :
    Mimics r marks (thisIn keyword kind) (.this keyword site) (thisIn keywordTwin kind)
      (.this keywordTwin site) := by
  unfold thisIn
  split
  · apply andThen fun _ => ⟨(), complain keyword keywordTwin .thisOutsideClass⟩
    apply pure
    intro same
    cases same
    rfl
  · apply wrap (locate .this names distinct)
    intro site same
    cases same
    rfl

theorem super (names : r.Names (markedAt marks site) keyword keywordTwin)
    (distinct : keyword.lexeme ≠ r.new) (kind : ClassKind) :
    Mimics r marks (superIn keyword method kind) (.super keyword method site)
      (superIn keywordTwin methodTwin kind) (.super keywordTwin methodTwin site) := by
  have located : Mimics r marks
      (Scoping.locate .super keyword >>= fun site => Pure.pure (Expr.super keyword method site))
      (Expr.super keyword method site)
      (Scoping.locate .super keywordTwin >>= fun site =>
        Pure.pure (Expr.super keywordTwin methodTwin site))
      (Expr.super keywordTwin methodTwin site) := by
    apply wrap (locate .super names distinct)
    intro site same
    cases same
    rfl
  cases kind with
  | none => exact andThen (fun _ => ⟨(), complain keyword keywordTwin .superOutsideClass⟩) located
  | plain =>
      exact andThen (fun _ => ⟨(), complain keyword keywordTwin .superWithoutSuperclass⟩) located
  | derived => exact located

end Keywords

theorem expr_next (visits : OnExpressions r room) : OnExpressions r (room + 1) := by
  intro marks e twin renamed fresh
  simp only [Expr.bare]
  cases renamed with
  | literal => exact pure fun _ => rfl
  | grouping inner =>
      apply wrap (visits _ _ _ inner fresh)
      intro value same
      cases same
      rfl
  | unary keeps operand =>
      obtain ⟨_, operandFresh⟩ := List.forall_mem_cons.1 fresh
      apply wrap (visits _ _ _ operand operandFresh)
      intro value same
      cases same
      rfl
  | binary keeps left right =>
      obtain ⟨leftFresh, rest⟩ := List.forall_mem_append.1 fresh
      obtain ⟨_, rightFresh⟩ := List.forall_mem_cons.1 rest
      apply join (visits _ _ _ left leftFresh) (visits _ _ _ right rightFresh)
      intro value other same
      cases same
      exact ⟨rfl, rfl⟩
  | logical keeps left right =>
      obtain ⟨leftFresh, rest⟩ := List.forall_mem_append.1 fresh
      obtain ⟨_, rightFresh⟩ := List.forall_mem_cons.1 rest
      apply join (visits _ _ _ left leftFresh) (visits _ _ _ right rightFresh)
      intro value other same
      cases same
      exact ⟨rfl, rfl⟩
  | «variable» names =>
      apply wrap (reference names (fresh _ List.mem_cons_self))
      intro site same
      cases same
      rfl
  | assign names value =>
      obtain ⟨nameFresh, valueFresh⟩ := List.forall_mem_cons.1 fresh
      apply join (visits _ _ _ value valueFresh) (locate .assign names nameFresh)
      intro value site same
      cases same
      exact ⟨rfl, rfl⟩
  | @call callee calleeTwin paren parenTwin these those keeps calleeRenamed argsRenamed =>
      obtain ⟨calleeFresh, rest⟩ := List.forall_mem_append.1 fresh
      obtain ⟨argsFresh, _⟩ := List.forall_mem_append.1 rest
      simp only [Expr.map, Expr.mapEach_eq_map]
      apply join (visits _ _ _ calleeRenamed calleeFresh) (args visits argsRenamed argsFresh)
      intro value other same
      cases same
      exact ⟨rfl, rfl⟩
  | get keeps object =>
      obtain ⟨objectFresh, _⟩ := List.forall_mem_append.1 fresh
      apply wrap (visits _ _ _ object objectFresh)
      intro value same
      cases same
      rfl
  | set keeps object value =>
      obtain ⟨objectFresh, rest⟩ := List.forall_mem_append.1 fresh
      obtain ⟨_, valueFresh⟩ := List.forall_mem_cons.1 rest
      -- the pass comes to the value before it comes to the object
      apply join (visits _ _ _ value valueFresh) (visits _ _ _ object objectFresh)
      intro value object same
      cases same
      exact ⟨rfl, rfl⟩
  | this names =>
      exact ofClassKind (thisIn _) (thisIn _) (this names (fresh _ List.mem_cons_self))
  | super names keeps =>
      exact ofClassKind (superIn _ _) (superIn _ _) (super names (fresh _ List.mem_cons_self))

theorem expressions (room : Nat) : OnExpressions r room := by
  induction room with
  | zero =>
      intro marks e twin _ _ past start twinStart after _ ends
      cases ends
  | succ room induction => exact expr_next induction

end Expressions

section Statements

variable {room : Nat}

/-- The pass through a statement mimics that through the renamed one. -/
def OnStatements (r : Renaming) (room : Nat) : Prop :=
  ∀ (marks : List Bool) (s twin : Stmt Site), s.Renamed r marks twin → Fresh r s.tokens →
    Mimics r marks (Scoping.stmt room s.bare) s (Scoping.stmt room twin.bare) twin

theorem body {statements twins : List (Stmt Site)} (visits : OnStatements r room)
    (renamed : Stmt.AllRenamed r marks statements twins)
    (fresh : Fresh r (Stmt.tokensOfAll statements)) :
    Mimics r marks (Scoping.each (Scoping.stmt room) (statements.map Stmt.bare)) statements
      (Scoping.each (Scoping.stmt room) (twins.map Stmt.bare)) twins := by
  apply each
  induction statements generalizing twins with
  | nil =>
      cases renamed
      exact .nil
  | cons first rest induction =>
      cases renamed with
      | cons firstRenamed restRenamed =>
          obtain ⟨firstFresh, restFresh⟩ := List.forall_mem_append.1 fresh
          exact .cons (visits marks _ _ firstRenamed firstFresh) (induction restRenamed restFresh)

theorem optional {value twin : Option (Expr Site)} (visits : OnExpressions r room)
    (renamed : Expr.OptionRenamed r marks value twin)
    (fresh : Fresh r (Expr.tokensOfOptional value)) :
    Mimics r marks (Scoping.optional (Scoping.expr room) (value.map Expr.bare)) value
      (Scoping.optional (Scoping.expr room) (twin.map Expr.bare)) twin := by
  cases renamed with
  | none => exact pure fun _ => rfl
  | some renamed =>
      apply wrap (visits _ _ _ renamed fresh)
      intro found same
      cases same
      rfl

theorem params {mark : Bool} {names namesTwin : List Token} {units : List Unit}
    (renamed : List.Forall₂ (r.Names mark) names namesTwin) (fresh : Fresh r names) :
    Mimics r (mark :: marks) (Scoping.each Scoping.param names) units
      (Scoping.each Scoping.param namesTwin) units := by
  induction renamed generalizing units with
  | nil =>
      intro past start twin after related ends
      cases ends
      exact ⟨_, rfl, related⟩
  | @cons name nameTwin rest restTwin first others induction =>
      obtain ⟨nameFresh, restFresh⟩ := List.forall_mem_cons.1 fresh
      intro past start twin after related ends
      obtain ⟨head, middle, firstDone, remaining⟩ := bind_eq_ok.1 ends
      obtain ⟨tail, last, restDone, remaining⟩ := bind_eq_ok.1 remaining
      cases remaining
      have firstMimics : Mimics r (mark :: marks) (Scoping.param name) head
          (Scoping.param nameTwin) head :=
        andThen (fun result => ⟨(), declare result first nameFresh⟩) (define head first nameFresh)
      obtain ⟨middleTwin, firstTwin, middleRelated⟩ := firstMimics _ _ _ related firstDone
      obtain ⟨lastTwin, restTwin, lastRelated⟩ := induction restFresh _ _ _ middleRelated restDone
      exact ⟨lastTwin, bind_eq_ok.2 ⟨_, _, firstTwin, bind_eq_ok.2 ⟨_, _, restTwin, rfl⟩⟩,
        lastRelated⟩

/-- A scope without names is the same on both sides, whether or not it is marked. -/
theorem inBlock (mark : Bool) {part : Scoping α} {mimic : Scoping β} {result : α} {other : β}
    (inside : Mimics r (mark :: marks) part result mimic other) :
    Mimics r marks (Scoping.inScope Table.empty part) result
      (Scoping.inScope Table.empty mimic) other :=
  inScope Table.Renamed.empty rfl inside

/-- The scope of `this`, or that of `super`, is not marked. -/
theorem inSpecial {name : String} {part : Scoping α} {mimic : Scoping β} {result : α} {other : β}
    (special : name ≠ r.new) (inside : Mimics r (false :: marks) part result mimic other) :
    Mimics r marks (Scoping.inScope (Table.empty.insert name true) part) result
      (Scoping.inScope (Table.empty.insert name true) mimic) other := by
  have same : Table.Renamed r false Eq (Table.empty.insert name true)
      (Table.empty.insert name true) :=
    Table.Renamed.empty.insert_unmarked name rfl
  apply inScope same ?_ inside
  unfold Table.binds
  rw [Table.get?_insert_of_ne _ _ special]
  rfl

theorem functionRest {decl twin : FunctionDecl Site} (visits : OnStatements r room)
    (kind : FunctionKind) (renamed : decl.Renamed r marks twin) (fresh : Fresh r decl.tokens) :
    Mimics r marks
      (Scoping.functionRest (Scoping.stmt room) kind (decl.map id fun _ => ())) decl
      (Scoping.functionRest (Scoping.stmt room) kind (twin.map id fun _ => ())) twin := by
  cases renamed with
  | mk mark keeps names bodies =>
      obtain ⟨_, rest⟩ := List.forall_mem_cons.1 fresh
      obtain ⟨paramsFresh, bodyFresh⟩ := List.forall_mem_append.1 rest
      apply inFunction
      apply inBlock mark
      simp only [FunctionDecl.map, FunctionDecl.params, FunctionDecl.body, FunctionDecl.name,
        List.map_id_fun, id_eq, Stmt.mapAll_eq_map]
      apply andThen
      · exact fun units => ⟨units, params names paramsFresh⟩
      · apply wrap (body visits bodies bodyFresh)
        intro value same
        cases same
        rfl

theorem methods {methods methodsTwin : List (FunctionDecl Site)} (visits : OnStatements r room)
    (renamed : FunctionDecl.AllRenamed r (false :: marks) methods methodsTwin)
    (fresh : Fresh r (FunctionDecl.tokensOfAll methods)) :
    Mimics r marks
      (Scoping.methodsRest (Scoping.stmt room) (methods.map (FunctionDecl.map id fun _ => ())))
      methods
      (Scoping.methodsRest (Scoping.stmt room) (methodsTwin.map (FunctionDecl.map id fun _ => ())))
      methodsTwin := by
  apply inSpecial (r.ordinary "this" (by decide)).2
  apply each
  induction methods generalizing methodsTwin with
  | nil =>
      cases renamed
      exact .nil
  | cons first rest induction =>
      cases renamed with
      | @cons _ _ firstTwin _ _ firstRenamed restRenamed =>
          obtain ⟨firstFresh, restFresh⟩ := List.forall_mem_append.1 fresh
          refine .cons ?_ (induction restRenamed restFresh)
          have sameName : (firstTwin.map id fun _ => () : FunctionDecl Unit).name.lexeme =
              (first.map id fun _ => () : FunctionDecl Unit).name.lexeme := by
            cases firstRenamed with
            | mk mark keeps params body => exact keeps.lexeme_eq
          have sameKind : Scoping.methodKind (firstTwin.map id fun _ => ()) =
              Scoping.methodKind (first.map id fun _ => ()) := by
            unfold Scoping.methodKind
            rw [sameName]
          rw [sameKind]
          exact functionRest visits _ firstRenamed firstFresh

/-- To have complained about more makes no difference. -/
theorem complained (renamed : ScopeState.Renamed r marks past start twin)
    (complaint : ScopeComplaint) :
    ScopeState.Renamed r marks past { start with complaints := complaint :: start.complaints }
      twin :=
  { renamed with complaints := Nat.le_succ_of_le renamed.complaints }

theorem superclass {name nameTwin parent parentTwin : Token} {site : Site}
    (keeps : r.Keeps name nameTwin) (names : r.Names (markedAt marks site) parent parentTwin)
    (nameFresh : name.lexeme ≠ r.new) (parentFresh : parent.lexeme ≠ r.new) :
    Mimics r marks (Scoping.superclass name ⟨parent, ()⟩) ⟨parent, site⟩
      (Scoping.superclass nameTwin ⟨parentTwin, ()⟩) ⟨parentTwin, site⟩ := by
  have derive (value : Unit) : Mimics r marks
      (modify fun state => { state with classKind := .derived } : Scoping Unit) value
      (modify fun state => { state with classKind := .derived } : Scoping Unit) () := by
    intro past start twin after related ends
    cases ends
    exact ⟨_, rfl, { related with classKind := rfl }⟩
  have referred : Mimics r marks
      (Scoping.reference parent >>= fun site => Pure.pure (Superclass.mk parent site))
      ⟨parent, site⟩
      (Scoping.reference parentTwin >>= fun site => Pure.pure (Superclass.mk parentTwin site))
      ⟨parentTwin, site⟩ := by
    apply wrap (reference names parentFresh)
    intro site same
    cases same
    rfl
  have derived := andThen (fun value => ⟨(), derive value⟩) referred
  intro past start twin after related ends
  unfold Scoping.superclass at ends ⊢
  dsimp only at ends ⊢
  split at ends
  · rename_i inherits
    split
    · exact andThen (fun _ => ⟨(), complain parent parentTwin .selfInheritance⟩) derived
        _ _ _ related ends
    · obtain ⟨_, told, complainDone, rest⟩ := bind_eq_ok.1 ends
      cases complainDone
      exact derived _ _ _ (complained related _) rest
  · rename_i differs
    have differsTwin : parentTwin.lexeme ≠ nameTwin.lexeme := by
      rw [keeps.lexeme_eq, names.lexeme]
      unfold Renaming.apply
      split
      · exact nameFresh.symm
      · exact differs
    rw [if_neg differsTwin]
    exact derived _ _ _ related ends

/-- A complaint that depends on the function around is made on both sides or on neither. -/
theorem inKind {about aboutTwin : Token} {error : ScopeError} (kind : FunctionKind)
    {next : Scoping α} {nextMimic : Scoping β} {result : α} {other : β}
    (second : Mimics r marks next result nextMimic other) :
    Mimics r marks
      (do
        if (← get).function = kind then Scoping.complain about error
        next)
      result
      (do
        if (← get).function = kind then Scoping.complain aboutTwin error
        nextMimic)
      other := by
  intro past start twin after related ends
  obtain ⟨_, _, getDone, rest⟩ := bind_eq_ok.1 ends
  cases getDone
  dsimp only at rest
  split at rest
  · rename_i isKind
    obtain ⟨last, mimicDone, lastRelated⟩ :=
      andThen (fun _ => ⟨(), complain about aboutTwin error⟩) second _ _ _ related rest
    refine ⟨last, bind_eq_ok.2 ⟨twin, twin, rfl, ?_⟩, lastRelated⟩
    dsimp only
    rw [if_pos (related.function.trans isKind)]
    exact mimicDone
  · rename_i notKind
    obtain ⟨last, mimicDone, lastRelated⟩ := second _ _ _ related rest
    refine ⟨last, bind_eq_ok.2 ⟨twin, twin, rfl, ?_⟩, lastRelated⟩
    dsimp only
    rw [if_neg (related.function.symm ▸ notKind)]
    exact mimicDone

theorem stmt_next (values : OnExpressions r room) (visits : OnStatements r room) :
    OnStatements r (room + 1) := by
  intro marks s twin renamed fresh
  simp only [Stmt.bare]
  cases renamed with
  | expression value =>
      apply wrap (values _ _ _ value fresh)
      intro value same
      cases same
      rfl
  | print value =>
      apply wrap (values _ _ _ value fresh)
      intro value same
      cases same
      rfl
  | var names initializer =>
      obtain ⟨nameFresh, valueFresh⟩ := List.forall_mem_cons.1 fresh
      apply andThen fun result => ⟨(), declare result names nameFresh⟩
      have defined := define () names nameFresh
      apply join (optional values initializer valueFresh) defined
      intro value _ same
      cases same
      exact ⟨rfl, rfl⟩
  | block mark bodies =>
      simp only [Stmt.map, Stmt.mapAll_eq_map]
      apply wrap (inBlock mark (body visits bodies fresh))
      intro value same
      cases same
      rfl
  | conditional condition branch =>
      obtain ⟨conditionFresh, branchFresh⟩ := List.forall_mem_append.1 fresh
      have missing : Mimics r marks (Scoping.optional (Scoping.stmt room) none) none
          (Scoping.optional (Scoping.stmt room) none) none := pure fun _ => rfl
      apply joinThree (values _ _ _ condition conditionFresh) (visits _ _ _ branch branchFresh)
        missing
      intro value result nothing same
      cases same
      exact ⟨rfl, rfl, rfl⟩
  | conditionalElse condition branch other =>
      obtain ⟨conditionFresh, rest⟩ := List.forall_mem_append.1 fresh
      obtain ⟨branchFresh, otherFresh⟩ := List.forall_mem_append.1 rest
      apply joinThree (values _ _ _ condition conditionFresh) (visits _ _ _ branch branchFresh)
        (wrap (visits _ _ _ other otherFresh) fun _ => Option.some.inj)
      intro value result another same
      cases same
      exact ⟨rfl, rfl, rfl⟩
  | loop condition inner =>
      obtain ⟨conditionFresh, bodyFresh⟩ := List.forall_mem_append.1 fresh
      apply join (values _ _ _ condition conditionFresh) (visits _ _ _ inner bodyFresh)
      intro value other same
      cases same
      exact ⟨rfl, rfl⟩
  | @function _ decl twin declares renamed =>
      obtain ⟨name, params, body⟩ := decl
      obtain ⟨nameTwin, paramsTwin, bodyTwin⟩ := twin
      have nameFresh := fresh name List.mem_cons_self
      have names := declares.names
      apply andThen fun result => ⟨(), declare result names nameFresh⟩
      apply andThen fun result => ⟨(), define result names nameFresh⟩
      apply wrap (functionRest visits .function renamed fresh)
      intro value same
      cases same
      rfl
  | @«return» _ keyword keywordTwin value twin keeps value =>
      obtain ⟨_, valueFresh⟩ := List.forall_mem_cons.1 fresh
      cases value with
      | none =>
          apply inKind .none
          exact pure fun _ => rfl
      | some renamed =>
          apply inKind .none
          apply inKind .initializer
          apply wrap (values _ _ _ renamed valueFresh)
          intro value same
          cases same
          rfl
  | plainClass declares renamed =>
      obtain ⟨nameFresh, methodsFresh⟩ := List.forall_mem_cons.1 fresh
      have names := declares.names
      simp only [Stmt.map, FunctionDecl.mapAll_eq_map]
      apply inClass
      apply andThen fun result => ⟨(), declare result names nameFresh⟩
      apply andThen fun result => ⟨(), define result names nameFresh⟩
      apply wrap (methods visits renamed methodsFresh)
      intro value same
      cases same
      rfl
  | derivedClass declares parentNames renamed =>
      obtain ⟨nameFresh, rest⟩ := List.forall_mem_cons.1 fresh
      obtain ⟨parentFresh, methodsFresh⟩ := List.forall_mem_cons.1 rest
      have names := declares.names
      simp only [Stmt.map, FunctionDecl.mapAll_eq_map]
      apply inClass
      apply andThen fun result => ⟨(), declare result names nameFresh⟩
      apply andThen fun result => ⟨(), define result names nameFresh⟩
      apply join (superclass declares.keeps parentNames nameFresh parentFresh)
        (inSpecial (r.ordinary "super" (by decide)).2 (methods visits renamed methodsFresh))
      intro value other same
      cases same
      exact ⟨rfl, rfl⟩
  | lost => exact pure fun _ => rfl

theorem statements (room : Nat) : OnStatements r room := by
  induction room with
  | zero =>
      intro marks s twin _ _ past start twinStart after _ ends
      cases ends
  | succ room induction => exact stmt_next (expressions room) induction

end Statements

end Mimics

end Scoping

end LoxLang
