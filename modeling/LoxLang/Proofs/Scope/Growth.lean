import LoxLang.Proofs.Scope.Survey
import LoxLang.Proofs.Stateful

/-!
# The notes on scopes only grow

A part of the watched pass takes nothing back: complaints, names put into scopes
and visited nodes are only added.  The nodes that a part visits lie in the region
of the part, and none is visited twice.
-/

namespace LoxLang

/-- The address lies at or below another one. -/
def Address.IsWithin (address root : Address) : Prop :=
  address.program = root.program ∧ root.path <:+ address.path

/-- The address lies at or below a child whose index is among the wanted ones. -/
def Address.IsInside (address root : Address) (wanted : Nat → Prop) : Prop :=
  ∃ index, wanted index ∧ address.IsWithin (root.child index)

theorem Address.IsInside.isWithin {address root : Address} {wanted : Nat → Prop}
    (inside : address.IsInside root wanted) : address.IsWithin root := by
  obtain ⟨index, _, sameProgram, below⟩ := inside
  exact ⟨sameProgram, (List.suffix_cons index root.path).trans below⟩

theorem Address.IsInside.anywhere {address root : Address} {wanted : Nat → Prop}
    (inside : address.IsInside root wanted) : address.IsInside root fun _ => True := by
  obtain ⟨index, _, below⟩ := inside
  exact ⟨index, trivial, below⟩

theorem Address.IsInside.ne_root {address root : Address} {wanted : Nat → Prop}
    (inside : address.IsInside root wanted) : address ≠ root := by
  intro same
  subst same
  obtain ⟨index, _, _, below⟩ := inside
  have longer := below.length_le
  simp only [Address.child, List.length_cons] at longer
  omega

/-- Nothing lies below two children. -/
theorem Address.IsInside.index_mem {address root : Address} {wanted others : Nat → Prop}
    (inside : address.IsInside root wanted) (elsewhere : address.IsInside root others) :
    ∃ index, wanted index ∧ others index := by
  obtain ⟨index, isWanted, _, below⟩ := inside
  obtain ⟨other, isOther, _, alsoBelow⟩ := elsewhere
  have suffix := List.suffix_of_suffix_length_le below alsoBelow (by simp [Address.child])
  have same := suffix.eq_of_length (by simp [Address.child])
  simp only [Address.child, List.cons.injEq, and_true] at same
  subst same
  exact ⟨index, isWanted, isOther⟩

namespace Surveying

open Watched (lift note)

variable {α β : Type}

/-- Nothing was taken back on the way from one state of the pass to another one. -/
structure Grows (start after : Watched ScopeState Survey) : Prop where
  complaints : start.state.complaints <:+ after.state.complaints
  put : start.notes.put <:+ after.notes.put
  visits : start.notes.visits <:+ after.notes.visits

namespace Grows

theorem refl (start : Watched ScopeState Survey) : Grows start start :=
  ⟨List.suffix_refl _, List.suffix_refl _, List.suffix_refl _⟩

theorem trans {start middle after : Watched ScopeState Survey} (first : Grows start middle)
    (second : Grows middle after) : Grows start after :=
  ⟨first.complaints.trans second.complaints, first.put.trans second.put,
    first.visits.trans second.visits⟩

end Grows

/-- The part takes nothing back, and the nodes that it visits are distinct nodes of the region. -/
def Adds (region : Address → Prop) (part : Surveying α) : Prop :=
  ∀ start result after, part start = .ok result after → Grows start after ∧
    ∃ added, after.notes.visits = added ++ start.notes.visits ∧
      (added.map Visit.address).Nodup ∧ ∀ visit ∈ added, region visit.address

/-- The region in which there is nothing. -/
def nowhere (_ : Address) : Prop := False

namespace Adds

variable {region larger : Address → Prop} {part : Surveying α}

theorem mono (adds : Adds region part) (within : ∀ address, region address → larger address) :
    Adds larger part := by
  intro start result after succeeded
  obtain ⟨grows, added, visits, distinct, inRegion⟩ := adds start result after succeeded
  exact ⟨grows, added, visits, distinct, fun visit member => within _ (inRegion visit member)⟩

theorem pure (result : α) : Adds region (Pure.pure result) := by
  intro start found after succeeded
  cases succeeded
  exact ⟨.refl _, [], rfl, .nil, by simp⟩

theorem throw (stop : TooDeep) : Adds region (throw stop : Surveying α) := by
  intro start result after succeeded
  cases succeeded

theorem lift {plain : Scoping α}
    (keeps : ∀ state result after, plain state = .ok result after →
      state.complaints <:+ after.complaints) : Adds region (Watched.lift plain) := by
  intro start result after succeeded
  unfold Watched.lift at succeeded
  cases outcome : plain start.state with
  | ok found state =>
      rw [outcome] at succeeded
      cases succeeded
      exact ⟨⟨keeps _ _ _ outcome, List.suffix_refl _, List.suffix_refl _⟩, [], rfl, .nil,
        by simp⟩
  | error stop state =>
      rw [outcome] at succeeded
      cases succeeded

/-- Notes that keep what was put into scopes and what was visited. -/
theorem note {update : ScopeState → Survey → Survey}
    (put : ∀ state survey, survey.put <:+ (update state survey).put)
    (visits : ∀ state survey, (update state survey).visits = survey.visits) :
    Adds region (Watched.note update) := by
  intro start result after succeeded
  cases succeeded
  refine ⟨⟨List.suffix_refl _, put _ _, ?_⟩, [], visits _ _, .nil, by simp⟩
  simp [visits]

/-- Two parts whose regions are apart. -/
theorem bind {next : α → Surveying β} {later both : Address → Prop} (adds : Adds region part)
    (nextAdds : ∀ result, Adds later (next result))
    (apart : ∀ address, region address → later address → False)
    (within : ∀ address, region address ∨ later address → both address) :
    Adds both (part >>= next) := by
  intro start result after succeeded
  obtain ⟨value, middle, first, second⟩ := bind_eq_ok.1 succeeded
  obtain ⟨grows, added, visits, distinct, inRegion⟩ := adds _ _ _ first
  obtain ⟨laterGrows, more, moreVisits, moreDistinct, inLater⟩ := nextAdds _ _ _ _ second
  refine ⟨grows.trans laterGrows, more ++ added, ?_, ?_, ?_⟩
  · rw [moreVisits, visits, List.append_assoc]
  · rw [List.map_append, List.nodup_append]
    refine ⟨moreDistinct, distinct, ?_⟩
    intro address inMore other inAdded same
    subst same
    obtain ⟨visit, member, rfl⟩ := List.mem_map.1 inMore
    obtain ⟨earlier, earlierMember, same⟩ := List.mem_map.1 inAdded
    exact apart _ (same ▸ inRegion earlier earlierMember) (inLater visit member)
  · intro visit member
    rcases List.mem_append.1 member with inMore | inAdded
    · exact within _ (.inr (inLater visit inMore))
    · exact within _ (.inl (inRegion visit inAdded))

/-- A part after a step that visits nothing. -/
theorem after {next : α → Surveying β} (silent : Adds nowhere part)
    (nextAdds : ∀ result, Adds region (next result)) : Adds region (part >>= next) :=
  bind silent nextAdds (fun _ never _ => never) fun _ either =>
    either.elim False.elim fun inLater => inLater

theorem before {next : α → Surveying β} (adds : Adds region part)
    (silent : ∀ result, Adds nowhere (next result)) : Adds region (part >>= next) :=
  bind adds silent (fun _ _ never => never) fun _ either =>
    either.elim (fun inRegion => inRegion) False.elim

theorem ite {condition : Prop} [Decidable condition] {other : Surveying α}
    (adds : Adds region part) (otherAdds : Adds region other) :
    Adds region (if condition then part else other) := by
  split
  · exact adds
  · exact otherAdds

section Children

variable {root : Address} {wanted either : Nat → Prop}

theorem child {index : Nat} (adds : Adds (·.IsWithin (root.child index)) part)
    (isWanted : wanted index) : Adds (·.IsInside root wanted) part :=
  adds.mono fun _ within => ⟨index, isWanted, within⟩

theorem children (first later : Nat → Prop) {next : α → Surveying β}
    (adds : Adds (·.IsInside root first) part)
    (nextAdds : ∀ result, Adds (·.IsInside root later) (next result))
    (apart : ∀ index, first index → later index → False)
    (within : ∀ index, first index ∨ later index → either index) :
    Adds (·.IsInside root either) (part >>= next) := by
  apply bind adds nextAdds
  · intro address inside elsewhere
    obtain ⟨index, isWanted, isOther⟩ := inside.index_mem elsewhere
    exact apart index isWanted isOther
  · intro address inside
    rcases inside with ⟨index, isWanted, below⟩ | ⟨index, isOther, below⟩
    · exact ⟨index, within index (.inl isWanted), below⟩
    · exact ⟨index, within index (.inr isOther), below⟩

/-- A node is visited before the parts that lie in its children. -/
theorem node {node : Node Unit} {rest : Surveying α}
    (adds : Adds (·.IsInside root fun _ => True) rest) :
    Adds (·.IsWithin root) (visit root node >>= fun _ => rest) := by
  have visited : Adds (· = root) (visit root node) := by
    intro start result after succeeded
    cases succeeded
    refine ⟨⟨List.suffix_refl _, List.suffix_refl _, List.suffix_cons _ _⟩, [_], rfl, ?_, ?_⟩
    · simp
    · simp
  apply bind visited (fun _ => adds)
  · intro address same inside
    exact inside.ne_root same
  · intro address inRegion
    rcases inRegion with same | inside
    · subst same
      exact ⟨rfl, List.suffix_refl _⟩
    · exact inside.isWithin

end Children

end Adds

section Steps

variable {region : Address → Prop}

theorem complain_adds (about : Token) (error : ScopeError) :
    Adds region (lift (Scoping.complain about error)) := by
  apply Adds.lift
  intro state result after succeeded
  cases succeeded
  exact List.suffix_cons _ _

theorem define_adds (name : String) : Adds region (lift (Scoping.define name)) := by
  apply Adds.lift
  intro state result after succeeded
  unfold Scoping.define at succeeded
  split at succeeded
  · cases succeeded
    exact List.suffix_refl _
  · cases succeeded
    exact List.suffix_refl _

theorem locate_complaints {kind : ReferenceKind} {name : Token} {state found : ScopeState}
    {site : Site} (located : Scoping.locate kind name state = .ok site found) :
    found.complaints = state.complaints := by
  unfold Scoping.locate at located
  split at located <;> cases located <;> rfl

theorem locate_adds (kind : ReferenceKind) (name : Token) :
    Adds region (lift (Scoping.locate kind name)) := by
  apply Adds.lift
  intro state result after succeeded
  exact locate_complaints succeeded ▸ List.suffix_refl _

theorem get_adds : Adds region (lift get) := by
  apply Adds.lift
  intro state result after succeeded
  cases succeeded
  exact List.suffix_refl _

theorem modify_adds {update : ScopeState → ScopeState}
    (keeps : ∀ state, (update state).complaints = state.complaints) :
    Adds region (lift (modify update)) := by
  apply Adds.lift
  intro state result after succeeded
  cases succeeded
  simp [keeps]

theorem declare_adds (name : Token) : Adds region (declare name) := by
  apply Adds.after
  · exact Adds.note (fun _ _ => List.suffix_append _ _) fun _ _ => rfl
  · intro _
    apply Adds.lift
    intro state result after succeeded
    unfold Scoping.declare at succeeded
    split at succeeded
    · cases succeeded
      exact List.suffix_refl _
    · cases succeeded
      dsimp only
      split
      · exact List.suffix_cons _ _
      · exact List.suffix_refl _

theorem reference_adds (name : Token) : Adds region (lift (Scoping.reference name)) := by
  apply Adds.lift
  intro state result after succeeded
  unfold Scoping.reference at succeeded
  obtain ⟨pending, middle, asked, rest⟩ := bind_eq_ok.1 succeeded
  have unmoved : middle = state := by
    unfold Scoping.isPending at asked
    split at asked <;> cases asked <;> rfl
  subst unmoved
  cases pending with
  | false =>
      exact locate_complaints rest ▸ List.suffix_refl _
  | true =>
      obtain ⟨_, _, complained, located⟩ := bind_eq_ok.1 rest
      cases complained
      have kept := locate_complaints located
      rw [kept]
      exact List.suffix_cons _ _

theorem inScope_adds {α : Type} {scope : Scope} {part : Surveying α} (adds : Adds region part) :
    Adds region (inScope scope part) := by
  apply Adds.after
  · exact Adds.note (fun _ _ => List.suffix_append _ _) fun _ _ => rfl
  · intro _
    apply Adds.after (modify_adds (fun _ => by rfl))
    intro _
    apply Adds.before adds
    intro result
    apply Adds.after
    · exact Adds.note (fun _ _ => List.suffix_refl _) fun _ _ => rfl
    · intro _
      exact Adds.after (modify_adds (fun _ => by rfl)) fun _ => .pure result

theorem inFunction_adds {α : Type} {kind : FunctionKind} {part : Surveying α}
    (adds : Adds region part) : Adds region (inFunction kind part) := by
  apply Adds.after get_adds
  intro enclosing
  apply Adds.after (modify_adds (fun _ => by rfl))
  intro _
  apply Adds.before adds
  intro result
  exact Adds.after (modify_adds (fun _ => by rfl)) fun _ => .pure result

theorem inClass_adds {α : Type} {kind : ClassKind} {part : Surveying α}
    (adds : Adds region part) : Adds region (inClass kind part) := by
  apply Adds.after get_adds
  intro enclosing
  apply Adds.after (modify_adds (fun _ => by rfl))
  intro _
  apply Adds.before adds
  intro result
  exact Adds.after (modify_adds (fun _ => by rfl)) fun _ => .pure result

theorem param_adds (name : Token) : Adds region (param name) :=
  Adds.after (declare_adds name) fun _ => define_adds _

theorem params_adds (index : Nat) (params : List Token) :
    Adds region (each (fun _ => param) index params) := by
  induction params generalizing index with
  | nil => exact .pure []
  | cons first rest induction =>
      apply Adds.after (param_adds first)
      intro head
      apply Adds.bind (induction (index + 1)) (fun tail => .pure (head :: tail))
      · exact fun _ _ never => never
      · exact fun _ either => either.elim (fun inRegion => inRegion) False.elim

end Steps

section Children

variable {α β : Type} {root : Address}

theorem each_adds {visit : Nat → α → Surveying β}
    (visitAdds : ∀ index part, Adds (·.IsWithin (root.child index)) (visit index part))
    (index : Nat) (parts : List α) :
    Adds (·.IsInside root (index ≤ ·)) (each visit index parts) := by
  induction parts generalizing index with
  | nil => exact .pure []
  | cons first rest induction =>
      apply Adds.children (· = index) (index + 1 ≤ ·) ((visitAdds index first).child rfl)
      · intro head
        exact (induction (index + 1)).before fun tail => .pure (head :: tail)
      · intro other same later
        omega
      · intro other either
        omega

theorem optional_adds {visit : α → Surveying β} {region : Address → Prop}
    (visitAdds : ∀ part, Adds region (visit part)) (part : Option α) :
    Adds region (optional visit part) := by
  cases part with
  | none => exact .pure none
  | some present => exact (visitAdds present).before fun result => .pure (some result)

end Children

theorem Adds.twoChildren {α β : Type} {root : Address} {first second : Nat} {part : Surveying α}
    {next : α → Surveying β} (adds : Adds (·.IsWithin (root.child first)) part)
    (nextAdds : ∀ result, Adds (·.IsWithin (root.child second)) (next result))
    (distinct : first ≠ second) :
    Adds (·.IsInside root fun _ => True) (part >>= next) := by
  apply Adds.children (· = first) (· = second) (adds.child rfl)
  · intro result
    exact (nextAdds result).child rfl
  · intro index isFirst isSecond
    exact distinct (isFirst.symm.trans isSecond)
  · intro _ _
    trivial

theorem expr_adds (room : Nat) (address : Address) (e : Expr Unit) :
    Adds (·.IsWithin address) (expr room address e) := by
  induction room generalizing address e with
  | zero => exact .throw _
  | succ room induction =>
      apply Adds.node
      cases e with
      | literal value => exact .pure _
      | grouping inner => exact ((induction _ inner).child trivial).before fun _ => .pure _
      | unary op operand => exact ((induction _ operand).child trivial).before fun _ => .pure _
      | binary left op right =>
          apply Adds.twoChildren (induction _ left) _ Nat.zero_ne_one
          exact fun _ => (induction _ right).before fun _ => .pure _
      | logical left op right =>
          apply Adds.twoChildren (induction _ left) _ Nat.zero_ne_one
          exact fun _ => (induction _ right).before fun _ => .pure _
      | «variable» name site => exact (reference_adds name).before fun _ => .pure _
      | assign name site value =>
          apply ((induction _ value).child trivial).before
          exact fun _ => (locate_adds _ _).before fun _ => .pure _
      | call callee paren args =>
          apply Adds.children (· = 0) (1 ≤ ·) ((induction _ callee).child rfl)
          · intro _
            apply (each_adds (fun _ => induction _) 1 args).before
            exact fun _ => .pure _
          · intro index isFirst isLater
            omega
          · intro _ _
            trivial
      | get object name => exact ((induction _ object).child trivial).before fun _ => .pure _
      | set object name value =>
          apply Adds.twoChildren (induction _ value) _ Nat.one_ne_zero
          exact fun _ => (induction _ object).before fun _ => .pure _
      | this keyword site =>
          apply Adds.after get_adds
          intro state
          apply Adds.ite
          · exact (complain_adds _ _).before fun _ => .pure _
          · exact (locate_adds _ _).before fun _ => .pure _
      | super keyword method site =>
          apply Adds.after get_adds
          intro state
          have located : ∀ _ : Unit, Adds (·.IsInside address fun _ => True) (do
              return Expr.super keyword method (← lift (Scoping.locate .super keyword))) :=
            fun _ => (locate_adds _ _).before fun _ => .pure _
          cases state.classKind with
          | none => exact (complain_adds _ _).after located
          | plain => exact (complain_adds _ _).after located
          | derived => exact located ()

section Statements

variable {visit : Address → Stmt Unit → Surveying (Stmt Site)}
  (visitAdds : ∀ address s, Adds (·.IsWithin address) (visit address s))

include visitAdds

theorem functionPart_adds (address : Address) (decl : FunctionDecl Unit) :
    Adds (·.IsInside address (0 ≤ ·)) (do
      let _ ← each (fun _ => param) 0 decl.params
      let body ← each (fun index => visit (address.child index)) 0 decl.body
      return (⟨decl.name, decl.params, body⟩ : FunctionDecl Site)) := by
  apply Adds.after (params_adds 0 decl.params)
  intro _
  apply (each_adds (fun _ => visitAdds _) 0 decl.body).before
  exact fun _ => .pure _

theorem functionRest_adds (kind : FunctionKind) (address : Address) (decl : FunctionDecl Unit) :
    Adds (·.IsInside address (0 ≤ ·)) (functionRest visit kind address decl) :=
  inFunction_adds (inScope_adds (functionPart_adds visitAdds address decl))

theorem methods_adds (address : Address) (index : Nat) (methods : List (FunctionDecl Unit)) :
    Adds (·.IsInside address (index ≤ ·)) (each (fun index method =>
      functionRest visit (Scoping.methodKind method) (address.child index) method) index
        methods) := by
  apply each_adds
  intro index method
  exact (functionRest_adds visitAdds _ _ method).mono fun _ inside => inside.isWithin

theorem methodsRest_adds (address : Address) (methods : List (FunctionDecl Unit)) :
    Adds (·.IsInside address (1 ≤ ·)) (methodsRest visit address methods) :=
  inScope_adds (methods_adds visitAdds address 1 methods)

end Statements

theorem superclassRest_adds (address : Address) (parent : Superclass Unit) :
    Adds (·.IsWithin address) (do
      lift (modify fun state => { state with classKind := ClassKind.derived })
      visit address (.expr (.variable parent.name parent.site))
      return (⟨parent.name, ← lift (Scoping.reference parent.name)⟩ : Superclass Site)) := by
  apply Adds.after (modify_adds (fun _ => by rfl))
  intro _
  apply Adds.node
  exact (reference_adds parent.name).before fun _ => .pure _

theorem superclass_adds (address : Address) (name : Token) (parent : Superclass Unit) :
    Adds (·.IsWithin address) (superclass address name parent) := by
  have rest := superclassRest_adds address parent
  unfold superclass
  apply Adds.ite
  · exact (complain_adds _ _).after fun _ => rest
  · exact rest

theorem returned_adds (room : Nat) (address : Address) (keyword : Token) (value : Expr Unit) :
    Adds (·.IsInside address fun _ => True) (do
      return Stmt.return keyword (some (← expr room (address.child 0) value))) :=
  ((expr_adds room _ value).child trivial).before fun _ => .pure _

theorem returnRest_adds (room : Nat) (address : Address) (keyword : Token)
    (value : Option (Expr Unit)) :
    Adds (·.IsInside address fun _ => True) (match value with
      | none => (return Stmt.return keyword none : Surveying (Stmt Site))
      | some result => do
          if (← lift get).function = .initializer then
            lift (Scoping.complain keyword .valueFromInitializer)
          return .return keyword (some (← expr room (address.child 0) result))) := by
  cases value with
  | none => exact .pure _
  | some result =>
      have returned := returned_adds room address keyword result
      apply Adds.after get_adds
      intro state
      apply Adds.ite
      · exact (complain_adds _ _).after fun _ => returned
      · exact returned

theorem stmt_adds (room : Nat) (address : Address) (s : Stmt Unit) :
    Adds (·.IsWithin address) (stmt room address s) := by
  induction room generalizing address s with
  | zero => exact .throw _
  | succ room induction =>
      apply Adds.node
      cases s with
      | expression value => exact ((expr_adds _ _ value).child trivial).before fun _ => .pure _
      | print value => exact ((expr_adds _ _ value).child trivial).before fun _ => .pure _
      | var name initializer =>
          apply (declare_adds name).after
          intro _
          apply (optional_adds (fun value => (expr_adds room _ value).child trivial)
            initializer).before
          exact fun _ => (define_adds _).before fun _ => .pure _
      | block body =>
          apply Adds.before (inScope_adds ((each_adds (fun _ => induction _) 0 body).mono _))
          · exact fun _ => .pure _
          · exact fun _ inside => inside.anywhere
      | conditional condition thenBranch elseBranch =>
          apply Adds.children (· = 0) (1 ≤ ·)
            ((expr_adds _ _ condition).child rfl)
          · intro _
            apply Adds.children (· = 1) (· = 2)
              ((induction _ thenBranch).child rfl)
            · intro _
              have elseAdds : Adds (·.IsInside address (· = 2))
                  (optional (stmt room (address.child 2)) elseBranch) :=
                optional_adds (fun branch => (induction _ branch).child (by rfl)) elseBranch
              exact elseAdds.before fun _ => .pure _
            · intro index isThen isElse
              omega
            · intro index either
              omega
          · intro index isCondition later
            omega
          · intro _ _
            trivial
      | loop condition body =>
          apply Adds.twoChildren (expr_adds _ _ condition) _ Nat.zero_ne_one
          exact fun _ => (induction _ body).before fun _ => .pure _
      | function decl =>
          apply (declare_adds decl.name).after
          intro _
          apply (define_adds _).after
          intro _
          apply ((functionRest_adds induction _ address decl).mono _).before
          · exact fun _ => .pure _
          · exact fun _ inside => inside.anywhere
      | «return» keyword value =>
          apply Adds.after get_adds
          intro state
          have rest := returnRest_adds room address keyword value
          apply Adds.ite
          · exact (complain_adds _ _).after fun _ => rest
          · exact rest
      | «class» name parent methods =>
          apply inClass_adds
          apply (declare_adds name).after
          intro _
          apply (define_adds _).after
          intro _
          cases parent with
          | none =>
              apply ((methodsRest_adds induction address methods).mono _).before
              · exact fun _ => .pure _
              · exact fun _ inside => inside.anywhere
          | some parent =>
              apply Adds.children (· = 0) (1 ≤ ·)
                ((superclass_adds _ name parent).child rfl)
              · intro _
                apply (inScope_adds (methodsRest_adds induction address methods)).before
                exact fun _ => .pure _
              · intro index isParent isMethod
                omega
              · intro _ _
                trivial
      | lost => exact .pure _

end Surveying

end LoxLang
