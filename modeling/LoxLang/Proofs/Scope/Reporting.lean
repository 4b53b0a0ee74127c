import LoxLang.Parser
import LoxLang.Proofs.Scope.Room
import LoxLang.Proofs.Scope.Violations
import LoxLang.Token.Stream

/-!
# What the pass through scopes reports

The pass keeps four things in mind: the scopes around, what is defined in them, and
the kinds of the function and of the class around.  At every place these are told by
the nodes around the place, so the pass complains about exactly the violations there
are, in their order.
-/

namespace LoxLang

variable {place : Place} {start middle last : ScopeState}

namespace Place

/-- The kinds that the pass has in mind are those of the nodes around the place. -/
structure Kinds (place : Place) (state : ScopeState) : Prop where
  outside : state.function = .none ↔ place.function? = none
  initializer : state.function = .initializer ↔ place.function? = some true
  classKind : state.classKind =
    match place.class? with
    | none => .none
    | some false => .plain
    | some true => .derived

/-- The scope that the pass has in mind holds what was declared before the place, and nothing in it
is undefined but the variable in whose initializer the place is. -/
structure Names (place : Place) (state : ScopeState) : Prop where
  isLocal : place.isLocal = !state.scopes.isEmpty
  earlier : ∀ scope ∈ state.scopes.head?, ∀ name, scope.binds name = true ↔ name ∈ place.earlier
  pending : ∀ scope ∈ state.scopes.head?, ∀ name,
    scope.get? name = some false ↔ initializes name place.enclosures = true

theorem Kinds.withScopes (kinds : place.Kinds start) (scopes : List Scope) :
    place.Kinds { start with scopes := scopes } :=
  ⟨kinds.outside, kinds.initializer, kinds.classKind⟩

/-- The place is in no initializer. -/
def Settled (place : Place) : Prop := ∀ name, initializes name place.enclosures = false

theorem Settled.after (settled : place.Settled) (names : List String) :
    (place.after names).Settled := settled

theorem Settled.enter (settled : place.Settled) {node : Enclosure}
    (opens : node.opensScope = true) :
    (place.enter node).Settled := by
  intro name
  cases node with
  | block | function => exact settled name
  | «class» | initializer => cases opens

theorem Settled.insideClass (settled : place.Settled) (names : List String) (isDerived : Bool) :
    ((place.after names).inside (.class isDerived)).Settled := settled

theorem after_nil (place : Place) : place.after [] = place := by
  simp [Place.after]

theorem after_after (place : Place) (names others : List String) :
    (place.after names).after others = place.after (names ++ others) := by
  simp [Place.after]

/-- Outside of all scopes nothing is the initializer of a variable in a scope. -/
theorem not_initializes {enclosures : List Enclosure}
    (outside : enclosures.any Enclosure.opensScope = false) (name : String) :
    initializes name enclosures = false := by
  induction enclosures with
  | nil => rfl
  | cons node outer induction =>
      rw [List.any_cons, Bool.or_eq_false_iff] at outside
      cases node with
      | initializer declared => simp [initializes, outside.2, induction outside.2]
      | block | function | «class» => exact induction outside.2

end Place

/-- The pass has come through a part in which nothing is declared, with these complaints. -/
structure ScopeState.Told (start : ScopeState) (told : List ScopeComplaint) (last : ScopeState) :
    Prop where
  scopes : last.scopes = start.scopes
  function : last.function = start.function
  classKind : last.classKind = start.classKind
  complaints : last.complaints = told.reverse ++ start.complaints

namespace ScopeState.Told

variable {told further : List ScopeComplaint}

theorem refl (state : ScopeState) : state.Told [] state := ⟨rfl, rfl, rfl, rfl⟩

theorem trans (first : start.Told told middle) (second : middle.Told further last) :
    start.Told (told ++ further) last where
  scopes := second.scopes.trans first.scopes
  function := second.function.trans first.function
  classKind := second.classKind.trans first.classKind
  complaints := by
    rw [second.complaints, first.complaints, List.reverse_append, List.append_assoc]

theorem kinds (told : start.Told further last) (kinds : place.Kinds start) : place.Kinds last := by
  obtain ⟨outside, initializer, classKind⟩ := kinds
  exact ⟨told.function ▸ outside, told.function ▸ initializer, told.classKind ▸ classKind⟩

theorem names (told : start.Told further last) (names : place.Names start) : place.Names last := by
  obtain ⟨isLocal, earlier, pending⟩ := names
  exact ⟨told.scopes ▸ isLocal, told.scopes ▸ earlier, told.scopes ▸ pending⟩

end ScopeState.Told

namespace Scoping

variable {α β γ : Type} {part : Scoping α} {next : α → Scoping β}
  {told further : List ScopeComplaint} {names others : List String}

theorem complain_told {about : Token} {error : ScopeError} {result : Unit}
    (ends : complain about error start = .ok result last) : start.Told [⟨about, error⟩] last := by
  cases ends
  exact ⟨rfl, rfl, rfl, rfl⟩

/-- The part of the pass declares nothing and complains like this. -/
def Reports (place : Place) (part : Scoping α) (told : List ScopeComplaint) : Prop :=
  ∀ start result last, place.Kinds start → place.Names start → part start = .ok result last →
    start.Told told last

namespace Reports

theorem pure (result : α) : Reports place (Pure.pure result) [] := by
  intro start other last _ _ ends
  cases ends
  exact .refl _

theorem bind (first : Reports place part told)
    (second : ∀ value, Reports place (next value) further) :
    Reports place (part >>= next) (told ++ further) := by
  intro start result last kinds names ends
  obtain ⟨value, middle, partDone, rest⟩ := bind_eq_ok.1 ends
  have partTold := first _ _ _ kinds names partDone
  exact partTold.trans (second value _ _ _ (partTold.kinds kinds) (partTold.names names) rest)

theorem wrap (inside : Reports place part told) (build : α → β) :
    Reports place (part >>= fun value => Pure.pure (build value)) told := by
  have bound := inside.bind fun value => pure (build value)
  rwa [List.append_nil] at bound

theorem join {second : Scoping β} (first : Reports place part told)
    (other : Reports place second further) (build : α → β → γ) :
    Reports place (part >>= fun value => second >>= fun last => Pure.pure (build value last))
      (told ++ further) :=
  first.bind fun value => other.wrap (build value)

theorem complain (about : Token) (error : ScopeError) :
    Reports place (Scoping.complain about error) [⟨about, error⟩] :=
  fun _ _ _ _ _ ends => complain_told ends

theorem locate (kind : ReferenceKind) (name : Token) :
    Reports place (Scoping.locate kind name) [] := by
  intro start site last _ _ ends
  unfold Scoping.locate at ends
  split at ends <;> cases ends <;> exact ⟨rfl, rfl, rfl, rfl⟩

end Reports

/-- A name is pending if the place is in the initializer of its variable. -/
theorem isPending_eq (names : place.Names start) {name : String} {pending : Bool}
    (ends : isPending name start = .ok pending middle) :
    middle = start ∧ pending = Place.initializes name place.enclosures := by
  have isLocal := names.isLocal
  have undefined := names.pending
  unfold isPending at ends
  split at ends
  · rename_i nowhere
    cases ends
    rw [nowhere] at isLocal
    exact ⟨rfl, (Place.not_initializes isLocal name).symm⟩
  · rename_i scope outer here
    cases ends
    have same := undefined scope (by rw [here]; rfl) name
    refine ⟨rfl, ?_⟩
    rw [Bool.eq_iff_iff, beq_iff_eq]
    exact same

theorem reference_reports (name : Token) :
    Reports place (reference name) (Occurrence.violations ⟨place, .read name⟩) := by
  intro start site last kinds names ends
  obtain ⟨pending, middle, pendingDone, rest⟩ := bind_eq_ok.1 ends
  obtain ⟨rfl, isPending⟩ := isPending_eq names pendingDone
  simp only [Occurrence.violations, ← isPending]
  cases pending with
  | false => exact Reports.locate _ _ _ _ _ kinds names rest
  | true =>
      exact ((Reports.complain name .ownInitializer).bind fun _ => .locate .variable name)
        _ _ _ kinds names rest

/-- The complaints about an expression. -/
abbrev violationsIn (place : Place) (e : Expr Unit) : List ScopeComplaint :=
  Occurrence.violationsOfAll (e.occurrences place)

theorem violations_of_uses (place : Place) (uses others : List Use) :
    Occurrence.violationsOfAll ((uses ++ others).map (Occurrence.mk place)) =
      Occurrence.violationsOfAll (uses.map (Occurrence.mk place)) ++
        Occurrence.violationsOfAll (others.map (Occurrence.mk place)) := by
  simp [Occurrence.violationsOfAll]

theorem violations_of_use (place : Place) (use : Use) :
    Occurrence.violationsOfAll ([use].map (Occurrence.mk place)) =
      Occurrence.violations ⟨place, use⟩ := by
  simp [Occurrence.violationsOfAll]

theorem this_reports (keyword : Token) :
    Reports place
      (do
        if (← get).classKind = .none then
          complain keyword .thisOutsideClass
          return Expr.this keyword none
        else
          return Expr.this keyword (← locate .this keyword))
      (Occurrence.violations ⟨place, .this keyword⟩) := by
  intro start result last kinds names ends
  obtain ⟨_, _, getDone, rest⟩ := bind_eq_ok.1 ends
  cases getDone
  have classKind := kinds.classKind
  simp only [Occurrence.violations]
  cases outside : place.class? with
  | none =>
      rw [outside] at classKind
      rw [if_pos classKind] at rest
      exact ((Reports.complain keyword .thisOutsideClass).bind fun _ => .pure _)
        _ _ _ kinds names rest
  | some isDerived =>
      have inClass : start.classKind ≠ .none := by
        rw [classKind, outside]
        cases isDerived <;> decide
      rw [if_neg inClass] at rest
      exact ((Reports.locate .this keyword).wrap _) _ _ _ kinds names rest

theorem super_reports (keyword method : Token) :
    Reports place
      (do
        match (← get).classKind with
        | .none => complain keyword .superOutsideClass
        | .plain => complain keyword .superWithoutSuperclass
        | .derived => pure ()
        return Expr.super keyword method (← locate .super keyword))
      (Occurrence.violations ⟨place, .super keyword⟩) := by
  intro start result last kinds names ends
  obtain ⟨_, _, getDone, rest⟩ := bind_eq_ok.1 ends
  cases getDone
  have classKind := kinds.classKind
  have located : Reports place
      (locate .super keyword >>= fun site => pure (Expr.super keyword method site)) [] :=
    (Reports.locate .super keyword).wrap _
  simp only [Occurrence.violations]
  cases outside : place.class? with
  | none =>
      rw [classKind, outside] at rest
      exact ((Reports.complain keyword .superOutsideClass).bind fun _ => located)
        _ _ _ kinds names rest
  | some isDerived =>
      rw [classKind, outside] at rest
      cases isDerived with
      | false =>
          exact ((Reports.complain keyword .superWithoutSuperclass).bind fun _ => located)
            _ _ _ kinds names rest
      | true => exact ((Reports.pure ()).bind fun _ => located) _ _ _ kinds names rest

theorem each_reports {visit : Expr Unit → Scoping (Expr Site)} (args : List (Expr Unit))
    (reports : ∀ arg ∈ args, Reports place (visit arg) (violationsIn place arg)) :
    Reports place (each visit args)
      (Occurrence.violationsOfAll ((Expr.usesOfEach args).map (Occurrence.mk place))) := by
  induction args with
  | nil => exact .pure []
  | cons first rest induction =>
      rw [Expr.usesOfEach, violations_of_uses]
      exact (reports first List.mem_cons_self).join
        (induction fun arg member => reports arg (List.mem_cons_of_mem _ member)) List.cons

/-- The pass complains about the violations in an expression. -/
theorem expr_reports (room : Nat) (e : Expr Unit) :
    Reports place (expr room e) (violationsIn place e) := by
  induction room generalizing e with
  | zero =>
      intro start result last _ _ ends
      cases ends
  | succ room induction =>
      cases e with
      | literal value => exact .pure _
      | grouping inner => exact (induction inner).wrap _
      | unary op operand => exact (induction operand).wrap _
      | binary left op right =>
          rw [violationsIn, Expr.occurrences, Expr.uses, violations_of_uses]
          exact (induction left).join (induction right) _
      | logical left op right =>
          rw [violationsIn, Expr.occurrences, Expr.uses, violations_of_uses]
          exact (induction left).join (induction right) _
      | «variable» name site =>
          rw [violationsIn, Expr.occurrences, Expr.uses, violations_of_use]
          exact (reference_reports name).wrap _
      | assign name site value =>
          have stored := (induction value).join (.locate .assign name) fun value site =>
            Expr.assign name site value
          rwa [List.append_nil] at stored
      | call callee paren args =>
          rw [violationsIn, Expr.occurrences, Expr.uses, violations_of_uses]
          exact (induction callee).join (each_reports args fun arg _ => induction arg) _
      | get object name => exact (induction object).wrap _
      | set object name value =>
          rw [violationsIn, Expr.occurrences, Expr.uses, violations_of_uses]
          exact (induction value).join (induction object) _
      | this keyword site =>
          rw [violationsIn, Expr.occurrences, Expr.uses, violations_of_use]
          exact this_reports keyword
      | super keyword method site =>
          rw [violationsIn, Expr.occurrences, Expr.uses, violations_of_use]
          exact super_reports keyword method

/-! Statements declare names, and the pass goes on at the place after these. -/

/-- The pass has come through a part that declares names in the innermost scope. -/
structure Passed (place : Place) (start : ScopeState) (told : List ScopeComplaint)
    (names : List String) (last : ScopeState) : Prop where
  outer : last.scopes.tail = start.scopes.tail
  function : last.function = start.function
  classKind : last.classKind = start.classKind
  complaints : last.complaints = told.reverse ++ start.complaints
  names : (place.after names).Names last

/-- The part of the pass declares these names and complains like this. -/
def Passes (place : Place) (part : Scoping α) (told : List ScopeComplaint) (names : List String) :
    Prop :=
  ∀ start result last, place.Kinds start → place.Names start → part start = .ok result last →
    Passed place start told names last

namespace Passes

theorem ofReports (reports : Reports place part told) : Passes place part told [] := by
  intro start result last kinds names ends
  have partTold := reports _ _ _ kinds names ends
  refine ⟨congrArg _ partTold.scopes, partTold.function, partTold.classKind, partTold.complaints,
    ?_⟩
  rw [Place.after_nil]
  exact partTold.names names

theorem pure (result : α) : Passes place (Pure.pure result) [] [] := ofReports (.pure result)

theorem bind (first : Passes place part told names)
    (second : ∀ value, Passes (place.after names) (next value) further others) :
    Passes place (part >>= next) (told ++ further) (names ++ others) := by
  intro start result last kinds here ends
  obtain ⟨value, middle, partDone, rest⟩ := bind_eq_ok.1 ends
  have passed := first _ _ _ kinds here partDone
  have middleKinds : (place.after names).Kinds middle := by
    obtain ⟨outside, initializer, classKind⟩ := kinds
    exact ⟨passed.function ▸ outside, passed.function ▸ initializer, passed.classKind ▸ classKind⟩
  have further := second value _ _ _ middleKinds passed.names rest
  constructor
  · exact further.outer.trans passed.outer
  · exact further.function.trans passed.function
  · exact further.classKind.trans passed.classKind
  · rw [further.complaints, passed.complaints, List.reverse_append, List.append_assoc]
  · have names := further.names
    rwa [Place.after_after] at names

theorem wrap (inside : Passes place part told names) (build : α → β) :
    Passes place (part >>= fun value => Pure.pure (build value)) told names := by
  have bound := inside.bind fun value => pure (build value)
  rwa [List.append_nil, List.append_nil] at bound

theorem afterReports (first : Reports place part told)
    (second : ∀ value, Passes place (next value) further names) :
    Passes place (part >>= next) (told ++ further) names := by
  apply (ofReports first).bind
  rwa [Place.after_nil]

end Passes

/-- The part of the pass declares nothing and complains like this, whatever scopes are around. -/
def ReportsAnywhere (place : Place) (part : Scoping α) (told : List ScopeComplaint) : Prop :=
  ∀ start result last, place.Kinds start → part start = .ok result last → start.Told told last

theorem ReportsAnywhere.reports (anywhere : ReportsAnywhere place part told) :
    Reports place part told :=
  fun _ _ _ kinds _ ends => anywhere _ _ _ kinds ends

section Enclosed

variable {result : α} {kind : FunctionKind} {classKind : ClassKind} {scope : Scope}

theorem inScope_eq_ok (ends : inScope scope part start = .ok result last) :
    ∃ inner, part { start with scopes := scope :: start.scopes } = .ok result inner ∧
      last = { inner with scopes := inner.scopes.tail } := by
  obtain ⟨_, entered, enterDone, rest⟩ := bind_eq_ok.1 ends
  obtain ⟨_, inner, partDone, rest⟩ := bind_eq_ok.1 rest
  obtain ⟨_, left, leaveDone, rest⟩ := bind_eq_ok.1 rest
  cases enterDone
  cases leaveDone
  cases rest
  exact ⟨inner, partDone, rfl⟩

theorem inFunction_eq_ok (ends : inFunction kind part start = .ok result last) :
    ∃ inner, part { start with function := kind } = .ok result inner ∧
      last = { inner with function := start.function } := by
  obtain ⟨_, _, getDone, rest⟩ := bind_eq_ok.1 ends
  cases getDone
  obtain ⟨_, entered, enterDone, rest⟩ := bind_eq_ok.1 rest
  obtain ⟨_, inner, partDone, rest⟩ := bind_eq_ok.1 rest
  obtain ⟨_, left, leaveDone, rest⟩ := bind_eq_ok.1 rest
  cases enterDone
  cases leaveDone
  cases rest
  exact ⟨inner, partDone, rfl⟩

theorem inClass_eq_ok (ends : inClass classKind part start = .ok result last) :
    ∃ inner, part { start with classKind := classKind } = .ok result inner ∧
      last = { inner with classKind := start.classKind } := by
  obtain ⟨_, _, getDone, rest⟩ := bind_eq_ok.1 ends
  cases getDone
  obtain ⟨_, entered, enterDone, rest⟩ := bind_eq_ok.1 rest
  obtain ⟨_, inner, partDone, rest⟩ := bind_eq_ok.1 rest
  obtain ⟨_, left, leaveDone, rest⟩ := bind_eq_ok.1 rest
  cases enterDone
  cases leaveDone
  cases rest
  exact ⟨inner, partDone, rfl⟩

theorem inScope_reports {inner : Place} (isLocal : inner.isLocal = true) (none : inner.earlier = [])
    (settled : inner.Settled) (inside : Passes inner part told names) :
    ReportsAnywhere inner (inScope Table.empty part) told := by
  intro start result last kinds ends
  obtain ⟨middle, partDone, rfl⟩ := inScope_eq_ok ends
  have here : inner.Names { start with scopes := Table.empty :: start.scopes } := by
    refine ⟨isLocal, ?_, ?_⟩
    · intro scope isFirst name
      cases isFirst
      simp [none, Table.binds]
    · intro scope isFirst name
      cases isFirst
      simp [settled name]
  have passed := inside _ _ _ (kinds.withScopes _) here partDone
  exact ⟨passed.outer, passed.function, passed.classKind, passed.complaints⟩

theorem inSpecial_reports (inside : ReportsAnywhere place part told) :
    ReportsAnywhere place (inScope scope part) told := by
  intro start result last kinds ends
  obtain ⟨middle, partDone, rfl⟩ := inScope_eq_ok ends
  have partTold := inside _ _ _ (kinds.withScopes _) partDone
  exact ⟨congrArg List.tail partTold.scopes, partTold.function, partTold.classKind,
    partTold.complaints⟩

theorem inFunction_reports {isInitializer : Bool} (isFunction : kind ≠ .none)
    (sameKind : kind = .initializer ↔ isInitializer = true)
    (inside : ReportsAnywhere (place.enter (.function isInitializer)) part told) :
    ReportsAnywhere place (inFunction kind part) told := by
  intro start result last kinds ends
  obtain ⟨middle, partDone, rfl⟩ := inFunction_eq_ok ends
  have innermost : (place.enter (.function isInitializer)).function? = some isInitializer := rfl
  have innerKinds : (place.enter (.function isInitializer)).Kinds
      { start with function := kind } := by
    refine ⟨?_, ?_, kinds.classKind⟩
    · simp [innermost, isFunction]
    · simp [innermost, sameKind]
  have partTold := inside _ _ _ innerKinds partDone
  exact ⟨partTold.scopes, rfl, partTold.classKind, partTold.complaints⟩

end Enclosed

section Declarations

variable {name : Token}

/-- A name has been declared: it is in the innermost scope, if there is one, but not usable. -/
structure Declared (place : Place) (name : Token) (start last : ScopeState) : Prop where
  scopes : start.scopes = [] ∧ last.scopes = [] ∨ ∃ scope outer,
    start.scopes = scope :: outer ∧ last.scopes = scope.insert name.lexeme false :: outer
  function : last.function = start.function
  classKind : last.classKind = start.classKind
  complaints : last.complaints =
    (Occurrence.violations ⟨place, .declaration name⟩).reverse ++ start.complaints

theorem declare_eq_ok (here : place.Names start) (ends : declare name start = .ok () last) :
    Declared place name start last := by
  have isLocal := here.isLocal
  unfold declare at ends
  split at ends
  · rename_i nowhere
    cases ends
    rw [nowhere] at isLocal
    refine ⟨.inl ⟨nowhere, nowhere⟩, rfl, rfl, ?_⟩
    simp [Occurrence.violations, isLocal]
  · rename_i scope outer inside
    cases ends
    rw [inside] at isLocal
    refine ⟨.inr ⟨scope, outer, inside, rfl⟩, rfl, rfl, ?_⟩
    have earlier := here.earlier scope (by rw [inside]; rfl) name.lexeme
    simp only [Occurrence.violations, isLocal, ← earlier]
    split <;> simp_all

namespace Declared

variable (declared : Declared place name start middle) (here : place.Names start)

include declared here

/-- The initializer of the variable is at a place where the variable is not usable. -/
theorem inInitializer (settled : place.Settled) :
    ((place.after [name.lexeme]).inside (.initializer name.lexeme)).Names middle := by
  have isLocal := here.isLocal
  rcases declared.scopes with ⟨nowhere, still⟩ | ⟨scope, outer, inside, inserted⟩
  · rw [nowhere] at isLocal
    constructor
    · rw [still]
      exact isLocal
    · simp [still]
    · simp [still]
  · rw [inside] at isLocal
    constructor
    · rw [inserted]
      exact isLocal
    · intro first isFirst other
      rw [inserted] at isFirst
      cases isFirst
      rw [Table.binds_insert, Bool.or_eq_true, here.earlier scope (by rw [inside]; rfl)]
      simp [Place.after, Place.inside, or_comm, eq_comm]
    · intro first isFirst other
      rw [inserted] at isFirst
      cases isFirst
      have opened : place.enclosures.any Enclosure.opensScope = true := isLocal
      have pending := here.pending scope (by rw [inside]; rfl) other
      rw [settled other] at pending
      simp only [Table.get?_insert, Place.inside, Place.after, Place.initializes, opened,
        Bool.and_true, settled other, Bool.or_false, beq_iff_eq]
      split
      · simp [*]
      · simp [*]

/-- Once the name is usable the pass is at the place after the declaration. -/
theorem defined (settled : place.Settled) {between : ScopeState} {told : List ScopeComplaint}
    (partTold : middle.Told told between) (ends : define name.lexeme between = .ok () last) :
    Passed place start (Occurrence.violations ⟨place, .declaration name⟩ ++ told) [name.lexeme]
      last := by
  have isLocal := here.isLocal
  have complaints : between.complaints =
      (Occurrence.violations ⟨place, .declaration name⟩ ++ told).reverse ++ start.complaints := by
    rw [partTold.complaints, declared.complaints, List.reverse_append, List.append_assoc]
  have function := partTold.function.trans declared.function
  have classKind := partTold.classKind.trans declared.classKind
  unfold define at ends
  rw [partTold.scopes] at ends
  rcases declared.scopes with ⟨nowhere, still⟩ | ⟨scope, outer, inside, inserted⟩
  · have empty : between.scopes = [] := partTold.scopes.trans still
    rw [still] at ends
    cases ends
    refine ⟨by rw [empty, nowhere], function, classKind, complaints, ?_, ?_, ?_⟩
    · rw [empty, ← nowhere]
      exact isLocal
    · simp [empty]
    · simp [empty]
  · rw [inserted] at ends
    cases ends
    rw [inside] at isLocal
    refine ⟨by rw [inside]; rfl, function, classKind, complaints, isLocal, ?_, ?_⟩
    · intro first isFirst other
      cases isFirst
      rw [Table.binds_insert, Table.binds_insert, Bool.or_eq_true, Bool.or_eq_true,
        here.earlier scope (by rw [inside]; rfl)]
      simp [Place.after, or_comm, eq_comm]
    · intro first isFirst other
      cases isFirst
      have pending := here.pending scope (by rw [inside]; rfl) other
      have unsettled := settled other
      rw [unsettled] at pending
      simp only [Table.get?_insert, Place.after, unsettled]
      split
      · simp
      · simpa using pending

end Declared

theorem param_passes (settled : place.Settled) :
    Passes place (declare name >>= fun _ => define name.lexeme)
      (Occurrence.violations ⟨place, .declaration name⟩) [name.lexeme] := by
  intro start result last kinds here ends
  obtain ⟨_, middle, declareDone, defineDone⟩ := bind_eq_ok.1 ends
  have defined := (declare_eq_ok here declareDone).defined here settled (.refl middle) defineDone
  rwa [List.append_nil] at defined

theorem Passes.bring (settled : place.Settled) {rest : Scoping β}
    (passes : Passes (place.after [name.lexeme]) rest told names) :
    Passes place (declare name >>= fun _ => define name.lexeme >>= fun _ => rest)
      (Occurrence.violations ⟨place, .declaration name⟩ ++ told) (name.lexeme :: names) := by
  have bound := (param_passes settled).bind fun _ => passes
  rwa [bind_assoc] at bound

/-- A variable, which is not usable in its own initializer. -/
theorem var_passes (settled : place.Settled) {value : Scoping α} (build : α → β)
    (reports : Reports ((place.after [name.lexeme]).inside (.initializer name.lexeme)) value told) :
    Passes place
      (declare name >>= fun _ => value >>= fun value => define name.lexeme >>= fun _ =>
        pure (build value))
      (Occurrence.violations ⟨place, .declaration name⟩ ++ told) [name.lexeme] := by
  intro start result last kinds here ends
  obtain ⟨_, middle, declareDone, rest⟩ := bind_eq_ok.1 ends
  obtain ⟨found, between, valueDone, rest⟩ := bind_eq_ok.1 rest
  obtain ⟨_, defined, defineDone, rest⟩ := bind_eq_ok.1 rest
  cases rest
  have declared := declare_eq_ok here declareDone
  have middleKinds :
      ((place.after [name.lexeme]).inside (.initializer name.lexeme)).Kinds middle := by
    obtain ⟨outside, initializer, classKind⟩ := kinds
    exact ⟨declared.function ▸ outside, declared.function ▸ initializer,
      declared.classKind ▸ classKind⟩
  have partTold := reports _ _ _ middleKinds (declared.inInitializer here settled) valueDone
  exact declared.defined here settled partTold defineDone

end Declarations

section Statements

variable {room : Nat} {visit : Stmt Unit → Scoping (Stmt Site)}

theorem params_pass (settled : place.Settled) (params : List Token) :
    Passes place (each param params) (Occurrence.violationsOfAll (place.declarations params))
      (params.map Token.lexeme) := by
  induction params generalizing place with
  | nil => exact .pure []
  | cons first rest induction =>
      refine (param_passes settled).bind fun head => ?_
      exact (induction (settled.after [first.lexeme])).wrap (List.cons head)

/-- What is assumed of the statements inside: the pass complains about their violations. -/
def Visits (visit : Stmt Unit → Scoping (Stmt Site)) : Prop :=
  ∀ (place : Place) (s : Stmt Unit), place.Settled →
    Passes place (visit s) (Occurrence.violationsOfAll (s.occurrences place)) s.brought

theorem violationsOfAll_append (occurrences others : List Occurrence) :
    Occurrence.violationsOfAll (occurrences ++ others) =
      Occurrence.violationsOfAll occurrences ++ Occurrence.violationsOfAll others :=
  List.flatMap_append

theorem body_passes (visits : Visits visit) (settled : place.Settled) (body : List (Stmt Unit)) :
    Passes place (each visit body) (Occurrence.violationsOfAll (Stmt.occurrencesOfAll place body))
      (body.flatMap Stmt.brought) := by
  induction body generalizing place with
  | nil => exact .pure []
  | cons first rest induction =>
      rw [Stmt.occurrencesOfAll, violationsOfAll_append, List.flatMap_cons]
      refine (visits place first settled).bind fun head => ?_
      exact (induction (settled.after first.brought)).wrap (List.cons head)

theorem functionRest_reports (visits : Visits visit) (settled : place.Settled) {kind : FunctionKind}
    {isInitializer : Bool} (isFunction : kind ≠ .none)
    (sameKind : kind = .initializer ↔ isInitializer = true) (decl : FunctionDecl Unit) :
    ReportsAnywhere place (functionRest visit kind decl)
      (Occurrence.violationsOfAll (decl.occurrences place isInitializer)) := by
  obtain ⟨name, params, body⟩ := decl
  have inside : (place.enter (.function isInitializer)).Settled := settled.enter rfl
  have visited := (body_passes visits (inside.after (params.map Token.lexeme)) body).wrap
    (FunctionDecl.mk name params)
  have parts := (params_pass inside params).bind fun _ => visited
  rw [← violationsOfAll_append] at parts
  exact inFunction_reports isFunction sameKind (inScope_reports rfl rfl inside parts)

theorem methods_report (visits : Visits visit) (settled : place.Settled)
    (methods : List (FunctionDecl Unit)) :
    ReportsAnywhere place
      (each (fun method => functionRest visit (methodKind method) method) methods)
      (Occurrence.violationsOfAll (FunctionDecl.occurrencesOfMethods place methods)) := by
  induction methods with
  | nil =>
      intro start result last _ ends
      cases ends
      exact .refl _
  | cons first rest induction =>
      intro start result last kinds ends
      obtain ⟨head, middle, firstDone, remaining⟩ := bind_eq_ok.1 ends
      obtain ⟨tail, _, restDone, remaining⟩ := bind_eq_ok.1 remaining
      cases remaining
      have isMethod : methodKind first ≠ .none := by
        unfold methodKind
        split <;> decide
      have sameKind : methodKind first = .initializer ↔
          decide (first.name.lexeme = "init") = true := by
        unfold methodKind
        split <;> simp [*]
      have firstTold :=
        functionRest_reports visits settled isMethod sameKind first _ _ _ kinds firstDone
      rw [FunctionDecl.occurrencesOfMethods, violationsOfAll_append]
      exact firstTold.trans (induction _ _ _ (firstTold.kinds kinds) restDone)

theorem methodsRest_reports (visits : Visits visit) (settled : place.Settled)
    (methods : List (FunctionDecl Unit)) :
    ReportsAnywhere place (methodsRest visit methods)
      (Occurrence.violationsOfAll (FunctionDecl.occurrencesOfMethods place methods)) :=
  inSpecial_reports (methods_report visits settled methods)

theorem kinds_insideClass (kinds : place.Kinds start) (isDerived : Bool) :
    (place.inside (.class isDerived)).Kinds
      { start with classKind := if isDerived then .derived else .plain } := by
  have innermost : (place.inside (.class isDerived)).class? = some isDerived := rfl
  refine ⟨kinds.outside, kinds.initializer, ?_⟩
  rw [innermost]
  cases isDerived <;> rfl

/-- The pass has come through a part of a class; in what kind of class it is may be another matter
now. -/
structure Left (start : ScopeState) (told : List ScopeComplaint) (last : ScopeState) : Prop where
  scopes : last.scopes = start.scopes
  function : last.function = start.function
  complaints : last.complaints = told.reverse ++ start.complaints

theorem Left.ofTold (partTold : start.Told told last) : Left start told last :=
  ⟨partTold.scopes, partTold.function, partTold.complaints⟩

theorem Left.trans (first : Left start told middle) (second : Left middle further last) :
    Left start (told ++ further) last where
  scopes := second.scopes.trans first.scopes
  function := second.function.trans first.function
  complaints := by
    rw [second.complaints, first.complaints, List.reverse_append, List.append_assoc]

/-- A class is declared in the scope in which it stands, and what follows is inside of it. -/
theorem class_passes (settled : place.Settled) {name : Token} {rest : Scoping β}
    (leaves : ∀ middle result last,
      ((place.after [name.lexeme]).inside (.class false)).Kinds middle →
      ((place.after [name.lexeme]).inside (.class false)).Names middle →
      rest middle = .ok result last → Left middle told last) :
    Passes place
      (inClass .plain (declare name >>= fun _ => define name.lexeme >>= fun _ => rest))
      (Occurrence.violations ⟨place, .declaration name⟩ ++ told) [name.lexeme] := by
  intro start result last kinds here ends
  obtain ⟨inner, insideDone, rfl⟩ := inClass_eq_ok ends
  obtain ⟨_, declared, declareDone, remaining⟩ := bind_eq_ok.1 insideDone
  obtain ⟨_, middle, defineDone, restDone⟩ := bind_eq_ok.1 remaining
  have entered : place.Names { start with classKind := .plain } :=
    ⟨here.isLocal, here.earlier, here.pending⟩
  have passed := (declare_eq_ok entered declareDone).defined entered settled (.refl _) defineDone
  rw [List.append_nil] at passed
  have middleKinds : ((place.after [name.lexeme]).inside (.class false)).Kinds middle := by
    obtain ⟨outside, initializer, classKind⟩ := kinds_insideClass kinds false
    exact ⟨passed.function ▸ outside, passed.function ▸ initializer, passed.classKind ▸ classKind⟩
  have names := passed.names
  have left := leaves _ _ _ middleKinds ⟨names.isLocal, names.earlier, names.pending⟩ restDone
  constructor
  · exact (congrArg List.tail left.scopes).trans passed.outer
  · exact left.function.trans passed.function
  · rfl
  · dsimp only
    rw [left.complaints, passed.complaints, List.reverse_append, List.append_assoc]
  · exact ⟨left.scopes ▸ names.isLocal, left.scopes ▸ names.earlier, left.scopes ▸ names.pending⟩

/-- A superclass is read like a variable, after which the class has one. -/
theorem superclass_left {name : Token} {parent : Superclass Unit} {found : Superclass Site}
    (kinds : (place.inside (.class false)).Kinds start)
    (here : (place.inside (.class false)).Names start)
    (ends : superclass name parent start = .ok found last) :
    Left start
        (Occurrence.violations ⟨place.inside (.class true), .inheritance name parent.name⟩ ++
          Occurrence.violations ⟨place.inside (.class true), .read parent.name⟩) last ∧
      (place.inside (.class true)).Kinds last := by
  have derived {middle : ScopeState} {told : List ScopeComplaint} (before : start.Told told middle)
      (rest : (modify (fun state => { state with classKind := .derived }) >>= fun _ =>
        reference parent.name >>= fun site => pure (Superclass.mk parent.name site) :
          Scoping (Superclass Site)) middle = .ok found last) :
      Left start (told ++ Occurrence.violations ⟨place.inside (.class true), .read parent.name⟩)
          last ∧
        (place.inside (.class true)).Kinds last := by
    obtain ⟨_, entered, enterDone, remaining⟩ := bind_eq_ok.1 rest
    cases enterDone
    have names := before.names here
    have enteredNames : (place.inside (.class true)).Names { middle with classKind := .derived } :=
      ⟨names.isLocal, names.earlier, names.pending⟩
    have enteredKinds :
        (place.inside (.class true)).Kinds { middle with classKind := .derived } := by
      obtain ⟨outside, initializer, _⟩ := before.kinds kinds
      exact ⟨outside, initializer, rfl⟩
    have read := ((reference_reports parent.name).wrap (Superclass.mk parent.name))
      _ _ _ enteredKinds enteredNames remaining
    refine ⟨⟨?_, ?_, ?_⟩, read.kinds enteredKinds⟩
    · exact read.scopes.trans before.scopes
    · exact read.function.trans before.function
    · rw [read.complaints, before.complaints, List.reverse_append, List.append_assoc]
  unfold superclass at ends
  simp only [Occurrence.violations]
  split at ends
  · rename_i inherits
    obtain ⟨_, complained, complainDone, rest⟩ := bind_eq_ok.1 ends
    rw [if_pos inherits]
    exact derived (complain_told complainDone) rest
  · rename_i differs
    rw [if_neg differs]
    exact derived (.refl start) ends

theorem inKind_reports {about : Token} {error : ScopeError} (kind : FunctionKind) (isKind : Prop)
    [Decidable isKind] (sameKind : ∀ state, place.Kinds state → (state.function = kind ↔ isKind))
    {next : Scoping β} (reports : Reports place next told) :
    Reports place
      (do
        if (← get).function = kind then complain about error
        next)
      ((if isKind then [⟨about, error⟩] else []) ++ told) := by
  intro start result last kinds here ends
  obtain ⟨_, _, getDone, rest⟩ := bind_eq_ok.1 ends
  cases getDone
  have same := sameKind start kinds
  by_cases inside : isKind
  · simp only [same.2 inside, if_true] at rest
    rw [if_pos inside]
    exact ((Reports.complain about error).bind fun _ => reports) _ _ _ kinds here rest
  · rw [if_neg (mt same.1 inside)] at rest
    rw [if_neg inside]
    exact reports _ _ _ kinds here rest

/-- To return is complained about outside of all functions, and a value in an initializer. -/
theorem return_reports {keyword : Token} (value : Option (Expr Unit))
    (reports : ∀ found ∈ value, Reports place (expr room found) (violationsIn place found)) :
    Reports place
      (do
        if (← get).function = .none then complain keyword .returnAtTopLevel
        match value with
        | none => return Stmt.return keyword none
        | some result =>
            if (← get).function = .initializer then complain keyword .valueFromInitializer
            return .return keyword (some (← expr room result)))
      (Occurrence.violations ⟨place, .return keyword value.isSome⟩ ++
        Occurrence.violationsOfAll (Expr.occurrencesOfOptional place value)) := by
  have outside (state : ScopeState) (kinds : place.Kinds state) := kinds.outside
  have initializer (state : ScopeState) (kinds : place.Kinds state) := kinds.initializer
  cases value with
  | none =>
      have same : Occurrence.violations ⟨place, .return keyword false⟩ =
          if place.function? = none then [⟨keyword, .returnAtTopLevel⟩] else [] := by
        cases innermost : place.function? <;> simp [Occurrence.violations, innermost]
      rw [Option.isSome_none, same]
      exact inKind_reports .none _ outside (.pure _)
  | some result =>
      have same : Occurrence.violations ⟨place, .return keyword true⟩ =
          (if place.function? = none then [⟨keyword, .returnAtTopLevel⟩] else []) ++
            if place.function? = some true then [⟨keyword, .valueFromInitializer⟩] else [] := by
        cases innermost : place.function? <;> simp [Occurrence.violations, innermost]
      rw [Option.isSome_some, same, List.append_assoc]
      exact inKind_reports .none _ outside
        (inKind_reports .initializer _ initializer ((reports result rfl).wrap _))

/-- The pass complains about the violations in a statement. -/
theorem stmt_visits (room : Nat) : Visits (stmt room) := by
  induction room with
  | zero =>
      intro place s _ start result last _ _ ends
      cases ends
  | succ room induction =>
      intro place s settled
      -- Only what a statement brings is new at the place after it: whatever stands inside comes
      -- as a report, which leaves the scopes as they were.
      cases s with
      | expression value => exact .ofReports ((expr_reports room value).wrap _)
      | print value => exact .ofReports ((expr_reports room value).wrap _)
      | var name initializer =>
          apply var_passes settled
          cases initializer with
          | none => exact .pure _
          | some value => exact (expr_reports room value).wrap _
      | block body =>
          have inside : (place.enter .block).Settled := settled.enter rfl
          have anywhere := inScope_reports rfl rfl inside (body_passes induction inside body)
          have reports : Reports place (inScope Table.empty (each (stmt room) body)) _ :=
            fun start result last kinds _ ends => anywhere start result last
              ⟨kinds.outside, kinds.initializer, kinds.classKind⟩ ends
          exact .ofReports (reports.wrap _)
      | conditional condition thenBranch elseBranch =>
          cases elseBranch with
          | none =>
              rw [Stmt.occurrences, violationsOfAll_append]
              refine .afterReports (expr_reports room condition) fun value => ?_
              exact (induction place thenBranch settled).wrap fun branch =>
                Stmt.conditional value branch none
          | some elseBranch =>
              rw [Stmt.occurrences, violationsOfAll_append, violationsOfAll_append]
              refine .afterReports (expr_reports room condition) fun value => ?_
              apply (induction place thenBranch settled).bind
              intro branch
              apply Passes.wrap
              exact (induction _ elseBranch (settled.after thenBranch.brought)).wrap some
      | loop condition body =>
          rw [Stmt.occurrences, violationsOfAll_append]
          exact .afterReports (expr_reports room condition) fun value =>
            (induction place body settled).wrap (Stmt.loop value)
      | function decl =>
          have sameKind : FunctionKind.function = .initializer ↔ false = true := by decide
          have reports := functionRest_reports induction (settled.after [decl.name.lexeme])
            (by decide) sameKind decl
          exact .bring settled (.ofReports (reports.reports.wrap Stmt.function))
      | «return» keyword value =>
          exact .ofReports (return_reports value fun found _ => expr_reports room found)
      | «class» name parent methods =>
          cases parent with
          | none =>
              apply class_passes settled
              intro middle result last kinds here ends
              have inside := settled.insideClass [name.lexeme] false
              have reports := (methodsRest_reports induction inside methods).reports
              exact .ofTold ((reports.wrap (Stmt.class name none)) _ _ _ kinds here ends)
          | some parent =>
              apply class_passes settled
              intro middle result last kinds here ends
              obtain ⟨found, derived, superclassDone, rest⟩ := bind_eq_ok.1 ends
              obtain ⟨left, derivedKinds⟩ := superclass_left kinds here superclassDone
              obtain ⟨inner, _, methodsDone, remaining⟩ := bind_eq_ok.1 rest
              cases remaining
              have inside := settled.insideClass [name.lexeme] true
              have methodsTold := inSpecial_reports (methodsRest_reports induction inside methods)
                _ _ _ derivedKinds methodsDone
              have total := left.trans (.ofTold methodsTold)
              rwa [List.append_assoc] at total
      | lost => exact .pure _

/-- The pass through a whole program, which begins at the top level. -/
theorem program_passed {room : Nat} {statements : List (Stmt Unit)} {results : List (Stmt Site)}
    (ends : each (stmt room) statements ScopeState.start = .ok results last) :
    Passed Place.top ScopeState.start
      (Occurrence.violationsOfAll (Stmt.occurrencesOfAll Place.top statements))
      (statements.flatMap Stmt.brought) last := by
  have kinds : Place.top.Kinds ScopeState.start := ⟨by simp [ScopeState.start, Place.top,
    Place.function?], by simp [ScopeState.start, Place.top, Place.function?], rfl⟩
  have names : Place.top.Names ScopeState.start :=
    ⟨rfl, by simp [ScopeState.start], by simp [ScopeState.start]⟩
  exact body_passes (stmt_visits room) (fun _ => rfl) statements _ _ _ kinds names ends

/-- It ends at the top level as well. -/
theorem program_atTop {room : Nat} {statements : List (Stmt Unit)} {results : List (Stmt Site)}
    (ends : each (stmt room) statements ScopeState.start = .ok results last) :
    last.scopes = [] ∧ last.function = .none ∧ last.classKind = .none := by
  have passed := program_passed ends
  have isLocal : false = !last.scopes.isEmpty := passed.names.isLocal
  exact ⟨by simpa using isLocal.symm, passed.function, passed.classKind⟩

end Statements

end Scoping

/-- A pass with enough room comes to its end, and one that comes to its end has reported exactly the
violations in the program, each once, in the order of the uses. -/
theorem resolver_reports_violations (statements : List (Stmt Unit)) :
    (∃ enough, ∀ room ≥ enough, (resolveWithin room statements).statements.isSome = true) ∧
      ∀ room, (resolveWithin room statements).statements.isSome = true →
        (resolveWithin room statements).issues =
          (Occurrence.violationsOfAll (Stmt.occurrencesOfAll Place.top statements)).map
            ScopeComplaint.toIssue := by
  refine ⟨⟨Stmt.nodesOfAll statements, fun room enough => resolveWithin_isSome enough⟩, ?_⟩
  intro room reached
  unfold resolveWithin at reached ⊢
  cases outcome : Scoping.each (Scoping.stmt room) statements ScopeState.start with
  | error stop state =>
      rw [outcome] at reached
      cases reached
  | ok results state =>
      have complaints := (Scoping.program_passed outcome).complaints
      simp only [ScopeState.start, List.append_nil] at complaints
      simp only [Resolution.issues, complaints, List.reverse_reverse]

/-- A function inside an initializer may return a value, a class that inherits from itself has a
superclass all the same, and a name that is declared twice is not usable in its second
initializer either. -/
theorem resolver_reports_violations_nested :
    let text :=
      "class A < A \x7b init() \x7b fun f() \x7b return super.g; \x7d return f; \x7d \x7d " ++
      "\x7b var a; var a = a; \x7d return this;"
    let statements := (parse (TokenStream.ofText text).tokens).statements.getD []
    (resolveWithin 20 statements).issues.map Issue.message =
      ["A class can't inherit from itself.", "Can't return a value from an initializer.",
        "Already a variable with this name in this scope.",
        "Can't read local variable in its own initializer.", "Can't return from top-level code.",
        "Can't use 'this' outside of a class."] := by
  intro text statements
  have reached : (resolveWithin 20 statements).statements.isSome = true := by decide +kernel
  rw [(resolver_reports_violations statements).2 20 reached]
  decide +kernel

end LoxLang
