import LoxLang.Proofs.Scope.Reporting

/-!
# What a visit leaves behind

Whatever the pass visits and whatever it finds wrong there, it comes back to the kinds of
function and class from before and to the same stack of scopes, of which at most the innermost
has gained names or made some usable.  An expression leaves even that one as it was.

A visit for which there is not enough room stops in the middle, with more scopes on the stack.
Below these the scopes from before are still there, and a name of the innermost one that was
usable is so unless it has just been declared again, which was complained about.
-/

namespace LoxLang

namespace Scope

/-- Names were added, or made usable; nothing else has changed. -/
def GrowsTo (scope grown : Scope) : Prop :=
  ∀ name, grown.get? name = scope.get? name ∨ grown.get? name = some true

theorem GrowsTo.refl (scope : Scope) : scope.GrowsTo scope := fun _ => .inl rfl

theorem GrowsTo.trans {scope grown last : Scope} (first : scope.GrowsTo grown)
    (second : grown.GrowsTo last) : scope.GrowsTo last := by
  intro name
  rcases second name with same | usable
  · rw [same]
    exact first name
  · exact .inr usable

/-- A name that is declared and then made usable. -/
theorem GrowsTo.bring (scope : Scope) (name : String) :
    scope.GrowsTo ((scope.insert name false).insert name true) := by
  intro other
  simp only [Table.get?_insert]
  split
  · exact .inr rfl
  · exact .inl rfl

/-- The stacks are the same but for their innermost scopes, which are related. -/
inductive Innermost (relation : Scope → Scope → Prop) : List Scope → List Scope → Prop where
  | nowhere : Innermost relation [] []
  | inside {scope later : Scope} {outer : List Scope} (related : relation scope later) :
      Innermost relation (scope :: outer) (later :: outer)

namespace Innermost

variable {relation weaker second : Scope → Scope → Prop} {scopes middle last : List Scope}

theorem refl (reflexive : ∀ scope, relation scope scope) (scopes : List Scope) :
    Innermost relation scopes scopes := by
  cases scopes with
  | nil => exact nowhere
  | cons scope outer => exact inside (reflexive scope)

theorem mono (innermost : Innermost relation scopes last)
    (implies : ∀ scope later, relation scope later → weaker scope later) :
    Innermost weaker scopes last := by
  cases innermost with
  | nowhere => exact nowhere
  | inside related => exact inside (implies _ _ related)

theorem trans (before : Innermost relation scopes middle) (after : Innermost second middle last)
    (composes : ∀ scope grown later, relation scope grown → second grown later →
      weaker scope later) :
    Innermost weaker scopes last := by
  cases before with
  | nowhere =>
      cases after
      exact nowhere
  | inside related =>
      cases after with
      | inside further => exact inside (composes _ _ _ related further)

end Innermost

end Scope

namespace ScopeState

variable {start middle after : ScopeState}

/-- The pass has come back to the scopes and to the function, and has taken no complaint back. -/
structure Grown (start after : ScopeState) : Prop where
  function : after.function = start.function
  scopes : Scope.Innermost Scope.GrowsTo start.scopes after.scopes
  complaints : start.complaints <:+ after.complaints

/-- The pass has come back to the scopes, the function and the class. -/
structure Restored (start after : ScopeState) : Prop extends Grown start after where
  classKind : after.classKind = start.classKind

/-- The pass has come back, and no scope has changed. -/
structure Untouched (start after : ScopeState) : Prop where
  function : after.function = start.function
  classKind : after.classKind = start.classKind
  scopes : after.scopes = start.scopes
  complaints : start.complaints <:+ after.complaints

/-- On the way a second declaration of the name was complained about. -/
def Redeclared (start after : ScopeState) (name : String) : Prop :=
  ∃ added about, after.complaints = added ++ start.complaints ∧
    (⟨about, .redeclared⟩ : ScopeComplaint) ∈ added ∧ about.lexeme = name

/-- No name was taken out of the scope, and those that were usable are so unless they have been
declared again. -/
structure Spares (start after : ScopeState) (scope later : Scope) : Prop where
  bound : ∀ name, scope.binds name = true → later.binds name = true
  usable : ∀ name, scope.get? name = some true →
    later.get? name = some true ∨ Redeclared start after name

/-- The pass has come to a place inside, where the scopes from before look like this. -/
structure Below (start after : ScopeState) (kept : List Scope) : Prop where
  scopes : Scope.Innermost (Spares start after) start.scopes kept
  complaints : start.complaints <:+ after.complaints

/-- The pass has come to a place where the scopes from before lie below those that were opened. -/
def Reached (start after : ScopeState) : Prop :=
  ∃ opened kept, after.scopes = opened ++ kept ∧ Below start after kept

theorem Grown.refl (state : ScopeState) : state.Grown state :=
  ⟨rfl, .refl .refl _, List.suffix_refl _⟩

theorem Grown.trans (first : start.Grown middle) (second : middle.Grown after) :
    start.Grown after where
  function := second.function.trans first.function
  scopes := first.scopes.trans second.scopes fun _ _ _ => .trans
  complaints := first.complaints.trans second.complaints

theorem Untouched.refl (state : ScopeState) : state.Untouched state :=
  ⟨rfl, rfl, rfl, List.suffix_refl _⟩

theorem Untouched.trans (first : start.Untouched middle) (second : middle.Untouched after) :
    start.Untouched after where
  function := second.function.trans first.function
  classKind := second.classKind.trans first.classKind
  scopes := second.scopes.trans first.scopes
  complaints := first.complaints.trans second.complaints

theorem Untouched.restored (untouched : start.Untouched after) : start.Restored after where
  function := untouched.function
  classKind := untouched.classKind
  scopes := untouched.scopes ▸ .refl .refl _
  complaints := untouched.complaints

theorem Redeclared.later {name : String} (redeclared : start.Redeclared middle name)
    (complaints : middle.complaints <:+ after.complaints) : start.Redeclared after name := by
  obtain ⟨added, about, noted, among, same⟩ := redeclared
  obtain ⟨further, whole⟩ := complaints
  exact ⟨further ++ added, about, by rw [← whole, noted, List.append_assoc],
    List.mem_append_right further among, same⟩

theorem Redeclared.earlier {name : String} (redeclared : middle.Redeclared after name)
    (complaints : start.complaints <:+ middle.complaints) : start.Redeclared after name := by
  obtain ⟨added, about, noted, among, same⟩ := redeclared
  obtain ⟨further, whole⟩ := complaints
  exact ⟨added ++ further, about, by rw [noted, ← whole, List.append_assoc],
    List.mem_append_left further among, same⟩

theorem Spares.ofGrowth {scope grown : Scope} (grows : scope.GrowsTo grown) :
    Spares start after scope grown := by
  constructor
  · intro name bound
    rcases grows name with same | usable
    · rwa [Table.binds, same]
    · rw [Table.binds, usable]
      rfl
  · intro name wasUsable
    rcases grows name with same | usable
    · exact .inl (same.trans wasUsable)
    · exact .inl usable

theorem Grown.below (grown : start.Grown after) : start.Below after after.scopes :=
  ⟨grown.scopes.mono fun _ _ => .ofGrowth, grown.complaints⟩

/-- The pass has come to a place with the same scopes. -/
theorem Below.of_scopes (same : after.scopes = start.scopes)
    (complaints : start.complaints <:+ after.complaints) : start.Below after after.scopes :=
  ⟨same ▸ .refl (fun scope => .ofGrowth (.refl scope)) _, complaints⟩

/-- From where the pass has opened no scope it goes on to a place inside. -/
theorem Below.trans {kept : List Scope} (first : start.Below middle middle.scopes)
    (second : middle.Below after kept) : start.Below after kept where
  complaints := first.complaints.trans second.complaints
  scopes := by
    refine first.scopes.trans second.scopes fun scope grown later before further => ?_
    refine ⟨fun name bound => further.bound name (before.bound name bound), ?_⟩
    intro name wasUsable
    rcases before.usable name wasUsable with usable | redeclared
    · exact (further.usable name usable).imp_right fun again => again.earlier first.complaints
    · exact .inr (redeclared.later second.complaints)

theorem Below.reached (below : start.Below middle middle.scopes) (reached : middle.Reached after) :
    start.Reached after := by
  obtain ⟨opened, kept, isStack, further⟩ := reached
  exact ⟨opened, kept, isStack, below.trans further⟩

end ScopeState

namespace Scoping

open ScopeState

variable {α β : Type} {relation weaker : ScopeState → ScopeState → Prop} {part : Scoping α}

/-- The part of the pass leads to states in this relation to the one in which it begins, and where
it stops in the middle the scopes from before are still there. -/
structure Leads (relation : ScopeState → ScopeState → Prop) (part : Scoping α) : Prop where
  onResult : ∀ start result after, part start = .ok result after → relation start after
  onHalt : ∀ start halt after, part start = .error halt after → start.Reached after

/-- A visit of that many nodes comes to its end in a state in this relation to the one in which it
began, or it is cut off since there is less room. -/
def Closes (relation : ScopeState → ScopeState → Prop) (room nodes : Nat) (start : ScopeState) :
    EStateM.Result TooDeep ScopeState α → Prop
  | .ok _ after => relation start after
  | .error _ after => room < nodes ∧ start.Reached after

/-- A relation that goes through from each part of the pass to the next one. -/
structure Lasting (relation : ScopeState → ScopeState → Prop) : Prop where
  untouched : ∀ start after, start.Untouched after → relation start after
  trans : ∀ start middle after, relation start middle → relation middle after →
    relation start after
  grown : ∀ start after, relation start after → start.Grown after

theorem Lasting.ofUntouched : Lasting Untouched where
  untouched _ _ untouched := untouched
  trans _ _ _ := .trans
  grown _ _ untouched := untouched.restored.toGrown

theorem Lasting.ofRestored : Lasting Restored where
  untouched _ _ := Untouched.restored
  trans _ _ _ first second :=
    ⟨first.toGrown.trans second.toGrown, second.classKind.trans first.classKind⟩
  grown _ _ := Restored.toGrown

theorem Lasting.ofGrown : Lasting Grown where
  untouched _ _ untouched := untouched.restored.toGrown
  trans _ _ _ := .trans
  grown _ _ grown := grown

namespace Leads

theorem mono (leads : Leads relation part)
    (implies : ∀ start after, relation start after → weaker start after) : Leads weaker part :=
  ⟨fun _ _ _ ends => implies _ _ (leads.onResult _ _ _ ends), leads.onHalt⟩

theorem restored (leads : Leads Untouched part) : Leads Restored part :=
  leads.mono fun _ _ => Untouched.restored

theorem tooDeep : Leads relation (throw .tooDeep : Scoping α) := by
  refine ⟨fun _ _ _ ends => (nomatch ends), fun start halt after stops => ?_⟩
  cases stops
  exact ⟨[], start.scopes, rfl, (Grown.refl start).below⟩

/-- A part that never stops in the middle. -/
theorem ofEnds (ends : Ends part)
    (onResult : ∀ start result after, part start = .ok result after → relation start after) :
    Leads relation part := by
  refine ⟨onResult, fun start halt after stops => ?_⟩
  obtain ⟨_, _, done⟩ := ends start
  rw [done] at stops
  cases stops

section Lasting

variable (lasting : Lasting relation)

include lasting

theorem pure (result : α) : Leads relation (Pure.pure result) := by
  refine ofEnds (.pure result) fun start other after ends => ?_
  cases ends
  exact lasting.untouched _ _ (.refl start)

theorem bind {next : α → Scoping β} (first : Leads relation part)
    (second : ∀ value, Leads relation (next value)) : Leads relation (part >>= next) := by
  constructor
  · intro start result after ends
    obtain ⟨value, middle, partDone, rest⟩ := bind_eq_ok.1 ends
    exact lasting.trans _ _ _ (first.onResult _ _ _ partDone)
      ((second value).onResult _ _ _ rest)
  · intro start halt after stops
    rcases bind_eq_error.1 stops with partStops | ⟨value, middle, partDone, restStops⟩
    · exact first.onHalt _ _ _ partStops
    · have grown := lasting.grown _ _ (first.onResult _ _ _ partDone)
      exact grown.below.reached ((second value).onHalt _ _ _ restStops)

theorem wrap (inside : Leads relation part) (build : α → β) :
    Leads relation (part >>= fun value => Pure.pure (build value)) :=
  bind lasting inside fun _ => pure lasting _

theorem get : Leads relation (MonadState.get : Scoping ScopeState) := by
  refine ofEnds .get fun start _ after ends => ?_
  cases ends
  exact lasting.untouched _ _ (.refl start)

theorem complain (about : Token) (error : ScopeError) :
    Leads relation (Scoping.complain about error) := by
  refine ofEnds (.complain about error) fun start _ after ends => ?_
  cases ends
  exact lasting.untouched _ _ ⟨rfl, rfl, rfl, List.suffix_cons _ _⟩

theorem complainIf {condition : Prop} [Decidable condition] {about : Token} {error : ScopeError}
    {next : Scoping β} (rest : Leads relation next) :
    Leads relation
      (if condition then Scoping.complain about error >>= fun _ => next else next) := by
  split
  · exact bind lasting (complain lasting about error) fun _ => rest
  · exact rest

theorem locate (kind : ReferenceKind) (name : Token) :
    Leads relation (Scoping.locate kind name) := by
  refine ofEnds (.locate kind name) fun start site after ends => ?_
  unfold Scoping.locate at ends
  split at ends <;> cases ends <;>
    exact lasting.untouched _ _ ⟨rfl, rfl, rfl, List.suffix_refl _⟩

theorem isPending (name : String) : Leads relation (Scoping.isPending name) := by
  refine ofEnds (.isPending name) fun start pending after ends => ?_
  unfold Scoping.isPending at ends
  split at ends <;> cases ends <;> exact lasting.untouched _ _ (.refl start)

theorem reference (name : Token) : Leads relation (Scoping.reference name) :=
  bind lasting (isPending lasting name.lexeme) fun _ =>
    complainIf lasting (locate lasting .variable name)

theorem each {visit : α → Scoping β} (leads : ∀ item, Leads relation (visit item))
    (items : List α) : Leads relation (Scoping.each visit items) := by
  induction items with
  | nil => exact pure lasting []
  | cons first rest induction =>
      exact bind lasting (leads first) fun _ => wrap lasting induction _

theorem optional {visit : α → Scoping β} (leads : ∀ item, Leads relation (visit item))
    (item : Option α) : Leads relation (Scoping.optional visit item) := by
  cases item with
  | none => exact pure lasting none
  | some item => exact wrap lasting (leads item) some

end Lasting

/-- What goes wrong between two changes of the state went wrong after the first one. -/
theorem between_eq_error {enter leave : ScopeState → ScopeState} {start after : ScopeState}
    {halt : TooDeep}
    (stops : (do
      modify enter
      let result ← part
      modify leave
      return result) start = .error halt after) :
    part (enter start) = .error halt after := by
  rcases bind_eq_error.1 stops with enters | ⟨_, entered, enterDone, stops⟩
  · cases enters
  cases enterDone
  rcases bind_eq_error.1 stops with inside | ⟨_, inner, _, stops⟩
  · exact inside
  rcases bind_eq_error.1 stops with leaves | ⟨_, left, _, stops⟩
  · cases leaves
  · cases stops

/-- What a part does inside a scope of its own leaves all scopes around it as they were. -/
theorem inScope (scope : Scope) (inside : Leads Restored part) :
    Leads Untouched (inScope scope part) := by
  constructor
  · intro start result after ends
    obtain ⟨inner, partDone, rfl⟩ := inScope_eq_ok ends
    have restored := inside.onResult _ _ _ partDone
    refine ⟨restored.function, restored.classKind, ?_, restored.complaints⟩
    have innermost := restored.scopes
    dsimp only at innermost ⊢
    generalize inner.scopes = scopes at innermost ⊢
    cases innermost
    rfl
  · intro start halt after stops
    obtain ⟨opened, kept, isStack, below⟩ := inside.onHalt _ _ _ (between_eq_error stops)
    have innermost := below.scopes
    dsimp only at innermost
    cases innermost with
    | @inside _ later _ _ =>
        refine ⟨opened ++ [later], start.scopes, by simp [isStack], ?_, below.complaints⟩
        exact .refl (fun scope => .ofGrowth (.refl scope)) _

theorem inFunction (kind : FunctionKind) (inside : Leads Untouched part) :
    Leads Untouched (inFunction kind part) := by
  constructor
  · intro start result after ends
    obtain ⟨inner, partDone, rfl⟩ := inFunction_eq_ok ends
    have untouched := inside.onResult _ _ _ partDone
    exact ⟨rfl, untouched.classKind, untouched.scopes, untouched.complaints⟩
  · intro start halt after stops
    rcases bind_eq_error.1 stops with asks | ⟨_, _, getDone, stops⟩
    · cases asks
    cases getDone
    have entered : start.Below { start with function := kind } start.scopes :=
      .of_scopes rfl (List.suffix_refl _)
    exact entered.reached (inside.onHalt _ _ _ (between_eq_error stops))

/-- A part inside a class may change the kind of the class, which is put back. -/
theorem inClass (kind : ClassKind) (inside : Leads Grown part) :
    Leads Restored (inClass kind part) := by
  constructor
  · intro start result after ends
    obtain ⟨inner, partDone, rfl⟩ := inClass_eq_ok ends
    have grown := inside.onResult _ _ _ partDone
    exact ⟨⟨grown.function, grown.scopes, grown.complaints⟩, rfl⟩
  · intro start halt after stops
    rcases bind_eq_error.1 stops with asks | ⟨_, _, getDone, stops⟩
    · cases asks
    cases getDone
    have entered : start.Below { start with classKind := kind } start.scopes :=
      .of_scopes rfl (List.suffix_refl _)
    exact entered.reached (inside.onHalt _ _ _ (between_eq_error stops))

/-- A declaration takes no name away; one that is no longer usable was declared again. -/
theorem below_of_declare {name : Token} {start after : ScopeState}
    (ends : declare name start = .ok () after) : start.Below after after.scopes := by
  unfold declare at ends
  split at ends
  · cases ends
    exact .of_scopes rfl (List.suffix_refl _)
  · rename_i scope outer here
    cases ends
    dsimp only
    constructor
    · rw [here]
      refine .inside ⟨fun other bound => ?_, fun other wasUsable => ?_⟩
      · rw [Table.binds_insert, bound, Bool.or_true]
      · by_cases same : name.lexeme = other
        · have bound : scope.binds name.lexeme = true := by
            rw [Table.binds, same, wasUsable]
            rfl
          refine .inr ⟨[⟨name, .redeclared⟩], name, ?_, List.mem_singleton_self _, same⟩
          simp [bound]
        · exact .inl (by rwa [Table.get?_insert_of_ne _ _ same])
    · dsimp only
      split
      · exact List.suffix_cons _ _
      · exact List.suffix_refl _

/-- Once a declared name has been made usable the pass has come back. -/
theorem restored_of_define {name : Token} {start declared middle after : ScopeState}
    (declares : declare name start = .ok () declared) (untouched : declared.Untouched middle)
    (defines : define name.lexeme middle = .ok () after) : start.Restored after := by
  have complaints := (below_of_declare declares).complaints.trans untouched.complaints
  unfold define at defines
  unfold declare at declares
  split at declares
  · rename_i nowhere
    cases declares
    have empty : middle.scopes = [] := untouched.scopes.trans nowhere
    rw [empty] at defines
    cases defines
    exact untouched.restored
  · rename_i scope outer here
    cases declares
    rw [untouched.scopes] at defines
    cases defines
    refine ⟨⟨untouched.function, ?_, complaints⟩, untouched.classKind⟩
    rw [here]
    exact .inside (.bring scope name.lexeme)

theorem param (name : Token) : Leads Restored (Scoping.param name) := by
  refine ofEnds (.param name) fun start _ after ends => ?_
  obtain ⟨_, declared, declares, defines⟩ := bind_eq_ok.1 ends
  exact restored_of_define declares (.refl _) defines

/-- A declaration: what comes between the name and the moment from which it is usable leaves the
scopes alone. -/
theorem declaring (lasting : Lasting relation)
    (restored : ∀ start after, start.Restored after → relation start after) (name : Token)
    {next : α → Scoping β} (between : Leads Untouched part)
    (rest : ∀ value, Leads relation (next value)) :
    Leads relation (do
      declare name
      let value ← part
      define name.lexeme
      next value) := by
  constructor
  · intro start result after ends
    obtain ⟨_, declared, declares, ends⟩ := bind_eq_ok.1 ends
    obtain ⟨value, middle, partDone, ends⟩ := bind_eq_ok.1 ends
    obtain ⟨_, defined, defines, ends⟩ := bind_eq_ok.1 ends
    have untouched := between.onResult _ _ _ partDone
    exact lasting.trans _ _ _ (restored _ _ (restored_of_define declares untouched defines))
      ((rest value).onResult _ _ _ ends)
  · intro start halt after stops
    rcases bind_eq_error.1 stops with declareStops | ⟨_, declared, declares, stops⟩
    · obtain ⟨_, _, declares⟩ := Ends.declare name start
      rw [declares] at declareStops
      cases declareStops
    rcases bind_eq_error.1 stops with partStops | ⟨value, middle, partDone, stops⟩
    · exact (below_of_declare declares).reached (between.onHalt _ _ _ partStops)
    rcases bind_eq_error.1 stops with defineStops | ⟨_, defined, defines, stops⟩
    · obtain ⟨_, _, defines⟩ := Ends.define name.lexeme middle
      rw [defines] at defineStops
      cases defineStops
    have untouched := between.onResult _ _ _ partDone
    have back := restored_of_define declares untouched defines
    exact back.toGrown.below.reached ((rest value).onHalt _ _ _ stops)

/-- A name that is usable at once. -/
theorem bring (lasting : Lasting relation)
    (restored : ∀ start after, start.Restored after → relation start after) (name : Token)
    {rest : Scoping β} (leads : Leads relation rest) :
    Leads relation (do
      declare name
      define name.lexeme
      rest) := by
  have nothing : Leads Untouched (Pure.pure () : Scoping Unit) := pure .ofUntouched ()
  exact declaring lasting restored name nothing fun _ => leads

/-- An expression declares nothing. -/
theorem expr (room : Nat) (e : Expr Unit) : Leads Untouched (Scoping.expr room e) := by
  have lasting := Lasting.ofUntouched
  induction room generalizing e with
  | zero => exact tooDeep
  | succ room induction =>
      cases e with
      | literal value => exact pure lasting _
      | grouping inner => exact wrap lasting (induction inner) _
      | unary op operand => exact wrap lasting (induction operand) _
      | binary left op right | logical left op right =>
          exact bind lasting (induction left) fun _ => wrap lasting (induction right) _
      | «variable» name site => exact wrap lasting (reference lasting name) _
      | assign name site value =>
          exact bind lasting (induction value) fun _ =>
            wrap lasting (locate lasting .assign name) _
      | call callee paren args =>
          exact bind lasting (induction callee) fun _ =>
            wrap lasting (each lasting induction args) _
      | get object name => exact wrap lasting (induction object) _
      | set object name value =>
          exact bind lasting (induction value) fun _ => wrap lasting (induction object) _
      | this keyword site =>
          refine bind lasting (get lasting) fun state => ?_
          split
          · exact bind lasting (complain lasting _ _) fun _ => pure lasting _
          · exact wrap lasting (locate lasting .this keyword) _
      | super keyword method site =>
          have located := wrap lasting (locate lasting .super keyword) (Expr.super keyword method)
          refine bind lasting (get lasting) fun state => ?_
          cases state.classKind with
          | none => exact bind lasting (complain lasting _ _) fun _ => located
          | plain => exact bind lasting (complain lasting _ _) fun _ => located
          | derived => exact located

section Bodies

variable {visit : Stmt Unit → Scoping (Stmt Site)} (leads : ∀ s, Leads Restored (visit s))

include leads

/-- Parameters and body are in a scope of their own. -/
theorem functionRest (kind : FunctionKind) (decl : FunctionDecl Unit) :
    Leads Untouched (Scoping.functionRest visit kind decl) := by
  have lasting := Lasting.ofRestored
  have params := each lasting param decl.params
  exact inFunction kind (inScope _ (bind lasting params fun _ =>
    wrap lasting (each lasting leads decl.body) _))

theorem methodsRest (methods : List (FunctionDecl Unit)) :
    Leads Untouched (Scoping.methodsRest visit methods) :=
  inScope _ (each .ofRestored
    (fun method => (functionRest leads (methodKind method) method).restored)
    methods)

end Bodies

/-- What is found out about the superclass makes the class a derived one. -/
theorem superclass (name : Token) (parent : Superclass Unit) :
    Leads Grown (Scoping.superclass name parent) := by
  have lasting := Lasting.ofGrown
  have derived : Leads Grown
      (modify fun state => { state with classKind := .derived } : Scoping Unit) :=
    ofEnds (.change _) fun start _ after ends => by
      cases ends
      exact ⟨rfl, .refl .refl _, List.suffix_refl _⟩
  exact complainIf lasting (bind lasting derived fun _ =>
    wrap lasting (reference lasting parent.name) _)

/-- A statement adds at most names to the innermost scope. -/
theorem stmt (room : Nat) (s : Stmt Unit) : Leads Restored (Scoping.stmt room s) := by
  have lasting := Lasting.ofRestored
  have value (e : Expr Unit) (room : Nat) := (expr room e).restored
  induction room generalizing s with
  | zero => exact tooDeep
  | succ room induction =>
      cases s with
      | expression e | print e => exact wrap lasting (value e room) _
      | var name initializer =>
          have between := optional .ofUntouched (expr room) initializer
          exact declaring lasting (fun _ _ => id) name between fun _ => pure lasting _
      | block body =>
          exact (wrap .ofUntouched (inScope _ (each lasting induction body)) _).restored
      | conditional condition thenBranch elseBranch =>
          exact bind lasting (value condition room) fun _ =>
            bind lasting (induction thenBranch) fun _ =>
              wrap lasting (optional lasting induction elseBranch) _
      | loop condition body =>
          exact bind lasting (value condition room) fun _ => wrap lasting (induction body) _
      | function decl =>
          have body := (functionRest induction .function decl).restored
          exact bring lasting (fun _ _ => id) decl.name (wrap lasting body _)
      | «return» keyword result =>
          refine bind lasting (get lasting) fun _ => complainIf lasting ?_
          cases result with
          | none => exact pure lasting _
          | some e =>
              exact bind lasting (get lasting) fun _ =>
                complainIf lasting (wrap lasting (value e room) _)
      | «class» name parent methods =>
          refine inClass .plain (bring .ofGrown (fun _ _ => Restored.toGrown) name ?_)
          have methodsLead : Leads Untouched (Scoping.methodsRest (Scoping.stmt room) methods) :=
            methodsRest induction methods
          have grown {part : Scoping (List (FunctionDecl Site))} (leads : Leads Untouched part) :
              Leads Grown part := leads.mono fun _ _ => Lasting.ofUntouched.grown _ _
          cases parent with
          | none => exact wrap .ofGrown (grown methodsLead) _
          | some parent =>
              exact bind .ofGrown (superclass name parent) fun _ =>
                wrap .ofGrown (grown (inScope _ methodsLead.restored)) _
      | lost => exact pure lasting _

/-- A part that comes to its end where there is room for its nodes is cut off only for lack of
room. -/
theorem closes (leads : Leads relation part) {room nodes : Nat} (ends : nodes ≤ room → Ends part)
    (start : ScopeState) : Closes relation room nodes start (part start) := by
  cases outcome : part start with
  | ok result after => exact leads.onResult _ _ _ outcome
  | error halt after =>
      refine ⟨Nat.lt_of_not_le fun enough => ?_, leads.onHalt _ _ _ outcome⟩
      obtain ⟨_, _, done⟩ := ends enough start
      rw [done] at outcome
      cases outcome

end Leads

end Scoping

/-- A visit restores its context, whatever is wrong with what is visited and whatever the state is
in which it begins.  With as much room as there are nodes it comes to its end; only less room can cut
it off.  At the end of a statement, and of several one after the other, the kinds of function and
class and all scopes but the innermost are as they were, and the innermost one has only gained usable
names or made names usable; at the end of an expression all scopes are as they were.  Where a visit
is cut off, the scopes from before lie below those that it opened, none but the innermost of them has
changed, and that one has lost no name; a name of it that was usable still is, unless it has been
complained about as declared again. -/
theorem visits_restore_context (room : Nat) (start : ScopeState) :
    (∀ e : Expr Unit,
      Scoping.Closes ScopeState.Untouched room e.nodes start (Scoping.expr room e start)) ∧
    (∀ s : Stmt Unit,
      Scoping.Closes ScopeState.Restored room s.nodes start (Scoping.stmt room s start)) ∧
    ∀ body : List (Stmt Unit),
      Scoping.Closes ScopeState.Restored room (Stmt.nodesOfAll body) start
        (Scoping.each (Scoping.stmt room) body start) := by
  refine ⟨fun e => ?_, fun s => ?_, fun body => ?_⟩
  · exact (Scoping.Leads.expr room e).closes (Scoping.expr_ends e) start
  · exact (Scoping.Leads.stmt room s).closes (Scoping.stmt_ends s) start
  · have leads := Scoping.Leads.each .ofRestored (Scoping.Leads.stmt room) body
    exact leads.closes (Scoping.body_ends (fun s => Scoping.stmt_ends s) body) start

/-- A second declaration of a usable name, cut off in front of its initializer. -/
example :
    let name : Token := ⟨⟨1, 10⟩, .identifier, "a"⟩
    ∃ after, Scoping.stmt 1 (.var name (some (.literal .nil)))
        { ScopeState.start with scopes := [Table.empty.insert "a" true] } = .error .tooDeep after ∧
      after.scopes = [Table.empty.insert "a" false] ∧ after.complaints = [⟨name, .redeclared⟩] :=
  ⟨_, rfl, by decide, by decide⟩

end LoxLang
