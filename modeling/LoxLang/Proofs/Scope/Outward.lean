import LoxLang.Proofs.Scope.Layout
import LoxLang.Proofs.Scope.Parts

/-!
# How far a part reaches outwards

A declaration binds a name in the frame in which it stands, and an assignment in the
frame at the distance that was found for it.  If a part is laid out well in a context,
then whatever in it reaches out of the constructs that the part opens itself reaches a
scope of the context that has the name, and has it usable.
-/

namespace LoxLang.Part

/-- The name that a part binds by itself when it is run, and the distance to where it does, if that
is known from the text. -/
def stores? : Part Site → Option (String × Nat)
  | .expr (.assign name (some distance) _) => some (name.lexeme, distance)
  | .stmt s => s.declares.map (·, 0)
  | _ => none

/-- Whatever in the part binds a name further outwards than the constructs that are counted does so
where that is allowed. -/
def Outward (allowed : Nat → String → Prop) (around : List Construct) (part : Part Site) : Prop :=
  part.Throughout (fun around inner => ∀ name distance, inner.stores? = some (name, distance) →
    ∀ further, distance = around.length + further → allowed further name) around

namespace Outward

variable {allowed weaker : Nat → String → Prop} {around : List Construct} {part : Part Site}

theorem mono (outward : part.Outward allowed around)
    (implies : ∀ further name, allowed further name → weaker further name) :
    part.Outward weaker around :=
  fun path inner leads name distance stores further same =>
    implies further name (outward path inner leads name distance stores further same)

/-- What the part binds by itself. -/
theorem root (outward : part.Outward allowed around) {name : String} {distance further : Nat}
    (stores : part.stores? = some (name, distance)) (same : distance = around.length + further) :
    allowed further name :=
  (throughout_iff.1 outward).1 name distance stores further same

/-- What lies directly inside, with the constructs that the part opens around it. -/
theorem inside (outward : part.Outward allowed around) {index : Nat} {child : Part Site}
    (there : part.children[index]? = some child) :
    child.Outward allowed (part.opens index ++ around) :=
  (throughout_iff.1 outward).2 index child there

/-- A part that binds nothing by itself reaches no further than what lies directly inside it. -/
theorem of_children (noStore : part.stores? = none)
    (children : ∀ (index : Nat) (child : Part Site), part.children[index]? = some child →
      child.Outward allowed (part.opens index ++ around)) : part.Outward allowed around := by
  refine throughout_iff.2 ⟨?_, children⟩
  intro name distance stores
  rw [noStore] at stores
  cases stores

/-- From the inside of the outermost construct everything is one further step away, and inside of it
everything is allowed. -/
theorem enter {construct : Construct} (outward : part.Outward allowed (around ++ [construct]))
    (here : ∀ name, weaker 0 name)
    (beyond : ∀ further name, allowed further name → weaker (further + 1) name) :
    part.Outward weaker around := by
  intro path inner leads name distance stores further same
  cases further with
  | zero => exact here name
  | succ further =>
      apply beyond
      apply outward path inner leads name distance stores further
      simp only [same, List.length_append, List.length_singleton]
      omega

/-- From the outside of a construct that was around the part, everything is one step nearer. -/
theorem leave (construct : Construct) (outward : part.Outward allowed around)
    (nearer : ∀ further name, allowed (further + 1) name → weaker further name) :
    part.Outward weaker (around ++ [construct]) := by
  intro path inner leads name distance stores further same
  apply nearer
  apply outward path inner leads name distance stores (further + 1)
  simp only [same, List.length_append, List.length_singleton]
  omega

end Outward

variable {survey : Survey}

/-- The part is laid out well in the context, at some address. -/
def ScopedIn (survey : Survey) (context : Context) : Part Site → Prop
  | .program _ => False
  | .stmt s => ∃ address, s.Scoped survey context address
  | .method decl => ∃ address, decl.Scoped survey context address
  | .superclass _ => True
  | .expr e => ∃ address, e.Scoped survey context address

/-- The part is laid out well in a context that has these scopes behind some nearer ones. -/
def Lies (survey : Survey) (outer : List Scope) (depth : Nat) (part : Part Site) : Prop :=
  ∃ context, part.ScopedIn survey context ∧ context.scopes.drop depth = outer

namespace Lies

variable {context : Context} {outer : List Scope} {depth : Nat} {part child : Part Site}

/-- Only the innermost scope is changed by declarations. -/
theorem drop_innermost (context : Context) (update : Scope → Scope) (deep : 0 < depth) :
    (context.innermost update).scopes.drop depth = context.scopes.drop depth := by
  obtain ⟨depth, rfl⟩ := Nat.exists_eq_succ_of_ne_zero (Nat.ne_of_gt deep)
  show (context.scopes.modifyHead update).drop (depth + 1) = _
  cases context.scopes <;> rfl

theorem drop_bring (context : Context) (name : String) (deep : 0 < depth) :
    (context.bring name).scopes.drop depth = context.scopes.drop depth := by
  unfold Context.bring Context.define Context.declare
  rw [drop_innermost _ _ deep, drop_innermost _ _ deep]

theorem drop_after (context : Context) (s : Stmt Site) (deep : 0 < depth) :
    (context.after s).scopes.drop depth = context.scopes.drop depth := by
  unfold Context.after
  split
  · rfl
  · exact drop_bring context _ deep

theorem inList {address : Address} {index : Nat} {body : List (Stmt Site)}
    (listScoped : Stmt.ListScoped survey context address index body) (deep : 0 < depth)
    (isOuter : context.scopes.drop depth = outer) :
    ∀ s ∈ body, (stmt s).Lies survey outer depth := by
  induction body generalizing context index with
  | nil => exact nofun
  | cons first rest induction =>
      cases listScoped with
      | cons firstScoped restScoped =>
          exact List.forall_mem_cons.2 ⟨⟨context, ⟨_, firstScoped⟩, isOuter⟩,
            induction restScoped ((drop_after context first deep).trans isOuter)⟩

/-- In the body of a function there is one scope more. -/
theorem inDecl {address : Address} {decl : FunctionDecl Site}
    (isScoped : decl.Scoped survey context address) (isOuter : context.scopes.drop depth = outer) :
    ∀ s ∈ decl.body, (stmt s).Lies survey outer (depth + 1) := by
  cases isScoped with
  | mk _ _ body => exact inList body (Nat.succ_pos depth) isOuter

theorem inExpr {e : Expr Site} (lies : (expr e).Lies survey outer depth)
    (member : child ∈ (expr e).children) : child.Lies survey outer depth := by
  obtain ⟨context, ⟨address, ⟨_, parts⟩⟩, isOuter⟩ := lies
  cases parts with
  | literal | «variable» _ | this _ _ | super _ _ _ => cases member
  | grouping inner | unary inner | assign _ _ inner | get inner =>
      obtain rfl := List.mem_singleton.1 member
      exact ⟨context, ⟨_, inner⟩, isOuter⟩
  | binary _ left right | logical left right | set left right =>
      rcases List.mem_cons.1 member with rfl | later
      · exact ⟨context, ⟨_, left⟩, isOuter⟩
      · obtain rfl := List.mem_singleton.1 later
        exact ⟨context, ⟨_, right⟩, isOuter⟩
  | call callee args =>
      rcases List.mem_cons.1 member with rfl | isArg
      · exact ⟨context, ⟨_, callee⟩, isOuter⟩
      · obtain ⟨arg, inside, rfl⟩ := List.mem_map.1 isArg
        obtain ⟨index, there⟩ := List.getElem?_of_mem inside
        exact ⟨context, ⟨_, args index arg there⟩, isOuter⟩

/-- The innermost scope may differ inside of a declaration from what it is around it. -/
theorem inStmt {s : Stmt Site} {index : Nat} (lies : (stmt s).Lies survey outer depth)
    (deep : 0 < depth ∨ s.declares = none) (there : (stmt s).children[index]? = some child) :
    child.Lies survey outer (depth + ((stmt s).opens index).length) := by
  obtain ⟨context, ⟨address, isScoped⟩, isOuter⟩ := lies
  have member := List.mem_of_getElem? there
  cases isScoped with
  | mk _ parts =>
    cases parts with
    | expression value | print value =>
        obtain rfl := List.mem_singleton.1 member
        exact ⟨context, ⟨_, value⟩, isOuter⟩
    | @var _ _ name _ _ _ _ value =>
        have deep := deep.resolve_right (Option.some_ne_none _)
        obtain ⟨found, isValue, rfl⟩ := List.mem_map.1 member
        exact ⟨_, ⟨_, value found (Option.mem_toList.1 isValue)⟩,
          (drop_innermost context _ deep).trans isOuter⟩
    | «return» _ value =>
        obtain ⟨found, isValue, rfl⟩ := List.mem_map.1 member
        exact ⟨context, ⟨_, value found (Option.mem_toList.1 isValue)⟩, isOuter⟩
    | block body =>
        obtain ⟨inner, inside, rfl⟩ := List.mem_map.1 member
        exact inList body (Nat.succ_pos depth) isOuter inner inside
    | conditional condition thenBranch _ elseBranch _ =>
        simp only [children, List.mem_cons, List.mem_map] at member
        rcases member with rfl | rfl | ⟨branch, inside, rfl⟩
        · exact ⟨context, ⟨_, condition⟩, isOuter⟩
        · exact ⟨context, ⟨_, thenBranch⟩, isOuter⟩
        · exact ⟨context, ⟨_, elseBranch branch (Option.mem_toList.1 inside)⟩, isOuter⟩
    | loop condition body _ =>
        simp only [children, List.mem_cons, List.not_mem_nil, or_false] at member
        rcases member with rfl | rfl
        · exact ⟨context, ⟨_, condition⟩, isOuter⟩
        · exact ⟨context, ⟨_, body⟩, isOuter⟩
    | function _ _ _ decl =>
        have deep := deep.resolve_right (Option.some_ne_none _)
        obtain ⟨inner, inside, rfl⟩ := List.mem_map.1 member
        exact inDecl decl ((drop_bring context _ deep).trans isOuter) inner inside
    | @plainClass _ _ name _ number _ _ _ _ methods =>
        have deep := deep.resolve_right (Option.some_ne_none _)
        obtain ⟨method, inside, rfl⟩ := List.mem_map.1 member
        obtain ⟨index, isMethod⟩ := List.getElem?_of_mem inside
        exact ⟨_, ⟨_, methods index method isMethod⟩,
          (drop_bring (context.inClass .plain) name.lexeme deep).trans isOuter⟩
    | @derivedClass _ _ name _ _ _ _ _ _ _ _ _ _ _ methods =>
        have deep := deep.resolve_right (Option.some_ne_none _)
        cases index with
        | zero =>
            cases there
            exact ⟨context, trivial, isOuter⟩
        | succ index =>
            simp only [children, Option.toList_some, List.map_cons, List.map_nil,
              List.cons_append, List.nil_append, List.getElem?_cons_succ, List.getElem?_map,
              Option.map_eq_some_iff] at there
            obtain ⟨method, isMethod, rfl⟩ := there
            exact ⟨_, ⟨_, methods index method isMethod⟩,
              (drop_bring (context.inClass .derived) name.lexeme deep).trans isOuter⟩

theorem inside {index : Nat} (lies : part.Lies survey outer depth)
    (deep : 0 < depth ∨ part.stores? = none) (there : part.children[index]? = some child) :
    child.Lies survey outer (depth + (part.opens index).length) := by
  cases part with
  | program body =>
      obtain ⟨_, isScoped, _⟩ := lies
      exact isScoped.elim
  | stmt s => exact inStmt lies (deep.imp_right Option.map_eq_none_iff.1) there
  | method decl =>
      obtain ⟨_, ⟨_, isScoped⟩, isOuter⟩ := lies
      obtain ⟨inner, member, rfl⟩ := List.mem_map.1 (List.mem_of_getElem? there)
      exact inDecl isScoped isOuter inner member
  | superclass parent => cases there
  | expr e => exact inExpr lies (List.mem_of_getElem? there)

/-- What a part stores out of the nearer scopes is usable where it is stored.  It cannot be what a
variable's own initializer stores there, as that variable is in the nearest scope. -/
theorem usable {name : String} {distance further : Nat} (lies : part.Lies survey outer depth)
    (deep : 0 < depth) (stores : part.stores? = some (name, distance))
    (same : distance = depth + further) :
    ∃ scope, outer[further]? = some scope ∧ scope.get? name = some true := by
  have away : distance ≠ 0 := by omega
  cases part with
  | stmt s =>
      obtain ⟨_, _, isStore⟩ := Option.map_eq_some_iff.1 stores
      cases isStore
      exact absurd rfl away
  | expr e =>
      obtain ⟨context, ⟨_, ⟨_, parts⟩⟩, rfl⟩ := lies
      cases parts with
      | @assign _ token site value known _ _ =>
          cases site with
          | none => cases stores
          | some found =>
              cases stores
              obtain ⟨_, usable, _⟩ := known _ rfl
              obtain ⟨scope, there, found⟩ := usable.resolve_right fun own => away own.1
              rw [same, ← List.getElem?_drop] at there
              exact ⟨scope, there, found⟩
      | _ => cases stores
  | _ => cases stores

/-- The induction is on the path to what stores, and with each step inwards the constructs that are
opened on it count as nearer scopes. -/
theorem outward {around : List Construct} (lies : part.Lies survey outer around.length)
    (deep : 0 < around.length) :
    part.Outward (fun further name => ∃ scope, outer[further]? = some scope ∧
      scope.get? name = some true) around := by
  intro path
  induction path generalizing part around with
  | nil =>
      intro inner leads name distance stores further same
      cases leads
      exact lies.usable deep stores same
  | cons index path induction =>
      intro inner leads
      obtain ⟨child, there, leads⟩ := at?_cons.1 leads
      have length : (part.opens index ++ around).length =
          around.length + (part.opens index).length := by
        rw [List.length_append, Nat.add_comm]
      have childLies := lies.inside (.inl deep) there
      rw [← length] at childLies
      rw [constructs_cons path there, List.append_assoc]
      exact induction childLies (by omega) inner leads

end Lies

/-- A body of its own lies inside a construct, so that nothing in it can be stored in the innermost
scope of the context but what is usable there. -/
theorem outward_of_scopedIn {context : Context} {part : Part Site}
    (isScoped : part.ScopedIn survey context) (noStore : part.stores? = none)
    (opens : ∀ index child, part.children[index]? = some child → part.opens index ≠ []) :
    part.Outward (fun further name => context.Holds further name) [] := by
  refine .of_children noStore fun index child there => ?_
  have lies : part.Lies survey context.scopes 0 := ⟨context, isScoped, rfl⟩
  have childLies := lies.inside (.inr noStore) there
  rw [Nat.zero_add] at childLies
  rw [List.append_nil]
  exact childLies.outward (List.length_pos_iff.2 (opens index child there))

end LoxLang.Part
