import LoxLang.Proofs.Run.Kinship
import Mathlib.Data.List.Forall2

/-!
# Trees without some scopes

Two trees agree if they are the same but for their sites, and in both of them each site
holds the distance to the innermost construct around it that holds its name; only that
around the second tree some constructs are missing, which hold nothing.  It is told for
each construct whether it is kept, the innermost first; all others are.
-/

namespace LoxLang

variable {α : Type}

/-- What is kept of a list. -/
def keep : List Bool → List α → List α
  | true :: kept, first :: rest => first :: keep kept rest
  | false :: kept, _ :: rest => keep kept rest
  | [], items => items
  | _ :: _, [] => []

/-- Where the item at an index is found among those that are kept. -/
def keptIndex? : List Bool → Nat → Option Nat
  | [], index => some index
  | true :: _, 0 => some 0
  | true :: kept, index + 1 => (keptIndex? kept index).map (· + 1)
  | false :: _, 0 => none
  | false :: kept, index + 1 => keptIndex? kept index

theorem keep_getElem? {kept : List Bool} {index found : Nat}
    (isKept : keptIndex? kept index = some found) (items : List α) :
    (keep kept items)[found]? = items[index]? := by
  induction kept generalizing index found items with
  | nil =>
      cases isKept
      rfl
  | cons mark kept induction =>
      cases mark with
      | true =>
          cases index with
          | zero =>
              cases isKept
              cases items <;> rfl
          | succ index =>
              obtain ⟨inner, isInner, rfl⟩ := Option.map_eq_some_iff.1 isKept
              cases items with
              | nil => rfl
              | cons first rest => exact induction isInner rest
      | false =>
          cases index with
          | zero => cases isKept
          | succ index =>
              cases items with
              | nil => rfl
              | cons first rest => exact induction isKept rest

/-- The first item is kept as the first one. -/
theorem keptIndex?_zero {kept : List Bool} {found : Nat} (isKept : keptIndex? kept 0 = some found) :
    found = 0 := by
  cases kept with
  | nil => exact (Option.some.inj isKept).symm
  | cons mark kept => cases mark <;> cases isKept; rfl

/-- If the first item is kept it is the first one that is. -/
theorem keptIndex?_of_headD {kept : List Bool} (isKept : kept.headD true = true) :
    keptIndex? kept 0 = some 0 := by
  cases kept with
  | nil => rfl
  | cons mark kept =>
      obtain rfl : mark = true := isKept
      rfl

/-- Of two items that stand side by side and are both kept, so do they among those that are kept. -/
theorem keptIndex?_succ {kept : List Bool} {index found next : Nat}
    (isKept : keptIndex? kept index = some found)
    (nextKept : keptIndex? kept (index + 1) = some next) : next = found + 1 := by
  induction kept generalizing index found next with
  | nil =>
      cases isKept
      cases nextKept
      rfl
  | cons mark kept induction =>
      cases mark with
      | true =>
          obtain ⟨inner, isInner, rfl⟩ := Option.map_eq_some_iff.1 nextKept
          cases index with
          | zero =>
              cases isKept
              rw [keptIndex?_zero isInner]
          | succ index =>
              obtain ⟨outer, isOuter, rfl⟩ := Option.map_eq_some_iff.1 isKept
              exact congrArg (· + 1) (induction isOuter isInner)
      | false =>
          cases index with
          | zero => cases isKept
          | succ index => exact induction isKept nextKept

/-- The sites lead to the same scope, where only some scopes are kept. -/
inductive Site.Agrees (kept : List Bool) : Site → Site → Prop where
  | none : Agrees kept none none
  | some {distance found : Nat} : keptIndex? kept distance = some found →
      Agrees kept (some distance) (some found)

namespace Construct

/-- What is not kept holds nothing. -/
def Vacant : List Bool → List Construct → Prop
  | mark :: kept, first :: rest => (mark = false → first = []) ∧ Vacant kept rest
  | _, _ => True

variable {kept : List Bool} {around : List Construct}

theorem Vacant.isKept (vacant : Vacant kept around) {index : Nat} {construct : Construct}
    (there : around[index]? = some construct) (holds : construct ≠ []) :
    ∃ found, keptIndex? kept index = some found := by
  induction kept generalizing around index with
  | nil => exact ⟨index, rfl⟩
  | cons mark kept induction =>
      cases around with
      | nil => cases there
      | cons first rest =>
          cases index with
          | zero =>
              cases there
              cases mark with
              | true => exact ⟨0, rfl⟩
              | false => exact absurd (vacant.1 rfl) holds
          | succ index =>
              obtain ⟨found, isKept⟩ := induction vacant.2 there
              cases mark with
              | true => exact ⟨found + 1, by simp [keptIndex?, isKept]⟩
              | false => exact ⟨found, isKept⟩

/-- What holds nothing makes no difference to where a name is found. -/
theorem Vacant.distance (vacant : Vacant kept around) (name : String) :
    Site.Agrees kept (distance? around name) (distance? (keep kept around) name) := by
  induction kept generalizing around with
  | nil =>
      unfold keep
      cases distance? around name with
      | none => exact .none
      | some distance => exact .some rfl
  | cons mark kept induction =>
      cases around with
      | nil => cases mark <;> exact .none
      | cons first rest =>
          have later := induction vacant.2
          unfold distance? at later ⊢
          cases mark with
          | true =>
              unfold keep
              rw [List.findIdx?_cons, List.findIdx?_cons]
              split
              · exact .some rfl
              · generalize rest.findIdx? (name ∈ ·) = site at later
                generalize (keep kept rest).findIdx? (name ∈ ·) = siteTwin at later
                cases later with
                | none => exact .none
                | some isKept => exact .some (by simp [keptIndex?, isKept])
          | false =>
              unfold keep
              rw [List.findIdx?_cons, vacant.1 rfl]
              simp only [List.not_mem_nil, decide_false, Bool.false_eq_true, if_false]
              generalize rest.findIdx? (name ∈ ·) = site at later
              generalize (keep kept rest).findIdx? (name ∈ ·) = siteTwin at later
              cases later with
              | none => exact .none
              | some isKept => exact .some isKept

theorem Vacant.opened (vacant : Vacant kept around) (opens : List Construct) :
    Vacant (opens.map (fun _ => true) ++ kept) (opens ++ around) := by
  induction opens with
  | nil => exact vacant
  | cons first rest induction => exact ⟨nofun, induction⟩

end Construct

/-- What is opened is kept. -/
theorem keep_opened (kept : List Bool) (opens items : List α) :
    keep (opens.map (fun _ => true) ++ kept) (opens ++ items) = opens ++ keep kept items := by
  induction opens with
  | nil => rfl
  | cons first rest induction => exact congrArg (first :: ·) induction

namespace Construct.Paired

variable {around : List Construct}

/-- Around a part inside one that is settled, `this` is held next to `super`. -/
theorem inside {part : Part Site} (paired : Paired around) (settled : part.Settled around)
    (index : Nat) : Paired (part.opens index ++ around) := by
  have held (params : List Token) (body : List (Stmt Site))
      (names : ∀ param ∈ params, IsName param.lexeme)
      (children : part.children = body.map .stmt) :
      Paired (heldAt params body index :: around) := by
    refine paired.cons fun holds => ?_
    have ordinary : ∀ s ∈ body, (Part.stmt s).IsOrdinary := by
      intro s member
      obtain ⟨place, there⟩ := List.getElem?_of_mem member
      have isChild : part.children[place]? = some (.stmt s) := by simp [children, there]
      exact (settled.inside place isChild).root.ordinary
    exact (heldAt_names names ordinary index "super" holds).2 rfl
  have root := settled.root.ordinary
  unfold Part.opens
  split
  · exact held [] _ nofun rfl
  · exact held _ _ root.2 rfl
  · exact held _ _ root.2 rfl
  · exact paired.cons (by decide)
  · exact paired
  · exact paired.derived
  · exact paired

end Construct.Paired

/-- Where all is kept nothing changes. -/
theorem keep_all {kept : List Bool} (all : ∀ mark ∈ kept, mark = true) (items : List α) :
    keep kept items = items := by
  induction kept generalizing items with
  | nil => rfl
  | cons mark kept induction =>
      obtain ⟨rfl, others⟩ := List.forall_mem_cons.1 all
      cases items with
      | nil => rfl
      | cons first rest => exact congrArg (first :: ·) (induction others rest)

theorem Construct.Vacant.all {kept : List Bool} (all : ∀ mark ∈ kept, mark = true)
    (around : List Construct) : Vacant kept around := by
  induction kept generalizing around with
  | nil => exact trivial
  | cons mark kept induction =>
      obtain ⟨rfl, others⟩ := List.forall_mem_cons.1 all
      cases around with
      | nil => exact trivial
      | cons first rest => exact ⟨nofun, induction others rest⟩

variable {S T : Type}

/-- Both expressions are made in the same way, with the same tokens. -/
inductive Expr.Formed : Expr S → Expr T → Prop where
  | literal {value : Literal} : Formed (.literal value) (.literal value)
  | grouping {inner : Expr S} {twin : Expr T} : Formed (.grouping inner) (.grouping twin)
  | unary {op : Token} {operand : Expr S} {twin : Expr T} :
      Formed (.unary op operand) (.unary op twin)
  | binary {left right : Expr S} {leftTwin rightTwin : Expr T} {op : Token} :
      Formed (.binary left op right) (.binary leftTwin op rightTwin)
  | logical {left right : Expr S} {leftTwin rightTwin : Expr T} {op : Token} :
      Formed (.logical left op right) (.logical leftTwin op rightTwin)
  | variable {name : Token} {site : S} {siteTwin : T} :
      Formed (.variable name site) (.variable name siteTwin)
  | assign {name : Token} {site : S} {siteTwin : T} {value : Expr S} {twin : Expr T} :
      Formed (.assign name site value) (.assign name siteTwin twin)
  | call {callee : Expr S} {calleeTwin : Expr T} {paren : Token} {args : List (Expr S)}
      {argsTwin : List (Expr T)} :
      Formed (.call callee paren args) (.call calleeTwin paren argsTwin)
  | get {object : Expr S} {twin : Expr T} {name : Token} :
      Formed (.get object name) (.get twin name)
  | set {object value : Expr S} {objectTwin valueTwin : Expr T} {name : Token} :
      Formed (.set object name value) (.set objectTwin name valueTwin)
  | this {keyword : Token} {site : S} {siteTwin : T} :
      Formed (.this keyword site) (.this keyword siteTwin)
  | super {keyword method : Token} {site : S} {siteTwin : T} :
      Formed (.super keyword method site) (.super keyword method siteTwin)

theorem Expr.formed {e : Expr S} {twin : Expr T} (same : twin.bare = e.bare) : e.Formed twin := by
  cases e <;> cases twin <;> simp_all [Expr.map] <;> constructor

/-- Both statements are made in the same way, with the same tokens. -/
inductive Stmt.Formed : Stmt S → Stmt T → Prop where
  | expression {value : Expr S} {twin : Expr T} : Formed (.expression value) (.expression twin)
  | print {value : Expr S} {twin : Expr T} : Formed (.print value) (.print twin)
  | variable {name : Token} : Formed (.var name none) (.var name none)
  | var {name : Token} {value : Expr S} {twin : Expr T} :
      Formed (.var name (some value)) (.var name (some twin))
  | block {body : List (Stmt S)} {twin : List (Stmt T)} : Formed (.block body) (.block twin)
  | conditional {condition : Expr S} {conditionTwin : Expr T} {branch : Stmt S} {twin : Stmt T} :
      Formed (.conditional condition branch none) (.conditional conditionTwin twin none)
  | conditionalElse {condition : Expr S} {conditionTwin : Expr T} {branch other : Stmt S}
      {twin otherTwin : Stmt T} : Formed (.conditional condition branch (some other))
        (.conditional conditionTwin twin (some otherTwin))
  | loop {condition : Expr S} {conditionTwin : Expr T} {body : Stmt S} {twin : Stmt T} :
      Formed (.loop condition body) (.loop conditionTwin twin)
  | function {name : Token} {params : List Token} {body : List (Stmt S)} {twin : List (Stmt T)} :
      Formed (.function ⟨name, params, body⟩) (.function ⟨name, params, twin⟩)
  | returnNothing {keyword : Token} : Formed (.return keyword none) (.return keyword none)
  | return {keyword : Token} {value : Expr S} {twin : Expr T} :
      Formed (.return keyword (some value)) (.return keyword (some twin))
  | plainClass {name : Token} {methods : List (FunctionDecl S)} {twins : List (FunctionDecl T)} :
      Formed (.class name none methods) (.class name none twins)
  | derivedClass {name parent : Token} {site : S} {siteTwin : T} {methods : List (FunctionDecl S)}
      {twins : List (FunctionDecl T)} : Formed (.class name (some ⟨parent, site⟩) methods)
        (.class name (some ⟨parent, siteTwin⟩) twins)
  | lost : Formed .lost .lost

theorem Stmt.map_conditional (onToken : Token → Token) (onSite : S → T) (condition : Expr S)
    (branch : Stmt S) (other : Option (Stmt S)) :
    (conditional condition branch other).map onToken onSite =
      .conditional (condition.map onToken onSite) (branch.map onToken onSite)
        (other.map (Stmt.map onToken onSite)) := by
  cases other <;> simp [Stmt.map]

theorem Stmt.formed {s : Stmt S} {twin : Stmt T} (same : twin.bare = s.bare) : s.Formed twin := by
  cases s with
  | var name value | «return» name value =>
      cases value <;> cases twin with
      | var nameTwin valueTwin | «return» nameTwin valueTwin =>
          cases valueTwin
          all_goals simp_all [Stmt.map]
          all_goals constructor
      | _ => simp [Stmt.map, Stmt.map_conditional] at same
  | conditional condition branch other =>
      cases other <;> cases twin with
      | conditional conditionTwin branchTwin otherTwin =>
          cases otherTwin
          all_goals simp [Stmt.map] at same
          all_goals constructor
      | _ => simp [Stmt.map] at same
  | function decl =>
      obtain ⟨name, params, body⟩ := decl
      cases twin with
      | function declTwin =>
          obtain ⟨nameTwin, paramsTwin, bodyTwin⟩ := declTwin
          simp_all [Stmt.map, FunctionDecl.map]
          constructor
      | _ => simp [Stmt.map, Stmt.map_conditional] at same
  | «class» name parent methods =>
      rcases parent with - | ⟨parent, site⟩ <;> cases twin with
      | «class» nameTwin parentTwin methodsTwin =>
          rcases parentTwin with - | ⟨parentTwin, siteTwin⟩
          all_goals simp_all [Stmt.map, Superclass.map]
          all_goals constructor
      | _ => simp [Stmt.map, Stmt.map_conditional] at same
  | _ =>
      cases twin
      all_goals simp_all [Stmt.map, Stmt.map_conditional]
      all_goals constructor

namespace Part

/-- The names that a part declares in the construct in which it stands. -/
def brought : Part S → List String
  | .program body => body.flatMap Stmt.brought
  | .stmt s => s.brought
  | _ => []

theorem children_expr {e : Expr S} : ∀ child ∈ (expr e).children, ∃ inner, child = .expr inner := by
  cases e <;> simp [children]

/-- A declaration inside a part that opens nothing is one of that part. -/
theorem IsOrdinary.brought_ne_nil {part child : Part S} {index : Nat} (ordinary : part.IsOrdinary)
    (there : part.children[index]? = some child) (opensNothing : part.opens index = [])
    (brings : child.brought ≠ []) : part.brought ≠ [] := by
  have member := List.mem_of_getElem? there
  rcases part with body | s | decl | parent | e
  · obtain ⟨s, among, rfl⟩ := List.mem_map.1 member
    intro none
    exact brings (List.flatMap_eq_nil_iff.1 none s among)
  · cases s with
    | expression value | print value =>
        obtain rfl := List.mem_singleton.1 member
        exact absurd rfl brings
    | var name value | «return» keyword value =>
        obtain ⟨e, _, rfl⟩ := List.mem_map.1 member
        exact absurd rfl brings
    | block body => cases opensNothing
    | function decl => cases opensNothing
    | conditional condition thenBranch elseBranch =>
        simp only [children, List.mem_cons, List.mem_map] at member
        rcases member with rfl | rfl | ⟨branch, among, rfl⟩
        · exact absurd rfl brings
        · exact absurd ordinary.1 brings
        · exact absurd (ordinary.2 branch (Option.mem_toList.1 among)) brings
    | loop condition body =>
        rcases List.mem_cons.1 member with rfl | isBody
        · exact absurd rfl brings
        · obtain rfl := List.mem_singleton.1 isBody
          exact absurd ordinary brings
    | «class» name parent methods =>
        rcases List.mem_append.1 member with isParent | isMethod
        · obtain ⟨parent, _, rfl⟩ := List.mem_map.1 isParent
          exact absurd rfl brings
        · obtain ⟨method, _, rfl⟩ := List.mem_map.1 isMethod
          exact absurd rfl brings
    | lost => cases member
  · cases opensNothing
  · cases member
  · obtain ⟨inner, rfl⟩ := children_expr child member
    exact absurd rfl brings

/-- The twin is the same part, in the same constructs except for those that are not kept; these hold
nothing.  If the part is a declaration, the construct that it is in is kept. -/
structure Agrees (kept : List Bool) (part twin : Part Site) : Prop where
  same : twin.bare = part.bare
  located : ∃ around, Construct.Vacant kept around ∧ Construct.Paired around ∧
    part.Settled around ∧ twin.Throughout IsLocated (keep kept around)
  declared : part.brought ≠ [] → kept.headD true = true

namespace Agrees

variable {kept : List Bool} {part twin : Part Site}

/-- A part agrees with itself where all is kept. -/
theorem self {around : List Construct} (paired : Construct.Paired around)
    (settled : part.Settled around) (all : ∀ mark ∈ kept, mark = true) :
    part.Agrees kept part := by
  refine ⟨rfl, ⟨around, .all all around, paired, settled, ?_⟩, fun _ => ?_⟩
  · rw [keep_all all]
    exact fun path inner leads => (settled path inner leads).located
  · cases kept with
    | nil => rfl
    | cons mark kept => exact all mark List.mem_cons_self

theorem ordinary (agrees : part.Agrees kept twin) : part.IsOrdinary := by
  obtain ⟨_, _, _, settled, _⟩ := agrees.located
  exact settled.root.ordinary

theorem inside (agrees : part.Agrees kept twin) (index : Nat) {child : Part Site}
    (there : part.children[index]? = some child) :
    ∃ childTwin, twin.children[index]? = some childTwin ∧
      child.Agrees ((part.opens index).map (fun _ => true) ++ kept) childTwin := by
  obtain ⟨around, vacant, paired, settled, located⟩ := agrees.located
  have children : twin.children.map bare = part.children.map bare := by
    rw [← children_bare, ← children_bare, agrees.same]
  have opens : twin.opens index = part.opens index := by
    rw [← opens_bare, agrees.same, opens_bare]
  have twinThere := congrArg (·[index]?) children
  simp only [List.getElem?_map, there, Option.map_some, Option.map_eq_some_iff] at twinThere
  obtain ⟨childTwin, isChild, same⟩ := twinThere
  refine ⟨childTwin, isChild, same, ⟨_, vacant.opened _, paired.inside settled index,
    settled.inside index there, ?_⟩, fun brings => ?_⟩
  · rw [keep_opened, ← opens]
    exact (throughout_iff.1 located).2 index childTwin isChild
  · cases opened : part.opens index with
    | nil => exact agrees.declared (agrees.ordinary.brought_ne_nil there opened brings)
    | cons first rest => rfl

/-- What is inside parts that agree, at the same index, agrees. -/
theorem child (agrees : part.Agrees kept twin) (index : Nat) {child childTwin : Part Site}
    (there : part.children[index]? = some child)
    (thereTwin : twin.children[index]? = some childTwin) :
    child.Agrees ((part.opens index).map (fun _ => true) ++ kept) childTwin := by
  obtain ⟨found, isFound, childAgrees⟩ := agrees.inside index there
  cases thereTwin.symm.trans isFound
  exact childAgrees

/-- What is inside parts that agree, from an index on, agrees in the same order. -/
theorem each {Item : Type} {items twins : List Item} {marks : List Bool}
    (agrees : part.Agrees kept twin) (wrap : Item → Part Site) (offset : Nat)
    (ofPart : part.children.drop offset = items.map wrap)
    (ofTwin : twin.children.drop offset = twins.map wrap)
    (opened : ∀ index, (part.opens (index + offset)).map (fun _ => true) = marks) :
    List.Forall₂ (fun item itemTwin => (wrap item).Agrees (marks ++ kept) (wrap itemTwin))
      items twins := by
  have lengths : twin.children.length = part.children.length := by
    have children := congrArg children agrees.same
    rw [children_bare, children_bare] at children
    simpa using congrArg List.length children
  refine List.forall₂_iff_get.2 ⟨?_, ?_⟩
  · have itemLengths := congrArg List.length ofPart
    have twinLengths := congrArg List.length ofTwin
    simp only [List.length_drop, List.length_map] at itemLengths twinLengths
    omega
  · intro index inside insideTwin
    rw [← opened index]
    apply agrees.child
    · rw [Nat.add_comm, ← List.getElem?_drop, ofPart]
      simp [inside]
    · rw [Nat.add_comm, ← List.getElem?_drop, ofTwin]
      simp [insideTwin]

/-- Declarations of functions agree like methods. -/
theorem ofFunction {decl twin : FunctionDecl Site}
    (agrees : (Part.stmt (.function decl)).Agrees kept (.stmt (.function twin))) :
    (Part.method decl).Agrees kept (.method twin) where
  same := congrArg Part.method (Stmt.function.inj (Part.stmt.inj agrees.same))
  located := by
    obtain ⟨around, vacant, paired, settled, located⟩ := agrees.located
    exact ⟨around, vacant, paired, settled.ofFunction,
      throughout_iff.2 ⟨nofun, (throughout_iff.1 located).2⟩⟩
  declared brings := absurd rfl brings

/-- Functions that agree have the same name and the same parameters. -/
theorem header {decl twin : FunctionDecl Site}
    (agrees : (Part.method decl).Agrees kept (.method twin)) :
    twin.name = decl.name ∧ twin.params = decl.params := by
  obtain ⟨name, params, body⟩ := decl
  obtain ⟨nameTwin, paramsTwin, bodyTwin⟩ := twin
  have same := Part.method.inj agrees.same
  simp only [FunctionDecl.map, FunctionDecl.mk.injEq, id, List.map_id] at same
  exact ⟨same.1, same.2.1⟩

/-- The sites of a reference lead to the same construct. -/
theorem site (agrees : part.Agrees kept twin) {kind : ReferenceKind} {name : Token} {site : Site}
    (refers : part.reference? = some (kind, name, site)) :
    ∃ siteTwin, twin.reference? = some (kind, name, siteTwin) ∧ site.Agrees kept siteTwin := by
  obtain ⟨around, vacant, _, settled, located⟩ := agrees.located
  have same := congrArg reference? agrees.same
  rw [reference?_bare, reference?_bare, refers] at same
  obtain ⟨⟨_, _, siteTwin⟩, twinRefers, sameName⟩ := Option.map_eq_some_iff.1 same
  cases sameName
  refine ⟨siteTwin, twinRefers, ?_⟩
  have isLocated := settled.root.located kind name site refers
  have twinLocated := (throughout_iff.1 located).1 kind name siteTwin twinRefers
  subst isLocated twinLocated
  exact vacant.distance name.lexeme

/-- The construct to which `super` leads is kept, and so is the one next to it, with `this`. -/
theorem super {keyword method : Token} {site : Site} {twin : Part Site}
    (agrees : (Part.expr (.super keyword method site)).Agrees kept twin) :
    ∃ distance found, twin = .expr (.super keyword method (some (found + 1))) ∧
      site = some (distance + 1) ∧ keptIndex? kept distance = some found ∧
        keptIndex? kept (distance + 1) = some (found + 1) := by
  obtain ⟨around, vacant, paired, settled, _⟩ := agrees.located
  obtain ⟨siteTwin, twinRefers, sites⟩ := agrees.site rfl
  obtain rfl := settled.root.located .super keyword site rfl
  obtain ⟨distance, isDistance⟩ :=
    Option.isSome_iff_exists.1 (settled.root.known keyword method _ rfl)
  have isSuper : keyword.lexeme = "super" := settled.root.ordinary
  obtain ⟨⟨construct, there, holds⟩, _⟩ := Construct.distance?_eq_some.1 isDistance
  obtain ⟨nearer, layer, rfl, inner, this⟩ := paired distance construct there (isSuper ▸ holds)
  obtain ⟨found, isKept⟩ := vacant.isKept inner (List.ne_nil_of_mem this)
  rw [isDistance] at sites
  cases sites with
  | some nextKept =>
      obtain rfl := keptIndex?_succ isKept nextKept
      refine ⟨nearer, found, ?_, isDistance, isKept, nextKept⟩
      have same := agrees.same
      cases twin <;> simp [bare] at same
      cases Expr.formed same with
      | super =>
          cases twinRefers
          rfl

end Agrees

end Part

end LoxLang
