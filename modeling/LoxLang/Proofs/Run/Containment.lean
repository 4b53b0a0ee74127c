import LoxLang.Proofs.Run.Discipline
import LoxLang.Proofs.Scope.Outward

/-!
# What older frames bind

Of the frames below some limit, a part of a run that is *confined* binds only names that
they bind already.  Frames that are made later may be extended freely.  So a part that
is confined for the frames that were there before it leaves the sets of their names as
they were.
-/

namespace LoxLang

variable {limit : FrameId}

/-- Frames stay where they are, and those below the limit bind the same names. -/
structure Forest.Contains (limit : FrameId) (earlier later : Forest Value) : Prop where
  size : earlier.size ≤ later.size
  chain : ∀ frame < earlier.size, later.chain frame = earlier.chain frame
  binds : ∀ frame < limit, ∀ name,
    (later.bindings frame).binds name = (earlier.bindings frame).binds name

/-- What the part stores from the frame on outwards, it stores under names that are bound where it
does, if that is below the limit. -/
def Forest.Confines (limit : FrameId) (forest : Forest Value) (frame : FrameId)
    (around : List Construct) (part : Part Site) : Prop :=
  part.Outward (fun further name => ∀ holder, (forest.chain frame)[further]? = some holder →
    holder < limit → (forest.bindings holder).binds name = true) around

/-- The body of the function is confined wherever it is called. -/
structure Closure.Confined (limit : FrameId) (forest : Forest Value) (closure : Closure) :
    Prop where
  inside : closure.frame < forest.size
  body : forest.Confines limit closure.frame [] (.method closure.decl)

/-- The body of the method is confined wherever it is called as a method of an object. -/
structure Closure.MethodConfined (limit : FrameId) (forest : Forest Value) (method : Closure) :
    Prop where
  inside : method.frame < forest.size
  body : forest.Confines limit method.frame [["this"]] (.method method.decl)

/-- The bodies of all methods of the class are confined. -/
def ClassValue.Confined (limit : FrameId) (forest : Forest Value) (cls : ClassValue) : Prop :=
  ∀ entry ∈ cls.chain, ∀ name method, entry.methods.get? name = some method →
    method.MethodConfined limit forest

/-- Whatever functions can be reached from the value are confined. -/
def Value.Confined (limit : FrameId) (forest : Forest Value) : Value → Prop
  | .closure function => function.Confined limit forest
  | .class cls => cls.Confined limit forest
  | .object _ cls => cls.Confined limit forest
  | _ => True

/-- The frames below the limit have been made, and whatever functions the machine has are
confined. -/
structure Machine.Confined (limit : FrameId) (machine : Machine) : Prop where
  reached : limit ≤ machine.forest.size
  values : ∀ frame name value, (machine.forest.bindings frame).get? name = some value →
    value.Confined limit machine.forest
  fields : ∀ id name value, (machine.fields id).get? name = some value →
    value.Confined limit machine.forest

/-- What is asked of runs so that the frames below the limit bind the same names all the time. -/
def confinement (limit : FrameId) : Judgement where
  Ok := Machine.Confined limit
  Good value machine := value.Confined limit machine.forest
  Fits machine frame part := frame < machine.forest.size ∧
    machine.forest.Confines limit frame [] part
  Follows earlier later := earlier.forest.Contains limit later.forest

namespace Forest

variable {forest earlier later : Forest Value} {frame : FrameId} {around : List Construct}
  {part : Part Site}

namespace Contains

theorem refl (forest : Forest Value) : Contains limit forest forest :=
  ⟨Nat.le_refl _, fun _ _ => rfl, fun _ _ _ => rfl⟩

theorem trans {first second third : Forest Value} (one : Contains limit first second)
    (other : Contains limit second third) : Contains limit first third where
  size := Nat.le_trans one.size other.size
  chain frame inside := by
    rw [other.chain frame (Nat.lt_of_lt_of_le inside one.size), one.chain frame inside]
  binds frame below name := by rw [other.binds frame below, one.binds frame below]

theorem child (forest : Forest Value) (parent : FrameId) :
    Contains limit forest (forest.child parent) where
  size := by simp
  chain _ inside := chain_child_of_lt forest parent inside
  binds frame _ name := by rw [bindings_child]

/-- Below the limit a name is bound only where it is bound already. -/
theorem define (forest : Forest Value) {frame : FrameId} {name : String} (value : Value)
    (reached : limit ≤ forest.size)
    (allowed : frame < limit → (forest.bindings frame).binds name = true) :
    Contains limit forest (forest.define frame name value) where
  size := by simp
  chain other _ := chain_define _ _ _ _ _
  binds other below key := by
    by_cases same : frame = other
    · subst same
      rw [bindings_define_self _ _ _ (Nat.lt_of_lt_of_le below reached), Table.binds_insert]
      by_cases isName : name = key
      · subst isName
        simp [allowed below]
      · simp [isName]
    · rw [bindings_define_of_ne _ _ _ same]

end Contains

namespace Confines

theorem mono (confines : earlier.Confines limit frame around part) (inside : frame < earlier.size)
    (contains : earlier.Contains limit later) : later.Confines limit frame around part := by
  refine Part.Outward.mono confines fun further name bound holder there below => ?_
  rw [contains.chain frame inside] at there
  rw [contains.binds holder below]
  exact bound holder there below

/-- In a frame that has been made inside, the outermost construct around the part is entered. -/
theorem enter {construct : Construct} {inner : FrameId}
    (confines : earlier.Confines limit frame (around ++ [construct]) part)
    (contains : earlier.Contains limit later) (isNew : limit ≤ inner)
    (chain : later.chain inner = inner :: earlier.chain frame) :
    later.Confines limit inner around part := by
  refine Part.Outward.enter confines ?_ ?_
  · intro name holder there below
    rw [chain] at there
    cases there
    exact absurd below (Nat.not_lt_of_le isNew)
  · intro further name bound holder there below
    rw [chain, List.getElem?_cons_succ] at there
    rw [contains.binds holder below]
    exact bound holder there below

/-- What lies directly inside. -/
theorem inside (confines : forest.Confines limit frame around part) {index : Nat}
    {child : Part Site} (there : part.children[index]? = some child) :
    forest.Confines limit frame (part.opens index ++ around) child :=
  Part.Outward.inside confines there

/-- What the part itself stores. -/
theorem root (confines : forest.Confines limit frame [] part) {name : String} {distance : Nat}
    (stores : part.stores? = some (name, distance)) {holder : FrameId}
    (there : (forest.chain frame)[distance]? = some holder) (below : holder < limit) :
    (forest.bindings holder).binds name = true :=
  Part.Outward.root confines stores (Nat.zero_add distance).symm holder there below

/-- The declaration of a function is confined like a method. -/
theorem ofFunction {decl : FunctionDecl Site}
    (confines : forest.Confines limit frame around (.stmt (.function decl))) :
    forest.Confines limit frame around (.method decl) :=
  Part.Outward.of_children rfl fun _ _ there => confines.inside there

end Confines

end Forest

section Later

variable {earlier later : Forest Value} (contains : earlier.Contains limit later)

include contains

theorem ClassValue.Confined.mono {cls : ClassValue} (confined : cls.Confined limit earlier) :
    cls.Confined limit later := by
  intro entry member name method found
  obtain ⟨inside, body⟩ := confined entry member name method found
  exact ⟨Nat.lt_of_lt_of_le inside contains.size, body.mono inside contains⟩

theorem Value.Confined.mono {value : Value} (confined : value.Confined limit earlier) :
    value.Confined limit later := by
  cases value with
  | closure closure =>
      obtain ⟨inside, body⟩ := confined
      exact ⟨Nat.lt_of_lt_of_le inside contains.size, body.mono inside contains⟩
  | «class» cls => exact ClassValue.Confined.mono contains confined
  | object id cls => exact ClassValue.Confined.mono contains confined
  | _ => trivial

end Later

namespace Machine.Confined

variable {machine later : Machine} (confined : machine.Confined limit)

include confined

/-- Only what is new has to be looked at. -/
theorem step (contains : machine.forest.Contains limit later.forest)
    (values : ∀ frame name value, (later.forest.bindings frame).get? name = some value →
      (machine.forest.bindings frame).get? name = some value ∨
        value.Confined limit later.forest)
    (fields : ∀ id name value, (later.fields id).get? name = some value →
      (machine.fields id).get? name = some value ∨ value.Confined limit later.forest) :
    (confinement limit).Leads machine later := by
  refine ⟨contains, Nat.le_trans confined.reached contains.size, ?_, ?_⟩
  · intro frame name value found
    rcases values frame name value found with before | isConfined
    · exact (confined.values frame name value before).mono contains
    · exact isConfined
  · intro id name value found
    rcases fields id name value found with before | isConfined
    · exact (confined.fields id name value before).mono contains
    · exact isConfined

theorem rest (sameForest : later.forest = machine.forest)
    (sameObjects : later.objects = machine.objects) : (confinement limit).Leads machine later := by
  refine confined.step (sameForest ▸ .refl _) ?_ ?_
  · exact fun frame name value found => .inl (sameForest ▸ found)
  · exact fun id name value found => .inl (Machine.fields_eq sameObjects id ▸ found)

theorem define {frame : FrameId} {name : String} {value : Value}
    (allowed : frame < limit → (machine.forest.bindings frame).binds name = true)
    (good : value.Confined limit machine.forest) :
    (confinement limit).Leads machine (machine.define frame name value) := by
  have contains := Forest.Contains.define machine.forest value confined.reached allowed
  refine confined.step contains ?_ fun id key found there => .inl there
  intro other key found there
  rcases Forest.get?_define there with before | ⟨-, rfl, rfl⟩
  · exact .inl before
  · exact .inr (good.mono contains)

theorem child (parent : FrameId) :
    (confinement limit).Leads machine (machine.child parent) :=
  confined.step (.child _ _) (fun _ _ _ there => .inl (Machine.get?_child there))
    fun _ _ _ there => .inl there

/-- In frames from the limit on any name may be bound. -/
theorem defineAbove {frame : FrameId} (isNew : limit ≤ frame) (name : String) {value : Value}
    (good : value.Confined limit machine.forest) :
    (confinement limit).Leads machine (machine.define frame name value) :=
  confined.define (fun below => absurd below (Nat.not_lt_of_le isNew)) good

omit confined in
theorem defineParams (confined : machine.Confined limit) {frame : FrameId} (isNew : limit ≤ frame)
    {params : List Token} {args : List Value}
    (good : ∀ arg ∈ args, arg.Confined limit machine.forest) :
    (confinement limit).Leads machine
      { machine with forest := machine.forest.defineParams frame params args } := by
  induction params generalizing machine args with
  | nil => exact confined.rest rfl rfl
  | cons param params induction =>
      cases args with
      | nil => exact confined.rest rfl rfl
      | cons arg args =>
          obtain ⟨argGood, othersGood⟩ := List.forall_mem_cons.1 good
          have defined := confined.defineAbove isNew param.lexeme argGood
          have others := induction defined.ok
            fun other member => (othersGood other member).mono defined.follows
          exact ⟨defined.follows.trans others.follows, others.ok⟩

/-- What is bound first in a new frame. -/
theorem fresh (parent : FrameId) (name : String) {value : Value}
    (good : value.Confined limit machine.forest) :
    (confinement limit).Leads machine
      ((machine.child parent).define machine.forest.size name value) := by
  have grown := confined.child parent
  have defined := grown.ok.defineAbove confined.reached name (good.mono grown.follows)
  exact ⟨grown.follows.trans defined.follows, defined.ok⟩

theorem block {body : List (Stmt Site)}
    (confines : machine.forest.Confines limit machine.current [] (.stmt (.block body))) :
    (confinement limit).Leads machine (machine.child machine.current) ∧ ∀ s ∈ body,
      (confinement limit).Fits (machine.child machine.current) machine.forest.size (.stmt s) := by
  have grown := confined.child machine.current
  refine ⟨grown, fun s member => ⟨by simp, ?_⟩⟩
  obtain ⟨index, there⟩ := List.getElem?_of_mem member
  have child : (Part.stmt (.block body)).children[index]? = some (.stmt s) := by
    simp [Part.children, there]
  exact (confines.inside child).enter grown.follows confined.reached (Forest.chain_child_self _ _)

theorem call {closure : Closure} {args : List Value}
    (closureConfined : closure.Confined limit machine.forest)
    (argsConfined : ∀ arg ∈ args, arg.Confined limit machine.forest) :
    (confinement limit).Leads machine (machine.entered closure args) ∧ ∀ s ∈ closure.decl.body,
      (confinement limit).Fits (machine.entered closure args) machine.forest.size (.stmt s) := by
  have grown := confined.child closure.frame
  have filled : (confinement limit).Leads (machine.child closure.frame)
      (machine.entered closure args) :=
    grown.ok.defineParams confined.reached
      fun arg member => (argsConfined arg member).mono grown.follows
  have isNew : machine.forest.size < (machine.child closure.frame).forest.size := by simp
  have contains := grown.follows.trans filled.follows
  refine ⟨⟨contains, filled.ok⟩, fun s member =>
    ⟨Nat.lt_of_lt_of_le isNew filled.follows.size, ?_⟩⟩
  obtain ⟨index, there⟩ := List.getElem?_of_mem member
  have child : (Part.method closure.decl).children[index]? = some (.stmt s) := by
    simp [Part.children, there]
  apply (closureConfined.body.inside child).enter contains confined.reached
  rw [filled.follows.chain _ isNew, Machine.forest_child, Forest.chain_child_self]

theorem function {decl : FunctionDecl Site} (inside : machine.current < machine.forest.size)
    (confines : machine.forest.Confines limit machine.current [] (.stmt (.function decl))) :
    (confinement limit).Leads machine (machine.withFunction decl) := by
  have counted : (confinement limit).Leads machine { machine with serial := machine.serial + 1 } :=
    confined.rest rfl rfl
  have good : (Value.closure ⟨machine.serial, decl, machine.current, false⟩).Confined limit
      machine.forest := ⟨inside, confines.ofFunction⟩
  have defined := counted.ok.define (confines.root rfl rfl) good
  exact ⟨counted.follows.trans defined.follows, defined.ok⟩

theorem tie {cls : ClassValue} {name : String} {method : Closure} {object : Value}
    (classConfined : cls.Confined limit machine.forest) (found : cls.method? name = some method)
    (objectConfined : object.Confined limit machine.forest) :
    (confinement limit).Leads machine (machine.tied method object) ∧
      (machine.tie method).Confined limit (machine.tied method object).forest := by
  obtain ⟨entry, member, inEntry⟩ := List.exists_of_findSome?_eq_some found
  obtain ⟨_, body⟩ := classConfined entry member name method inEntry
  have made := confined.fresh method.frame "this" objectConfined
  have counted : (confinement limit).Leads _ (machine.tied method object) := made.ok.rest rfl rfl
  have contains := made.follows.trans counted.follows
  refine ⟨⟨contains, counted.ok⟩, ?_, ?_⟩
  · have isNew : machine.forest.size < (machine.child method.frame).forest.size := by simp
    exact Nat.lt_of_lt_of_le isNew (Nat.le_of_eq (Forest.size_define _ _ _ _).symm)
  · apply Forest.Confines.enter body contains confined.reached
    exact (Forest.chain_define _ _ _ _ _).trans (Forest.chain_child_self _ _)

/-- The bodies of the methods of a class that is declared are confined in the frame around them. -/
theorem aroundMethods {name : Token} {parent : Option (Superclass Site)}
    {methods : List (FunctionDecl Site)} {superclass : Option ClassValue}
    (inside : machine.current < machine.forest.size)
    (confines : machine.forest.Confines limit machine.current []
      (.stmt (.class name parent methods)))
    (sameKind : superclass.isSome = parent.isSome)
    (good : ∀ cls ∈ superclass, cls.Confined limit machine.forest) :
    (confinement limit).Leads machine (machine.aroundMethods superclass) ∧
      machine.methodFrame superclass < (machine.aroundMethods superclass).forest.size ∧
      ∀ decl ∈ methods, (machine.aroundMethods superclass).forest.Confines limit
        (machine.methodFrame superclass) [["this"]] (.method decl) := by
  cases superclass with
  | none =>
      cases parent with
      | some parent => cases sameKind
      | none =>
          refine ⟨confined.rest rfl rfl, inside, fun decl member => ?_⟩
          obtain ⟨index, there⟩ := List.getElem?_of_mem member
          have child : (Part.stmt (.class name none methods)).children[index]? =
              some (.method decl) := by
            simp [Part.children, there]
          exact confines.inside child
  | some cls =>
      cases parent with
      | none => cases sameKind
      | some parent =>
          have classGood : (Value.class cls).Confined limit machine.forest := good cls rfl
          have made := confined.fresh machine.current "super" classGood
          refine ⟨made, ?_, fun decl member => ?_⟩
          · simp [Machine.methodFrame, Machine.aroundMethods]
          · obtain ⟨index, there⟩ := List.getElem?_of_mem member
            have child : (Part.stmt (.class name (some parent) methods)).children[index + 1]? =
                some (.method decl) := by
              simp [Part.children, there]
            apply Forest.Confines.enter (confines.inside child) made.follows confined.reached
            exact (Forest.chain_define _ _ _ _ _).trans (Forest.chain_child_self _ _)

theorem withClass {name : Token} {parent : Option (Superclass Site)}
    {methods : List (FunctionDecl Site)} {superclass : Option ClassValue}
    (inside : machine.current < machine.forest.size)
    (confines : machine.forest.Confines limit machine.current []
      (.stmt (.class name parent methods)))
    (sameKind : superclass.isSome = parent.isSome)
    (good : ∀ cls ∈ superclass, cls.Confined limit machine.forest) :
    (confinement limit).Leads machine (machine.withClass name superclass methods) := by
  have nilConfined : Value.nil.Confined limit machine.forest := trivial
  have named : (confinement limit).Leads machine
      (machine.define machine.current name.lexeme .nil) :=
    confined.define (confines.root rfl rfl) nilConfined
  have stillConfines := confines.mono inside named.follows
  have stillInside := Nat.lt_of_lt_of_le inside named.follows.size
  obtain ⟨around, methodsInside, methodsConfined⟩ := named.ok.aroundMethods stillInside
    stillConfines sameKind fun cls member => (good cls member).mono named.follows
  rw [Machine.methodFrame_define] at methodsInside methodsConfined
  have contains := named.follows.trans around.follows
  have classConfined : (machine.newClass name superclass methods).Confined limit
      ((machine.define machine.current name.lexeme .nil).aroundMethods superclass).forest := by
    intro entry member methodName method found
    rcases List.mem_cons.1 member with rfl | inherited
    · rcases Machine.of_methodsFrom found with impossible | ⟨sameFrame, declared⟩
      · cases impossible
      · exact ⟨sameFrame ▸ methodsInside, sameFrame ▸ methodsConfined _ declared⟩
    · -- The superclass and its own superclasses have been confined before.
      cases superclass with
      | none => cases inherited
      | some cls =>
          exact (good cls rfl).mono contains entry inherited methodName method found
  have counted : (confinement limit).Leads
      ((machine.define machine.current name.lexeme .nil).aroundMethods superclass)
      { (machine.define machine.current name.lexeme .nil).aroundMethods superclass with
        serial := machine.serial + methods.length + 1 } := around.ok.rest rfl rfl
  have finallyConfines := confines.mono inside contains
  have classGood : (Value.class (machine.newClass name superclass methods)).Confined limit _ :=
    classConfined
  have defined : (confinement limit).Leads _ (machine.withClass name superclass methods) :=
    counted.ok.define (finallyConfines.root rfl rfl) classGood
  exact ⟨contains.trans (counted.follows.trans defined.follows), defined.ok⟩

theorem create {cls : ClassValue} (classConfined : cls.Confined limit machine.forest) :
    (confinement limit).Leads machine machine.created ∧
      (Value.object machine.objects.size cls).Confined limit machine.created.forest := by
  refine ⟨confined.step (.refl _) (fun _ _ _ there => .inl there) ?_, classConfined⟩
  intro id name value found
  rw [Machine.fields_created] at found
  exact .inl found

theorem set {id : Nat} {name : String} {value : Value}
    (good : value.Confined limit machine.forest) :
    (confinement limit).Leads machine (machine.withField id name value) := by
  refine confined.step (.refl _) (fun _ _ _ there => .inl there) ?_
  intro other key found there
  rcases Machine.get?_withField there with before | rfl
  · exact .inl before
  · exact .inr good

/-- An assignment binds a name where it is bound, if that is below the limit: at the top level
because the search has found it, at a distance because the assignment is confined. -/
theorem assign {name : Token} {site : Site} {source : Expr Site} {value : Value} {frame : FrameId}
    (confines : machine.forest.Confines limit machine.current [] (.expr (.assign name site source)))
    (good : value.Confined limit machine.forest)
    (target : Run.target machine.forest machine.current name.lexeme site = .ok frame) :
    (confinement limit).Leads machine (machine.define frame name.lexeme value) := by
  refine confined.define (fun below => ?_) good
  cases site with
  | none => exact Forest.binds_of_holder target
  | some distance => exact confines.root rfl (Forest.ancestor_eq_ok.1 target) below

end Machine.Confined

/-- Runs leave the sets of the names that older frames bind as they are. -/
def containment (limit : FrameId) : Discipline where
  toJudgement := confinement limit
  refl machine := .refl machine.forest
  trans one other := Forest.Contains.trans one other
  good_later follows good := Value.Confined.mono follows good
  fits_later := by
    rintro earlier later frame part contains ⟨inside, confines⟩
    exact ⟨Nat.lt_of_lt_of_le inside contains.size, confines.mono inside contains⟩
  rest confined sameForest sameObjects _ := confined.rest sameForest sameObjects
  plain := by
    intro value machine isPlain
    cases value <;> trivial
  bound confined found := confined.values _ _ _ found
  field confined found := confined.fields _ _ _ found
  inside := by
    rintro machine frame part index child ⟨inside, confines⟩ there noOpen
    have childConfines := confines.inside there
    rw [noOpen, List.nil_append] at childConfines
    exact ⟨inside, childConfines⟩
  superclass fits := ⟨fits.1, Part.Outward.of_children rfl nofun⟩
  block confined fits := confined.block fits.2
  call confined good argsGood _ := confined.call good argsGood
  declareVar confined fits good := confined.define (fits.2.root rfl rfl) good
  assign confined fits good target := confined.assign fits.2 good target
  declareFunction confined fits := confined.function fits.1 fits.2
  declareClass confined fits sameKind good := confined.withClass fits.1 fits.2 sameKind good
  classOf good := good
  tie confined classGood found objectGood _ := confined.tie classGood found objectGood
  create confined good := confined.create good
  set confined _ good := confined.set good

end LoxLang
