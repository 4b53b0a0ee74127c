import LoxLang.Proofs.Parser.Naming
import LoxLang.Proofs.Run.Discipline
import LoxLang.Proofs.Scope.Placement

/-!
# Classes and their superclasses

No part of a program can bind `this` or `super` by itself: only the frames that are
made around the methods of a class, and when a method is bound, bind them, and they do
so once and for all.  So the frame of a method binds `super` to the superclass as it
was when its class was declared.  And in each frame `super` is bound as far outwards as
the text says.
-/

namespace LoxLang

namespace Construct

/-- Each construct that holds `super` lies directly around one that holds `this`. -/
def Paired (around : List Construct) : Prop :=
  ∀ (index : Nat) (construct : Construct), around[index]? = some construct → "super" ∈ construct →
    ∃ nearer layer, index = nearer + 1 ∧ around[nearer]? = some layer ∧ "this" ∈ layer

namespace Paired

variable {around : List Construct}

theorem nil : Paired [] := by
  intro index construct there
  cases there

theorem cons {construct : Construct} (paired : Paired around) (notSuper : "super" ∉ construct) :
    Paired (construct :: around) := by
  intro index found there holds
  cases index with
  | zero =>
      cases there
      exact absurd holds notSuper
  | succ index =>
      obtain ⟨nearer, layer, rfl, inner, this⟩ := paired index found there holds
      exact ⟨nearer + 1, layer, rfl, inner, this⟩

/-- The layers around the methods of a class that has a superclass. -/
theorem derived (paired : Paired around) : Paired (["this"] :: ["super"] :: around) := by
  intro index found there holds
  match index with
  | 0 =>
      cases there
      simp at holds
  | 1 => exact ⟨0, ["this"], rfl, rfl, List.mem_singleton_self _⟩
  | index + 2 =>
      obtain ⟨nearer, layer, rfl, inner, this⟩ := paired index found there holds
      exact ⟨nearer + 2, layer, rfl, inner, this⟩

end Paired

end Construct

namespace Forest

variable {forest earlier later : Forest Value} {frame : FrameId}

/-- Frames stay where they are, and what they bind to words that are no names. -/
structure Precedes (earlier later : Forest Value) : Prop where
  size : earlier.size ≤ later.size
  chain : ∀ frame < earlier.size, later.chain frame = earlier.chain frame
  kin : ∀ frame < earlier.size, ∀ word, ¬ IsName word →
    (later.bindings frame).get? word = (earlier.bindings frame).get? word

namespace Precedes

theorem refl (forest : Forest Value) : Precedes forest forest :=
  ⟨Nat.le_refl _, fun _ _ => rfl, fun _ _ _ _ => rfl⟩

theorem trans {first second third : Forest Value} (one : Precedes first second)
    (other : Precedes second third) : Precedes first third where
  size := Nat.le_trans one.size other.size
  chain frame inside := by
    rw [other.chain frame (Nat.lt_of_lt_of_le inside one.size), one.chain frame inside]
  kin frame inside word noName := by
    rw [other.kin frame (Nat.lt_of_lt_of_le inside one.size) word noName,
      one.kin frame inside word noName]

theorem child (forest : Forest Value) (parent : FrameId) :
    Precedes forest (forest.child parent) where
  size := by simp
  chain _ inside := chain_child_of_lt forest parent inside
  kin frame _ word _ := by rw [bindings_child]

theorem define (forest : Forest Value) (frame : FrameId) {name : String} (value : Value)
    (isName : IsName name) : Precedes forest (forest.define frame name value) where
  size := by simp
  chain other _ := chain_define _ _ _ _ _
  kin other inside word noName := by
    by_cases same : frame = other
    · subst same
      rw [bindings_define_self forest name value inside, Table.get?_insert_of_ne]
      rintro rfl
      exact noName isName
    · rw [bindings_define_of_ne forest name value same]

theorem defineParams (forest : Forest Value) (frame : FrameId) {params : List Token}
    {args : List Value} (names : ∀ param ∈ params, IsName param.lexeme) :
    Precedes forest (forest.defineParams frame params args) := by
  induction params generalizing forest args with
  | nil => exact .refl forest
  | cons param params induction =>
      cases args with
      | nil => exact .refl forest
      | cons arg args =>
          obtain ⟨isName, otherNames⟩ := List.forall_mem_cons.1 names
          exact (define forest frame arg isName).trans (induction _ otherNames)

/-- Whatever is bound in a new frame. -/
theorem fresh (forest : Forest Value) (parent : FrameId) (name : String) (value : Value) :
    Precedes forest ((forest.child parent).define forest.size name value) where
  size := by simp
  chain frame inside := by rw [chain_define, (child forest parent).chain frame inside]
  kin frame inside word _ := by
    rw [bindings_define_of_ne _ _ _ (Nat.ne_of_gt inside), bindings_child]

end Precedes

/-- In the chain of the frame `this` and `super` are bound by just those frames that belong to a
construct that holds them. -/
structure Surrounds (forest : Forest Value) (frame : FrameId) (around : List Construct) : Prop where
  inside : ∀ other ∈ forest.chain frame, other < forest.size
  kin : ∀ word, ¬ IsName word →
    (forest.chain frame).map (fun other => (forest.bindings other).binds word) =
      around.map (fun construct => decide (word ∈ construct)) ++ [false]

namespace Surrounds

variable {around : List Construct}

theorem present (surrounds : forest.Surrounds frame around) : frame < forest.size :=
  surrounds.inside frame List.mem_cons_self

theorem mono (surrounds : earlier.Surrounds frame around) (precedes : earlier.Precedes later) :
    later.Surrounds frame around := by
  have sameChain := precedes.chain frame surrounds.present
  refine ⟨?_, ?_⟩
  · intro other member
    rw [sameChain] at member
    exact Nat.lt_of_lt_of_le (surrounds.inside other member) precedes.size
  · intro word noName
    rw [sameChain, ← surrounds.kin word noName]
    apply List.map_congr_left
    intro other member
    unfold Table.binds
    rw [precedes.kin other (surrounds.inside other member) word noName]

/-- A new frame belongs to a construct that has been entered. -/
theorem enter {construct : Construct} {inner : FrameId} (surrounds : earlier.Surrounds frame around)
    (precedes : earlier.Precedes later) (inside : inner < later.size)
    (chain : later.chain inner = inner :: earlier.chain frame)
    (kin : ∀ word, ¬ IsName word →
      (later.bindings inner).binds word = decide (word ∈ construct)) :
    later.Surrounds inner (construct :: around) := by
  have outer := surrounds.mono precedes
  rw [← precedes.chain frame surrounds.present] at chain
  refine ⟨?_, ?_⟩
  · rw [chain]
    exact List.forall_mem_cons.2 ⟨inside, outer.inside⟩
  · intro word noName
    rw [chain, List.map_cons, kin word noName, outer.kin word noName]
    rfl

/-- A new frame that binds a word belongs to a layer that holds it. -/
theorem fresh (surrounds : forest.Surrounds frame around) (word : String) (value : Value) :
    ((forest.child frame).define forest.size word value).Surrounds forest.size
      ([word] :: around) := by
  refine surrounds.enter (.fresh forest frame word value) (by simp) ?_ ?_
  · rw [chain_define, chain_child_self]
  · intro other _
    rw [bindings_define_child, Table.binds_insert]
    simp [Table.binds, eq_comm]

/-- Where the text has `super`, there is the nearest frame that binds it. -/
theorem distance (surrounds : forest.Surrounds frame around) :
    Construct.distance? around "super" =
      (forest.chain frame).findIdx? fun other => (forest.bindings other).binds "super" := by
  have inChain : ((forest.chain frame).map fun other =>
      (forest.bindings other).binds "super").findIdx? id =
        (forest.chain frame).findIdx? fun other => (forest.bindings other).binds "super" :=
    List.findIdx?_map
  have inText : (around.map fun construct => decide ("super" ∈ construct)).findIdx? id =
      Construct.distance? around "super" := List.findIdx?_map
  rw [← inChain, ← inText, surrounds.kin "super" fun isName => isName.2 rfl, List.findIdx?_append]
  simp

/-- What a construct holds is bound by the frame that belongs to it. -/
theorem binds (surrounds : forest.Surrounds frame around) {word : String} (noName : ¬ IsName word)
    {index : Nat} {construct : Construct} (there : around[index]? = some construct)
    (holds : word ∈ construct) :
    ∃ other, (forest.chain frame)[index]? = some other ∧
      (forest.bindings other).binds word = true := by
  have same := congrArg (·[index]?) (surrounds.kin word noName)
  obtain ⟨inside, rfl⟩ := List.getElem?_eq_some_iff.1 there
  simp only [List.getElem?_map] at same
  rw [List.getElem?_append_left (by simpa using inside), List.getElem?_map, there] at same
  obtain ⟨other, isOther, bound⟩ := Option.map_eq_some_iff.1 same
  exact ⟨other, isOther, by simpa [holds] using bound⟩

end Surrounds

end Forest

/-- The site of a reference holds the distance to its name, as that of `super` always does, and the
part is ordinary. -/
structure Part.IsSettled (around : List Construct) (part : Part Site) : Prop where
  located : part.IsLocated around
  known : ∀ keyword method site, part = .expr (.super keyword method site) → site.isSome = true
  ordinary : part.IsOrdinary

/-- All parts of the part are settled. -/
abbrev Part.Settled (around : List Construct) (part : Part Site) : Prop :=
  part.Throughout IsSettled around

namespace Part.Settled

variable {around : List Construct} {part : Part Site}

theorem root (settled : part.Settled around) : part.IsSettled around :=
  (throughout_iff.1 settled).1

theorem inside (settled : part.Settled around) (index : Nat) {child : Part Site}
    (there : part.children[index]? = some child) :
    child.Settled (part.opens index ++ around) :=
  (throughout_iff.1 settled).2 index child there

/-- The declaration of a function is settled like a method. -/
theorem ofFunction {decl : FunctionDecl Site}
    (settled : (Part.stmt (.function decl)).Settled around) :
    (Part.method decl).Settled around := by
  refine throughout_iff.2 ⟨⟨?_, ?_, settled.root.ordinary⟩,
    fun index _ there => settled.inside index there⟩
  · intro kind name site isReference
    cases isReference
  · intro keyword method site isSuper
    cases isSuper

end Part.Settled

/-- A method that is found stands in the class or in one of its ancestors. -/
theorem ClassValue.suffix_of_method? {cls : ClassValue} {name : String} {method : Closure}
    (found : cls.method? name = some method) :
    ∃ entry ancestors, entry :: ancestors <:+ cls.chain ∧
      entry.methods.get? name = some method := by
  obtain ⟨entry, member, inEntry⟩ := List.exists_of_findSome?_eq_some found
  obtain ⟨nearer, ancestors, split⟩ := List.append_of_mem member
  exact ⟨entry, ancestors, ⟨nearer, split.symm⟩, inEntry⟩

/-- A class is known by its chain. -/
theorem ClassValue.eq_of_chain_eq {cls other : ClassValue} (same : cls.chain = other.chain) :
    cls = other := by
  obtain ⟨own, ancestors⟩ := cls
  obtain ⟨otherOwn, otherAncestors⟩ := other
  obtain ⟨rfl, rfl⟩ := List.cons.inj same
  rfl

section Values

variable (forest : Forest Value)

/-- The part is settled in constructs that surround the frame. -/
def Forest.Carries (frame : FrameId) (part : Part Site) : Prop :=
  ∃ around, forest.Surrounds frame around ∧ Construct.Paired around ∧ part.Settled around

/-- The function's frame surrounds what is known of its body. -/
def Closure.Settled (closure : Closure) : Prop :=
  forest.Carries closure.frame (.method closure.decl)

/-- A method of a class with these ancestors is settled inside a frame for `this`, and its own frame
binds `super` to the class that they are the chain of. -/
structure Closure.MethodSettled (ancestors : List ClassEntry) (method : Closure) : Prop where
  carried : ∃ around, forest.Surrounds method.frame around ∧
    Construct.Paired (["this"] :: around) ∧
    (Part.method method.decl).Settled (["this"] :: around)
  super : ∀ superclass : ClassValue, superclass.chain = ancestors →
    (forest.bindings method.frame).get? "super" = some (.class superclass)

/-- The methods of a class and of its superclasses are settled. -/
def ClassValue.Settled (cls : ClassValue) : Prop :=
  ∀ entry ancestors, entry :: ancestors <:+ cls.chain →
    ∀ name method, entry.methods.get? name = some method → method.MethodSettled forest ancestors

/-- Whatever functions can be reached from the value are settled. -/
def Value.Settled : Value → Prop
  | .closure function => function.Settled forest
  | .class cls => cls.Settled forest
  | .object _ cls => cls.Settled forest
  | _ => True

end Values

/-- The value may be bound to the word: to `this` an object, and to `super` a class. -/
structure Value.Serves (word : String) (value : Value) : Prop where
  this : word = "this" → ∃ id cls, value = .object id cls
  super : word = "super" → ∃ cls, value = .class cls

theorem Value.Serves.of_isName {word : String} (isName : IsName word) (value : Value) :
    value.Serves word :=
  ⟨fun isThis => absurd isThis isName.1, fun isSuper => absurd isSuper isName.2⟩

/-- All values that a machine keeps are settled, and the frame of the top level is outermost. -/
structure Machine.Settled (machine : Machine) : Prop where
  top : machine.forest.Surrounds globalFrame []
  inside : ∀ frame < machine.forest.size, ∀ other ∈ machine.forest.chain frame,
    other < machine.forest.size
  values : ∀ frame name value, (machine.forest.bindings frame).get? name = some value →
    value.Settled machine.forest ∧ value.Serves name
  fields : ∀ id name value, (machine.fields id).get? name = some value →
    value.Settled machine.forest

/-- What is asked of runs so that `super` and `this` keep their meaning. -/
def kin : Judgement where
  Ok := Machine.Settled
  Good value machine := value.Settled machine.forest
  Fits machine frame part := machine.forest.Carries frame part
  Follows earlier later := earlier.forest.Precedes later.forest

section Later

variable {earlier later : Forest Value} (precedes : earlier.Precedes later)

include precedes

theorem Forest.Carries.mono {frame : FrameId} {part : Part Site}
    (carries : earlier.Carries frame part) : later.Carries frame part := by
  obtain ⟨around, surrounds, settled⟩ := carries
  exact ⟨around, surrounds.mono precedes, settled⟩

theorem Closure.MethodSettled.mono {ancestors : List ClassEntry} {method : Closure}
    (settled : method.MethodSettled earlier ancestors) :
    method.MethodSettled later ancestors := by
  obtain ⟨around, surrounds, carried⟩ := settled.carried
  refine ⟨⟨around, surrounds.mono precedes, carried⟩, ?_⟩
  intro superclass isSuperclass
  rw [precedes.kin method.frame surrounds.present "super" fun isName => isName.2 rfl]
  exact settled.super superclass isSuperclass

theorem ClassValue.Settled.mono {cls : ClassValue} (settled : cls.Settled earlier) :
    cls.Settled later :=
  fun entry ancestors suffix name method found =>
    (settled entry ancestors suffix name method found).mono precedes

theorem Value.Settled.mono {value : Value} (settled : value.Settled earlier) :
    value.Settled later := by
  cases value with
  | closure closure => exact Forest.Carries.mono precedes settled
  | «class» cls => exact ClassValue.Settled.mono precedes settled
  | object id cls => exact ClassValue.Settled.mono precedes settled
  | _ => trivial

end Later

/-- The statements of a body may be run in the frame that is made for it. -/
theorem Forest.Surrounds.body {earlier later : Forest Value} {frame inner : FrameId}
    {around : List Construct} (surrounds : earlier.Surrounds frame around)
    (paired : Construct.Paired around) (precedes : earlier.Precedes later)
    (inside : inner < later.size) (chain : later.chain inner = inner :: earlier.chain frame)
    (unbound : ∀ word, ¬ IsName word → (later.bindings inner).get? word = none)
    (params : List Token) {body : List (Stmt Site)}
    (names : ∀ param ∈ params, IsName param.lexeme)
    (settled : ∀ (index : Nat) (s : Stmt Site), body[index]? = some s →
      (Part.stmt s).Settled (Construct.heldAt params body index :: around)) :
    ∀ s ∈ body, later.Carries inner (.stmt s) := by
  have ordinary : ∀ s ∈ body, (Part.stmt s).IsOrdinary := by
    intro s member
    obtain ⟨index, there⟩ := List.getElem?_of_mem member
    exact (settled index s there).root.ordinary
  intro s member
  obtain ⟨index, there⟩ := List.getElem?_of_mem member
  have notHeld (word : String) (noName : ¬ IsName word) :
      word ∉ Construct.heldAt params body index :=
    fun held => noName (Construct.heldAt_names names ordinary index word held)
  have kin (word : String) (noName : ¬ IsName word) : (later.bindings inner).binds word =
      decide (word ∈ Construct.heldAt params body index) := by
    simp [Table.binds, unbound word noName, notHeld word noName]
  exact ⟨_, surrounds.enter precedes inside chain kin,
    paired.cons (notHeld "super" fun isName => isName.2 rfl), settled index s there⟩

end LoxLang
