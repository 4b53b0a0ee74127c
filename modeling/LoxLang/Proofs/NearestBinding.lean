import LoxLang.Proofs.Links
import Mathlib.Data.Nat.Find

/-!
# The nearest binding

There are two ways to a binding: to search the frames around a frame for a name, and to
climb a known number of links outwards.  They lead to the same binding if the number is
the least one at which the name is bound.  What is written there is seen from all frames
whose search ends there, and nothing else in the forest changes.
-/

namespace LoxLang

section Climbing

variable {α : Type} {next : α → Option α} {element : α} {elements : List α}

/-- Follow a number of links, if there are so many. -/
def climb (next : α → Option α) : (distance : Nat) → α → Option α
  | 0, element => some element
  | distance + 1, element => (next element).bind (climb next distance)

theorem Links.climb_eq (links : Links next element elements) (distance : Nat) :
    climb next distance element = elements[distance]? := by
  induction links generalizing distance with
  | last ends => cases distance <;> simp [climb, ends]
  | link leads _ induction => cases distance <;> simp [climb, leads, induction]

end Climbing

namespace Table

variable {V : Type}

theorem lookup_isSome_iff (name : String) (entries : List (String × V)) :
    (lookup name entries).isSome = true ↔ name ∈ entries.map Prod.fst := by
  induction entries with
  | nil => simp [lookup]
  | cons entry rest induction =>
      obtain ⟨key, value⟩ := entry
      by_cases same : key = name
      · simp [lookup, same]
      · simp [lookup, same, Ne.symm same, induction]

/-- Binding a name anew adds no name. -/
theorem names_insert_of_binds {table : Table V} {name : String} (binds : table.binds name = true)
    (value : V) : (table.insert name value).names = table.names := by
  have bound := (lookup_isSome_iff name table.entries).1 binds
  rw [names, insert, keys_replace, if_pos bound, names]

end Table

namespace Forest

variable {V : Type}

/-! ## Forests as they are built -/

/-- Some outermost frames and nothing else. -/
def outermost (V : Type) (count : Nat) : Forest V := ⟨Array.replicate count default⟩

/-- One change of a forest.  Frames are made and names bound without fail; a name is rebound
by searching for it or at a distance. -/
inductive Change (V : Type) where
  | child (parent : FrameId)
  | define (frame : FrameId) (name : String) (value : V)
  | assign (frame : FrameId) (name : Token) (value : V)
  | assignAt (frame : FrameId) (distance : Nat) (name : Token) (value : V)

/-- Let a forest go on to another, or stop where it is. -/
def going (name : Token) (site : Site) (next : Forest V → Except AccessError (Forest V)) :
    EStateM Stop (Forest V) Unit := fun forest =>
  match next forest with
  | .ok after => .ok () after
  | .error error => .error (Run.accessStop name site error) forest

/-- Read from a forest, or stop. -/
def reading (name : Token) (site : Site) (found : Forest V → Except AccessError V) :
    EStateM Stop (Forest V) V := fun forest =>
  match found forest with
  | .ok value => .ok value forest
  | .error error => .error (Run.accessStop name site error) forest

/-- Read a name by searching for it. -/
def search (frame : FrameId) (name : Token) : EStateM Stop (Forest V) V :=
  reading name none fun forest => forest.get frame name.lexeme

theorem search_eq_ok {forest : Forest V} {frame : FrameId} {name : Token} {value : V}
    (found : forest.get frame name.lexeme = .ok value) :
    search frame name forest = .ok value forest := by
  rw [search, reading, found]

/-- Read a name at a distance. -/
def reach (frame : FrameId) (distance : Nat) (name : Token) : EStateM Stop (Forest V) V :=
  reading name (some distance) fun forest => forest.getAt frame distance name.lexeme

theorem reach_eq_ok {forest : Forest V} {frame : FrameId} {distance : Nat} {name : Token}
    {value : V} (found : forest.getAt frame distance name.lexeme = .ok value) :
    reach frame distance name forest = .ok value forest := by
  rw [reach, reading, found]

namespace Change

/-- The frame from which a change sets out. -/
def start : Change V → FrameId
  | child parent => parent
  | define frame _ _ => frame
  | assign frame _ _ => frame
  | assignAt frame _ _ _ => frame

/-- Make a change. -/
def make : Change V → EStateM Stop (Forest V) Unit
  | child parent => fun forest => .ok () (forest.child parent)
  | define frame name value => fun forest => .ok () (forest.define frame name value)
  | assign frame name value =>
      going name none fun forest => forest.assign frame name.lexeme value
  | assignAt frame distance name value =>
      going name (some distance) fun forest => forest.assignAt frame distance name.lexeme value

/-- The forest after a change, whether or not it could be made. -/
def after (change : Change V) (forest : Forest V) : Forest V :=
  match change.make forest with
  | .ok _ after => after
  | .error _ after => after

/-- Whatever a change is, nothing happens, or a frame is added, or a name is bound. -/
theorem after_cases (change : Change V) (forest : Forest V) :
    change.after forest = forest ∨ change.after forest = forest.child change.start ∨
      ∃ frame name value, change.after forest = forest.define frame name value := by
  cases change with
  | child parent => exact .inr (.inl rfl)
  | define frame name value => exact .inr (.inr ⟨frame, name, value, rfl⟩)
  | assign frame name value =>
      simp only [after, make, going, Forest.assign]
      cases forest.holder frame name.lexeme with
      | error error => exact .inl rfl
      | ok holder => exact .inr (.inr ⟨holder, name.lexeme, value, rfl⟩)
  | assignAt frame distance name value =>
      simp only [after, make, going, Forest.assignAt]
      cases forest.ancestor frame distance with
      | error error => exact .inl rfl
      | ok holder => exact .inr (.inr ⟨holder, name.lexeme, value, rfl⟩)

end Change

/-- The forest comes from outermost frames by changes, each of which sets out from a frame that
there is. -/
inductive Built : Forest V → Prop where
  | outermost (count : Nat) : Built (outermost V count)
  | change {forest : Forest V} (built : Built forest) (change : Change V)
      (present : change.start < forest.size) : Built (change.after forest)

/-- Each frame is an outermost one or lies directly in an older one. -/
def Layered (forest : Forest V) : Prop :=
  ∀ frame < forest.size, forest.outer frame = [] ∨
    ∃ parent < frame, forest.outer frame = forest.chain parent

variable {forest : Forest V} {frame holder : FrameId} {distance : Nat} {name : String}

namespace Layered

theorem outermost (count : Nat) : (outermost V count).Layered := by
  intro frame _
  left
  simp only [Forest.outermost, outer, Array.getD_eq_getD_getElem?, Array.getElem?_replicate]
  split <;> rfl

theorem define (layered : forest.Layered) (frame : FrameId) (name : String) (value : V) :
    (forest.define frame name value).Layered := by
  simpa [Layered] using layered

theorem child (layered : forest.Layered) {parent : FrameId} (present : parent < forest.size) :
    (forest.child parent).Layered := by
  intro frame inside
  rcases Nat.lt_succ_iff_lt_or_eq.1 (size_child forest parent ▸ inside) with isOlder | rfl
  · rw [outer_child_of_lt forest parent isOlder]
    refine (layered frame isOlder).imp_right ?_
    rintro ⟨around, isEarlier, outer⟩
    refine ⟨around, isEarlier, ?_⟩
    rw [outer, chain_child_of_lt forest parent (Nat.lt_trans isEarlier isOlder)]
  · right
    refine ⟨parent, present, ?_⟩
    rw [outer_child_self, chain_child_of_lt forest parent present]

/-- Whatever the change is, a frame is added, a name is bound, or nothing happens. -/
theorem after (layered : forest.Layered) {change : Change V}
    (present : change.start < forest.size) : (change.after forest).Layered := by
  rcases change.after_cases forest with same | same | ⟨frame, name, value, same⟩ <;> rw [same]
  · exact layered
  · exact layered.child present
  · exact layered.define frame name value

/-- The chain of a frame is where the links lead. -/
theorem links (layered : forest.Layered) (inside : frame < forest.size) :
    Links forest.enclosing? frame (forest.chain frame) := by
  induction frame using Nat.strongRecOn with
  | ind frame induction =>
      rcases layered frame inside with alone | ⟨parent, isEarlier, outer⟩
      · rw [chain, alone]
        exact .last (by rw [enclosing?, alone, List.head?_nil])
      · rw [chain, outer]
        refine .link ?_ (induction parent isEarlier (Nat.lt_trans isEarlier inside))
        rw [enclosing?, outer, chain, List.head?_cons]

end Layered

theorem Built.layered (built : forest.Built) : forest.Layered := by
  induction built with
  | outermost count => exact .outermost count
  | change _ change present induction => exact induction.after present

/-! ## Searching and reaching -/

/-- The name is bound at a distance from a frame. -/
def BoundAt (forest : Forest V) (frame : FrameId) (name : String) (distance : Nat) : Prop :=
  ∃ holder, forest.ancestor frame distance = .ok holder ∧
    (forest.bindings holder).binds name = true

/-- The frame binds the name, and lies at the least distance at which the name is bound. -/
structure Nearest (forest : Forest V) (frame : FrameId) (name : String) (distance : Nat)
    (holder : FrameId) : Prop where
  ancestor : forest.ancestor frame distance = .ok holder
  binds : (forest.bindings holder).binds name = true
  least : ∀ nearer, forest.BoundAt frame name nearer → distance ≤ nearer

theorem exists_nearest (bound : forest.BoundAt frame name distance) :
    ∃ least holder, forest.Nearest frame name least holder := by
  classical
  have somewhere : ∃ distance, forest.BoundAt frame name distance := ⟨distance, bound⟩
  obtain ⟨holder, ancestor, binds⟩ := Nat.find_spec somewhere
  exact ⟨Nat.find somewhere, holder, ancestor, binds, fun nearer => Nat.find_min' somewhere⟩

namespace Nearest

/-- Up to the nearest frame none binds the name. -/
theorem split (nearest : forest.Nearest frame name distance holder) :
    ∃ inner outer, forest.chain frame = inner ++ holder :: outer ∧
      ∀ other ∈ inner, (forest.bindings other).binds name = false := by
  have there := ancestor_eq_ok.1 nearest.ancestor
  obtain ⟨inside, here⟩ := List.getElem?_eq_some_iff.1 there
  refine ⟨(forest.chain frame).take distance, (forest.chain frame).drop (distance + 1), ?_, ?_⟩
  · rw [← here, List.getElem_cons_drop, List.take_append_drop]
  · intro other member
    obtain ⟨nearer, bound, rfl⟩ := List.mem_take_iff_getElem.1 member
    have less : nearer < distance := Nat.lt_of_lt_of_le bound (Nat.min_le_left _ _)
    have ancestor := ancestor_eq_ok.2 (List.getElem?_eq_getElem (Nat.lt_trans less inside))
    refine Bool.eq_false_iff.2 fun binds => ?_
    exact Nat.not_le_of_lt less (nearest.least nearer ⟨_, ancestor, binds⟩)

theorem holder_eq (nearest : forest.Nearest frame name distance holder) :
    forest.holder frame name = .ok holder := by
  obtain ⟨inner, outer, chain, unbound⟩ := nearest.split
  have found : (forest.chain frame).find? (fun other => (forest.bindings other).binds name) =
      some holder := by
    have none : inner.find? (fun other => (forest.bindings other).binds name) = none :=
      List.find?_eq_none.2 fun other member => by simp [unbound other member]
    rw [chain, List.find?_append, none, Option.none_or]
    exact List.find?_cons_of_pos nearest.binds
  rw [Forest.holder, found]

/-- The search and the reach find the same value. -/
theorem value (nearest : forest.Nearest frame name distance holder) :
    ∃ value, (forest.bindings holder).get? name = some value ∧
      forest.get frame name = .ok value ∧ forest.getAt frame distance name = .ok value := by
  obtain ⟨value, bound⟩ := Option.isSome_iff_exists.1 nearest.binds
  obtain ⟨inner, outer, chain, unbound⟩ := nearest.split
  refine ⟨value, bound, ?_, ?_⟩
  · have found : (forest.chain frame).findSome? (fun other => (forest.bindings other).get? name) =
        some value :=
      List.findSome?_eq_some_iff.2 ⟨inner, holder, outer, chain, bound, fun other member =>
        Option.not_isSome_iff_eq_none.1 (Bool.eq_false_iff.1 (unbound other member))⟩
    rw [Forest.get, found]
  · rw [getAt, nearest.ancestor]
    simp [bind, Except.bind, pure, Except.pure, bound]

theorem assign_eq (nearest : forest.Nearest frame name distance holder) (value : V) :
    forest.assign frame name value = .ok (forest.define holder name value) := by
  rw [assign, nearest.holder_eq]
  rfl

theorem assignAt_eq (nearest : forest.Nearest frame name distance holder) (value : V) :
    forest.assignAt frame distance name value = .ok (forest.define holder name value) := by
  rw [assignAt, nearest.ancestor]
  rfl

end Nearest

section Unbound

variable (unbound : ∀ distance, ¬forest.BoundAt frame name distance)
include unbound

theorem binds_eq_false_of_unbound : ∀ other ∈ forest.chain frame,
    (forest.bindings other).binds name = false := by
  intro other member
  obtain ⟨distance, there⟩ := List.mem_iff_getElem?.1 member
  exact Bool.eq_false_iff.2 fun binds => unbound distance ⟨other, ancestor_eq_ok.2 there, binds⟩

theorem get_of_unbound : forest.get frame name = .error .undefined := by
  have nowhere := binds_eq_false_of_unbound unbound
  have found : (forest.chain frame).findSome? (fun other => (forest.bindings other).get? name) =
      none :=
    List.findSome?_eq_none_iff.2 fun other member =>
      Option.not_isSome_iff_eq_none.1 (Bool.eq_false_iff.1 (nowhere other member))
  rw [Forest.get, found]

theorem assign_of_unbound (value : V) : forest.assign frame name value = .error .undefined := by
  have nowhere := binds_eq_false_of_unbound unbound
  have found : (forest.chain frame).find? (fun other => (forest.bindings other).binds name) =
      none := List.find?_eq_none.2 fun other member => by simp [nowhere other member]
  rw [assign, holder, found]
  rfl

end Unbound

/-- The forest differs from another in the value of one binding, which was there before. -/
structure Rebound (forest : Forest V) (holder : FrameId) (name : String) (value : V)
    (after : Forest V) : Prop where
  size : after.size = forest.size
  outer : ∀ frame, after.outer frame = forest.outer frame
  names : ∀ frame, (after.bindings frame).names = (forest.bindings frame).names
  get? : ∀ frame key, (after.bindings frame).get? key =
    if frame = holder ∧ key = name then some value else (forest.bindings frame).get? key

theorem rebound_define (binds : (forest.bindings holder).binds name = true) (value : V) :
    forest.Rebound holder name value (forest.define holder name value) := by
  have present : holder < forest.size := by
    refine Nat.lt_of_not_le fun outside => ?_
    rw [bindings_of_size_le outside] at binds
    cases binds
  refine ⟨size_define .., fun frame => outer_define .., fun frame => ?_, fun frame key => ?_⟩
  · by_cases same : holder = frame
    · subst same
      rw [bindings_define_self _ _ _ present, Table.names_insert_of_binds binds]
    · rw [bindings_define_of_ne _ _ _ same]
  · by_cases same : holder = frame
    · subst same
      simp [bindings_define_self _ _ _ present, Table.get?_insert, eq_comm]
    · rw [bindings_define_of_ne _ _ _ same, if_neg fun both => same both.1.symm]

/-! ## The two ways agree -/

theorem Built.ancestor_eq_climb (built : forest.Built) (present : frame < forest.size)
    (distance : Nat) : forest.ancestor frame distance =
      (climb forest.enclosing? distance frame).elim (.error .beyondOutermost) .ok := by
  rw [(built.layered.links present).climb_eq, ancestor]
  cases (forest.chain frame)[distance]? <;> rfl

section Names

variable {name : Token}

theorem search_of_unbound (unbound : ∀ distance, ¬forest.BoundAt frame name.lexeme distance) :
    search frame name forest = .error (.error ⟨name, .undefinedVariable name.lexeme⟩) forest := by
  rw [search, reading, get_of_unbound unbound]
  rfl

theorem make_assign_of_unbound
    (unbound : ∀ distance, ¬forest.BoundAt frame name.lexeme distance) (value : V) :
    (Change.assign frame name value).make forest =
      .error (.error ⟨name, .undefinedVariable name.lexeme⟩) forest := by
  rw [Change.make, going, assign_of_unbound unbound]
  rfl

/-- Either way an assignment rebinds the name in the nearest frame. -/
theorem Nearest.rebinds
    (nearest : forest.Nearest frame name.lexeme distance holder) (value : V) :
    ∃ after, forest.Rebound holder name.lexeme value after ∧
      (Change.assign frame name value).make forest = .ok () after ∧
      (Change.assignAt frame distance name value).make forest = .ok () after := by
  refine ⟨_, rebound_define nearest.binds value, ?_, ?_⟩
  · rw [Change.make, going, nearest.assign_eq]
  · rw [Change.make, going, nearest.assignAt_eq]

theorem search_finds_iff : (∃ value, search frame name forest = .ok value forest) ↔
    ∃ distance, forest.BoundAt frame name.lexeme distance := by
  constructor
  · rintro ⟨value, searched⟩
    by_contra nowhere
    rw [search_of_unbound (not_exists.1 nowhere)] at searched
    cases searched
  · rintro ⟨distance, bound⟩
    obtain ⟨least, holder, nearest⟩ := exists_nearest bound
    obtain ⟨value, -, searched, -⟩ := nearest.value
    exact ⟨value, search_eq_ok searched⟩

theorem make_assign_iff {value : V} :
    (∃ after, (Change.assign frame name value).make forest = .ok () after) ↔
      ∃ distance, forest.BoundAt frame name.lexeme distance := by
  constructor
  · rintro ⟨after, assigned⟩
    by_contra nowhere
    rw [make_assign_of_unbound (not_exists.1 nowhere)] at assigned
    cases assigned
  · rintro ⟨distance, bound⟩
    obtain ⟨least, holder, nearest⟩ := exists_nearest bound
    obtain ⟨after, -, assigned, -⟩ := nearest.rebinds value
    exact ⟨after, assigned⟩

end Names

/-- Searching a name along the links and reaching it at a distance are the same thing.  In a forest
that is built from outermost frames, the frame at a distance is the one that so many links lead to,
and a name is found from a frame exactly if one of these frames binds it.  Then the search finds
what is bound at the least such distance, and to assign to the name, either way, rebinds it there
and changes nothing else.  Otherwise both stop with an error at the name, and the forest stays. -/
theorem search_agrees_with_reach {forest : Forest V} (built : forest.Built) {frame : FrameId}
    (present : frame < forest.size) (name : Token) :
    (∀ distance, forest.ancestor frame distance =
      (climb forest.enclosing? distance frame).elim (.error .beyondOutermost) .ok) ∧
    ((∃ value, search frame name forest = .ok value forest) ↔
      ∃ distance, forest.BoundAt frame name.lexeme distance) ∧
    (∀ value, (∃ after, (Change.assign frame name value).make forest = .ok () after) ↔
      ∃ found, search frame name forest = .ok found forest) ∧
    (∀ distance holder, forest.Nearest frame name.lexeme distance holder →
      (∃ value, (forest.bindings holder).get? name.lexeme = some value ∧
        search frame name forest = .ok value forest ∧
        reach frame distance name forest = .ok value forest) ∧
      ∀ value, ∃ after, forest.Rebound holder name.lexeme value after ∧
        (Change.assign frame name value).make forest = .ok () after ∧
        (Change.assignAt frame distance name value).make forest = .ok () after) ∧
    ((∀ distance, ¬forest.BoundAt frame name.lexeme distance) →
      let stop := Stop.error ⟨name, .undefinedVariable name.lexeme⟩
      search frame name forest = .error stop forest ∧
        ∀ value, (Change.assign frame name value).make forest = .error stop forest) := by
  refine ⟨built.ancestor_eq_climb present, search_finds_iff,
    fun value => make_assign_iff.trans search_finds_iff.symm, ?_, ?_⟩
  · intro distance holder nearest
    obtain ⟨value, bound, searched, reached⟩ := nearest.value
    exact ⟨⟨value, bound, search_eq_ok searched, reach_eq_ok reached⟩, nearest.rebinds⟩
  · intro unbound
    exact ⟨search_of_unbound unbound, make_assign_of_unbound unbound⟩

/-- A frame that binds `a`, two frames in it, and in the first of these another one that binds
`b`. -/
def branching : Forest Nat :=
  [Change.define 0 "a" 1, .child 0, .child 0, .child 1, .define 3 "b" 2].foldl
    (fun forest change => change.after forest) (outermost Nat 1)

theorem built_branching : branching.Built :=
  .change (.change (.change (.change (.change (.outermost 1) (.define 0 "a" 1) (by decide))
    (.child 0) (by decide)) (.child 0) (by decide)) (.child 1) (by decide)) (.define 3 "b" 2)
    (by decide)

/-- What is assigned to `a` from the innermost frame is seen from the other branch. -/
theorem search_agrees_with_reach_branches :
    let name : Token := ⟨⟨1, 0⟩, .identifier, "a"⟩
    branching.Built ∧ 3 < branching.size ∧ branching.Nearest 3 "a" 2 0 ∧
      ∃ after, branching.Rebound 0 "a" 7 after ∧
        (Change.assign 3 name 7).make branching = .ok () after ∧
        (Change.assignAt 3 2 name 7).make branching = .ok () after ∧
        search 2 name after = .ok 7 after := by
  intro name
  have present : 3 < branching.size := by decide
  have least : ∀ nearer, branching.BoundAt 3 "a" nearer → 2 ≤ nearer := by
    rintro nearer ⟨holder, ancestor, binds⟩
    match nearer with
    | 0 =>
        cases ancestor
        exact absurd binds (by decide)
    | 1 =>
        cases ancestor
        exact absurd binds (by decide)
    | _ + 2 => exact Nat.le_add_left _ _
  have nearest : branching.Nearest 3 "a" 2 0 := ⟨rfl, rfl, least⟩
  obtain ⟨-, -, -, agree, -⟩ := search_agrees_with_reach built_branching present name
  obtain ⟨after, rebound, assigned, assignedAt⟩ := (agree 2 0 nearest).2 7
  have seen : search 2 name after = .ok 7 after := by
    cases assigned
    rfl
  exact ⟨built_branching, present, nearest, after, rebound, assigned, assignedAt, seen⟩

end Forest

end LoxLang
