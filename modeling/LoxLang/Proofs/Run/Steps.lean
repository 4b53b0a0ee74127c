import LoxLang.Proofs.Run.World
import LoxLang.Proofs.Stateful

/-!
# Steps in sound worlds

A part of a run is safe in a world if it leads to a sound world that follows, and
does not stop with a defect.  This is shown of the steps of the machine one by
one; each needs to know only what it changes.
-/

namespace LoxLang

variable {survey : Survey} {world later : World}

/-- The machine went from one sound world to another one, and is where it was. -/
structure World.Leads (survey : Survey) (start after : World) : Prop where
  follows : start.Follows after
  sound : after.Sound survey
  current : after.machine.current = start.machine.current

theorem World.Leads.trans {first second third : World} (one : first.Leads survey second)
    (other : second.Leads survey third) : first.Leads survey third where
  follows := one.follows.trans other.follows
  sound := other.sound
  current := other.current.trans one.current

/-- What the machine's frame mirrored, it mirrors still when the machine is back where it was. -/
theorem World.Leads.mirrors {start after : World} {context : Context}
    (leads : start.Leads survey after) (mirrored : start.Mirrors start.machine.current context) :
    after.Mirrors after.machine.current context :=
  leads.current ▸ mirrored.mono leads.follows

/-- A world is settled if it follows a settled one and what is new in it is as it should be. -/
theorem World.Settled.step (settled : world.Settled survey) (follows : world.Follows later)
    (names : ∀ frame < later.forest.size, frame ≠ globalFrame → ∀ name,
      (later.forest.bindings frame).binds name →
      (frame < world.forest.size ∧ (world.forest.bindings frame).binds name) ∨
        (later.scopeOf frame, name) ∈ survey.put)
    (values : ∀ frame name value, (later.forest.bindings frame).get? name = some value →
      (world.forest.bindings frame).get? name = some value ∨
        value.Sound survey later ∧ (name = "super" → ∃ cls, value = .class cls))
    (fields : ∀ id name value, (later.machine.fields id).get? name = some value →
      (world.machine.fields id).get? name = some value ∨ value.Sound survey later) :
    later.Settled survey where
  root := Nat.lt_of_lt_of_le settled.root follows.size
  top := by rw [follows.chain globalFrame settled.root, settled.top]
  names := by
    intro frame inside notGlobal name bound
    rcases names frame inside notGlobal name bound with ⟨wasInside, wasBound⟩ | known
    · rw [follows.scopeOf frame wasInside]
      exact settled.names frame wasInside notGlobal name wasBound
    · exact known
  values := by
    intro frame name value found
    rcases values frame name value found with before | ⟨fresh, _⟩
    · exact (settled.values frame name value before).mono follows
    · exact fresh
  classes := by
    intro frame value found
    rcases values frame "super" value found with before | ⟨_, isClass⟩
    · exact settled.classes frame value before
    · exact isClass rfl
  fields := by
    intro id name value found
    rcases fields id name value found with before | fresh
    · exact (settled.fields id name value before).mono follows
    · exact fresh

/-- A world is settled if it follows a settled one and has the same frames and objects. -/
theorem World.Settled.keep (settled : world.Settled survey) (follows : world.Follows later)
    (forest : later.forest = world.forest)
    (fields : ∀ id, later.machine.fields id = world.machine.fields id) :
    later.Settled survey := by
  apply settled.step follows
  · intro frame inside _ name bound
    rw [forest] at inside bound
    exact .inl ⟨inside, bound⟩
  · intro frame name value found
    rw [forest] at found
    exact .inl found
  · intro id name value found
    rw [fields] at found
    exact .inl found

/-- A world is sound if it follows a sound one and what is new in it is as it should be. -/
theorem World.Sound.step (sound : world.Sound survey) (follows : world.Follows later)
    (names : ∀ frame < later.forest.size, frame ≠ globalFrame → ∀ name,
      (later.forest.bindings frame).binds name →
      (frame < world.forest.size ∧ (world.forest.bindings frame).binds name) ∨
        (later.scopeOf frame, name) ∈ survey.put)
    (values : ∀ frame name value, (later.forest.bindings frame).get? name = some value →
      (world.forest.bindings frame).get? name = some value ∨
        value.Sound survey later ∧ (name = "super" → ∃ cls, value = .class cls))
    (fields : ∀ id name value, (later.machine.fields id).get? name = some value →
      (world.machine.fields id).get? name = some value ∨ value.Sound survey later)
    (moments : ∀ moment ∈ later.history.moments,
      moment ∈ world.history.moments ∨ moment.Backed survey) : later.Sound survey where
  toSettled := sound.toSettled.step follows names values fields
  backed := by
    intro moment member
    rcases moments moment member with before | backed
    · exact sound.backed moment before
    · exact backed

namespace World

/-- The world in which it is noted that a node is about to be evaluated or executed. -/
def come (world : World) (address : Address) (node : Node Site) : World :=
  { world with
    watched := ⟨world.machine,
      { world.history with
        moments := ⟨address, node, world.machine⟩ :: world.history.moments }⟩ }

/-- The world with another machine that has the same frames. -/
def withMachine (world : World) (machine : Machine) : World :=
  { world with watched := ⟨machine, world.history⟩ }

/-- The world after a name is bound. -/
def define (world : World) (frame : FrameId) (name : String) (value : Value) : World :=
  world.withMachine { world.machine with forest := world.forest.define frame name value }

/-- The world with a new frame, a copy of the scope with the number. -/
def child (world : World) (parent : FrameId) (number : Nat) : World :=
  { watched := ⟨{ world.machine with forest := world.forest.child parent }, world.history⟩
    scopeOf := fun frame => if frame = world.forest.size then number else world.scopeOf frame }

/-- The world in which the next function or class is counted, and where it comes from. -/
def count (world : World) (origins : Nat → Address) : World :=
  { world with
    watched := ⟨{ world.machine with serial := world.machine.serial + 1 },
      { world.history with origins := origins }⟩ }

theorem follows_of_forest {machine : Machine} (forest : machine.forest = world.forest)
    (serial : machine.serial = world.machine.serial) :
    world.Follows (world.withMachine machine) where
  size := Nat.le_of_eq (congrArg Forest.size forest.symm)
  serial := Nat.le_of_eq serial.symm
  chain frame _ := congrArg (Forest.chain · frame) forest
  binds frame _ name bound := by
    have same : (world.withMachine machine).forest = world.forest := forest
    rwa [same]
  scopeOf _ _ := rfl
  origins _ _ := rfl

theorem Sound.come (sound : world.Sound survey) {context seen : Context} {address : Address}
    {node : Node Site} (mirrors : world.Mirrors world.machine.current context)
    (laid : node.Laid survey context seen address) :
    world.Leads survey (world.come address node) := by
  have follows : world.Follows (world.come address node) :=
    ⟨Nat.le_refl _, Nat.le_refl _, fun _ _ => rfl, fun _ _ _ bound => bound, fun _ _ => rfl,
      fun _ _ => rfl⟩
  refine ⟨follows, ⟨sound.toSettled.keep follows rfl fun _ => rfl, ?_⟩, rfl⟩
  intro moment isMoment
  rcases List.mem_cons.1 isMoment with now | before
  · subst now
    exact ⟨world, context, seen, rfl, sound.toSettled, mirrors, laid⟩
  · exact sound.backed moment before

theorem Sound.withMachine (sound : world.Sound survey) (machine : Machine)
    (forest : machine.forest = world.forest) (serial : machine.serial = world.machine.serial)
    (current : machine.current = world.machine.current)
    (fields : ∀ id name value, (machine.fields id).get? name = some value →
      (world.machine.fields id).get? name = some value ∨ value.Sound survey world) :
    world.Leads survey (world.withMachine machine) := by
  have follows := follows_of_forest forest serial
  refine ⟨follows, ?_, current⟩
  have same : (world.withMachine machine).forest = world.forest := forest
  apply sound.step follows
  · intro frame inside _ name bound
    rw [same] at inside bound
    exact .inl ⟨inside, bound⟩
  · intro frame name value found
    rw [same] at found
    exact .inl found
  · intro id name value found
    rcases fields id name value found with before | fresh
    · exact .inl before
    · exact .inr (fresh.mono follows)
  · exact fun moment member => .inl member

theorem Follows.define (frame : FrameId) (name : String) (value : Value) :
    world.Follows (world.define frame name value) where
  size := Nat.le_of_eq (Forest.size_define _ _ _ _).symm
  serial := Nat.le_refl _
  chain other _ := Forest.chain_define _ _ _ _ _
  binds other inside key bound := by
    show ((world.forest.define frame name value).bindings other).binds key
    by_cases same : frame = other
    · subst same
      rw [Forest.bindings_define_self _ _ _ inside]
      unfold Table.binds
      rw [Table.get?_insert]
      split
      · rfl
      · exact bound
    · rw [Forest.bindings_define_of_ne _ _ _ same]
      exact bound
  scopeOf _ _ := rfl
  origins _ _ := rfl

/-- What is bound in a frame after a name is bound there, or in another one. -/
theorem get?_define {frame other : FrameId} {name key : String} {value found : Value}
    (bound : ((world.define frame name value).forest.bindings other).get? key = some found) :
    (world.forest.bindings other).get? key = some found ∨
      other = frame ∧ key = name ∧ found = value :=
  Forest.get?_define bound

/-- A name may be bound where its scope has it.  The value need only be sound afterwards. -/
theorem Sound.define (sound : world.Sound survey) (frame : FrameId) (name : String) {value : Value}
    (known : frame ≠ globalFrame → (world.scopeOf frame, name) ∈ survey.put)
    (valueSound : value.Sound survey (world.define frame name value))
    (isClass : name = "super" → ∃ cls, value = .class cls) :
    world.Leads survey (world.define frame name value) := by
  have follows : world.Follows (world.define frame name value) := .define frame name value
  refine ⟨follows, ?_, rfl⟩
  apply sound.step follows
  · intro other inside notGlobal key bound
    obtain ⟨found, there⟩ := Option.isSome_iff_exists.1 bound
    rcases get?_define there with before | ⟨same, sameName, _⟩
    · have wasInside : other < world.forest.size := by
        have sizeEq := Forest.size_define world.forest frame name value
        exact sizeEq ▸ inside
      exact .inl ⟨wasInside, by simp [Table.binds, before]⟩
    · subst same sameName
      exact .inr (known notGlobal)
  · intro other key found there
    rcases get?_define there with before | ⟨_, sameName, sameValue⟩
    · exact .inl before
    · subst sameName sameValue
      exact .inr ⟨valueSound, isClass⟩
  · exact fun id key found there => .inl there
  · exact fun moment member => .inl member

theorem binds_define {frame : FrameId} (name : String) (value : Value)
    (inside : frame < world.forest.size) :
    ((world.define frame name value).forest.bindings frame).binds name := by
  have same : (world.define frame name value).forest.bindings frame =
      (world.forest.bindings frame).insert name value :=
    Forest.bindings_define_self _ _ _ inside
  rw [same]
  simp [Table.binds]

theorem Follows.child (parent : FrameId) (number : Nat) :
    world.Follows (world.child parent number) where
  size := Nat.le_trans (Nat.le_succ _) (Nat.le_of_eq (Forest.size_child _ _).symm)
  serial := Nat.le_refl _
  chain _ inside := Forest.chain_child_of_lt world.forest parent inside
  binds frame _ name bound := by
    have same : (world.child parent number).forest.bindings frame = world.forest.bindings frame :=
      Forest.bindings_child _ _ _
    rwa [same]
  scopeOf frame inside := if_neg (Nat.ne_of_lt inside)
  origins _ _ := rfl

theorem Sound.child (sound : world.Sound survey) (parent : FrameId) (number : Nat) :
    world.Leads survey (world.child parent number) := by
  have follows : world.Follows (world.child parent number) := .child parent number
  have same (frame : FrameId) :
      (world.child parent number).forest.bindings frame = world.forest.bindings frame :=
    Forest.bindings_child _ _ _
  refine ⟨follows, ?_, rfl⟩
  apply sound.step follows
  · intro frame inside _ name bound
    rw [same] at bound
    by_cases older : frame < world.forest.size
    · exact .inl ⟨older, bound⟩
    · -- A new frame binds nothing.
      rw [Forest.bindings_of_size_le (Nat.le_of_not_lt older)] at bound
      cases bound
  · intro frame name value found
    rw [same] at found
    exact .inl found
  · exact fun id name value found => .inl found
  · exact fun moment member => .inl member

/-- A new frame inside one that mirrors a context mirrors the context inside a new scope. -/
theorem Mirrors.child {frame : FrameId} {context : Context} (sound : world.Sound survey)
    (mirrors : world.Mirrors frame context) (number : Nat) :
    (world.child frame number).Mirrors world.forest.size
      (context.within number Table.empty) where
  present := by
    have sizeEq := Forest.size_child world.forest frame
    exact sizeEq ▸ Nat.lt_succ_self _
  lengths := congrArg (· + 1) mirrors.lengths
  chain := by
    obtain ⟨inner, chainEq, copies, inside⟩ := mirrors.chain
    refine ⟨world.forest.size :: inner, ?_, ?_, ?_⟩
    · have chainSelf := Forest.chain_child_self world.forest frame
      rw [chainEq] at chainSelf
      exact chainSelf
    · have outer : inner.map (world.child frame number).scopeOf = inner.map world.scopeOf := by
        apply List.map_congr_left
        intro copy member
        exact if_neg (Nat.ne_of_lt (inside copy member).1)
      rw [List.map_cons, outer, copies]
      have self : (world.child frame number).scopeOf world.forest.size = number := if_pos rfl
      rw [self]
      rfl
    · have sizeEq : (world.child frame number).forest.size = world.forest.size + 1 :=
        Forest.size_child world.forest frame
      intro copy member
      rw [sizeEq]
      rcases List.mem_cons.1 member with self | older
      · subst self
        exact ⟨Nat.lt_succ_self _, Nat.ne_of_gt sound.root⟩
      · exact ⟨Nat.lt_succ_of_lt (inside copy older).1, (inside copy older).2⟩
  bound := by
    intro distance name holds
    have follows : world.Follows (world.child frame number) := .child frame number
    cases distance with
    | zero =>
        obtain ⟨scope, there, usable⟩ := holds
        cases there
        cases usable
    | succ outer =>
        obtain ⟨copy, there, bound⟩ := (mirrors.mono follows).bound outer name holds
        refine ⟨copy, ?_, bound⟩
        have chainSelf := Forest.chain_child_self world.forest frame
        have chainOld := follows.chain frame mirrors.present
        rw [chainOld] at there
        show ((world.forest.child frame).chain world.forest.size)[outer + 1]? = some copy
        rw [chainSelf, List.getElem?_cons_succ, there]

theorem Follows.count {origins : Nat → Address}
    (kept : ∀ serial < world.machine.serial, origins serial = world.history.origins serial) :
    world.Follows (world.count origins) :=
  ⟨Nat.le_refl _, Nat.le_succ _, fun _ _ => rfl, fun _ _ _ bound => bound, fun _ _ => rfl, kept⟩

theorem Sound.count (sound : world.Sound survey) {origins : Nat → Address}
    (kept : ∀ serial < world.machine.serial, origins serial = world.history.origins serial) :
    world.Leads survey (world.count origins) := by
  have follows : world.Follows (world.count origins) := .count kept
  exact ⟨follows, ⟨sound.toSettled.keep follows rfl fun _ => rfl, sound.backed⟩, rfl⟩

end World

end LoxLang
