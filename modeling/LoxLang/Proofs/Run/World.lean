import LoxLang.Proofs.Run.History
import LoxLang.Proofs.Scope.Layout

/-!
# Worlds

A world is a machine with the notes on its run and with the knowledge of which
frame is a copy of which scope.  A frame mirrors a context if its chain is made of
copies of the scopes of the context, and binds whatever is usable in them.

In a sound world every function that can be reached lies in a frame that mirrors
the context in which its declaration was visited.  Worlds only grow: frames stay
where they are, and what is bound stays bound.
-/

namespace LoxLang

/-- A watched machine, and the number of the scope that each frame is a copy of. -/
structure World where
  watched : Watched Machine History
  scopeOf : FrameId → Nat

namespace World

/-- The machine of a world. -/
abbrev machine (world : World) : Machine := world.watched.state

/-- The frames of a world. -/
abbrev forest (world : World) : Forest Value := world.machine.forest

/-- The notes on the run. -/
abbrev history (world : World) : History := world.watched.notes

/-- What a later world keeps of an earlier one. -/
structure Follows (earlier later : World) : Prop where
  size : earlier.forest.size ≤ later.forest.size
  serial : earlier.machine.serial ≤ later.machine.serial
  chain : ∀ frame < earlier.forest.size, later.forest.chain frame = earlier.forest.chain frame
  binds : ∀ frame < earlier.forest.size, ∀ name, (earlier.forest.bindings frame).binds name →
    (later.forest.bindings frame).binds name
  scopeOf : ∀ frame < earlier.forest.size, later.scopeOf frame = earlier.scopeOf frame
  origins : ∀ serial < earlier.machine.serial,
    later.history.origins serial = earlier.history.origins serial

namespace Follows

theorem refl (world : World) : Follows world world where
  size := Nat.le_refl _
  serial := Nat.le_refl _
  chain _ _ := rfl
  binds _ _ _ bound := bound
  scopeOf _ _ := rfl
  origins _ _ := rfl

theorem trans {first second third : World} (one : Follows first second)
    (other : Follows second third) : Follows first third where
  size := Nat.le_trans one.size other.size
  serial := Nat.le_trans one.serial other.serial
  chain frame inside := by
    rw [other.chain frame (Nat.lt_of_lt_of_le inside one.size), one.chain frame inside]
  binds frame inside name bound :=
    other.binds frame (Nat.lt_of_lt_of_le inside one.size) name (one.binds frame inside name bound)
  scopeOf frame inside := by
    rw [other.scopeOf frame (Nat.lt_of_lt_of_le inside one.size), one.scopeOf frame inside]
  origins serial used := by
    rw [other.origins serial (Nat.lt_of_lt_of_le used one.serial), one.origins serial used]

end Follows

/-- The chain of the frame is a copy of the scopes of the context, and binds what is usable. -/
structure Mirrors (world : World) (frame : FrameId) (context : Context) : Prop where
  present : frame < world.forest.size
  lengths : context.numbers.length = context.scopes.length
  chain : ∃ inner, world.forest.chain frame = inner ++ [globalFrame] ∧
    inner.map world.scopeOf = context.numbers ∧
    ∀ copy ∈ inner, copy < world.forest.size ∧ copy ≠ globalFrame
  bound : ∀ distance name, context.Holds distance name →
    ∃ copy, (world.forest.chain frame)[distance]? = some copy ∧
      (world.forest.bindings copy).binds name

end World

open World

variable {survey : Survey} {world earlier later : World}

/-- The function can be called: its body is laid out well in what its frame mirrors, and an
initializer finds its object there. -/
structure Closure.Sound (survey : Survey) (world : World) (closure : Closure) : Prop where
  counted : closure.serial < world.machine.serial
  laid : ∃ context, world.Mirrors closure.frame context ∧
    closure.decl.Scoped survey context (world.history.origins closure.serial)
  initializer : closure.isInitializer = true →
    (world.forest.bindings closure.frame).binds "this"

/-- The method can be called once its frame has got a frame for `this` inside. -/
structure Closure.MethodSound (survey : Survey) (world : World) (method : Closure) : Prop where
  counted : method.serial < world.machine.serial
  laid : ∃ context number, world.Mirrors method.frame context ∧ (number, "this") ∈ survey.put ∧
    method.decl.Scoped survey (context.within number (Scope.only "this"))
      (world.history.origins method.serial)

/-- All methods of the class can be called. -/
def ClassValue.Sound (survey : Survey) (world : World) (cls : ClassValue) : Prop :=
  ∀ entry ∈ cls.chain, ∀ name method, entry.methods.get? name = some method →
    method.MethodSound survey world

/-- Whatever functions can be reached from the value can be called. -/
def Value.Sound (survey : Survey) (world : World) : Value → Prop
  | .closure function => function.Sound survey world
  | .class cls => cls.Sound survey world
  | .object _ cls => cls.Sound survey world
  | _ => True

/-- The value that a statement returns is sound, if it returns one. -/
def Completion.Sound (survey : Survey) (world : World) : Completion → Prop
  | .normal => True
  | .returned value => value.Sound survey world

/-- The name that a node reads at a known distance. -/
def Node.reads : Node Site → Option (String × Nat)
  | .expr (.variable name (some distance)) => some (name.lexeme, distance)
  | .expr (.this keyword (some distance)) => some (keyword.lexeme, distance)
  | .expr (.super keyword _ (some distance)) => some (keyword.lexeme, distance)
  | _ => none

/-- The name that a variable or an assignment refers to at a known distance. -/
def Node.refers : Node Site → Option (String × Nat)
  | .expr (.variable name (some distance)) => some (name.lexeme, distance)
  | .expr (.assign name (some distance) _) => some (name.lexeme, distance)
  | _ => none

/-- The expression whose value an assignment stores. -/
def Node.stored : Node Site → Option (Expr Site)
  | .expr (.assign _ _ value) => some value
  | _ => none

/-- The node is laid out well in the context, unless it is a variable. -/
def Node.IsScoped (survey : Survey) (context : Context) (address : Address) : Node Site → Prop
  | .expr (.variable _ _) => True
  | .expr e => e.Scoped survey context address
  | .stmt s => s.Scoped survey context address

/-- The pass through the scopes came to the node and saw its surroundings there, which differ from
the context at most in names that have no part in the node. -/
structure Node.Laid (survey : Survey) (context seen : Context) (address : Address)
    (node : Node Site) : Prop where
  visited : ⟨address, node.bare, seen⟩ ∈ survey.visits
  numbers : seen.numbers = context.numbers
  scopes : seen.scopes.length = context.scopes.length
  reads : ∀ name distance, node.reads = some (name, distance) → context.Holds distance name
  refers : ∀ name distance, node.refers = some (name, distance) → seen.Finds distance name ∧
    (context.Holds distance name ∨ node.stored.isSome ∧ distance = 0 ∧ seen.Awaits name)
  stored : ∀ value ∈ node.stored, value.Scoped survey context (address.child 0)
  isScoped : node.IsScoped survey context address

/-- The frames around the moment, from the inside out. -/
def Moment.chain (moment : Moment) : List FrameId :=
  moment.machine.forest.chain moment.machine.current

/-- What the pass through the scopes saw when it came to a node, the run finds at the node: as many
frames as there were scopes, besides the outermost frame, and in each frame only names that were
put into its scope; and the name that the node reads is bound at its distance. -/
structure Moment.Mirrors (survey : Survey) (moment : Moment) (visit : Visit) : Prop where
  address : visit.address = moment.address
  node : visit.node = moment.node.bare
  depth : moment.chain.length = visit.context.scopes.length + 1
  outermost : moment.chain.getLast? = some globalFrame
  numbered : visit.context.numbers.length = visit.context.scopes.length
  names : ∀ (index : Nat) (frame : FrameId) (number : Nat) (name : String),
    moment.chain[index]? = some frame →
    visit.context.numbers[index]? = some number →
    (moment.machine.forest.bindings frame).binds name → (number, name) ∈ survey.put
  reads : ∀ (name : String) (distance : Nat), moment.node.reads = some (name, distance) →
    ∃ frame, moment.chain[distance]? = some frame ∧
      (moment.machine.forest.bindings frame).binds name

/-- The frames and what is bound in them are as they should be. -/
structure World.Settled (survey : Survey) (world : World) : Prop where
  root : globalFrame < world.forest.size
  top : world.forest.chain globalFrame = [globalFrame]
  names : ∀ frame < world.forest.size, frame ≠ globalFrame → ∀ name,
    (world.forest.bindings frame).binds name → (world.scopeOf frame, name) ∈ survey.put
  values : ∀ frame name value, (world.forest.bindings frame).get? name = some value →
    value.Sound survey world
  classes : ∀ frame value, (world.forest.bindings frame).get? "super" = some value →
    ∃ cls, value = .class cls
  fields : ∀ id name value, (world.machine.fields id).get? name = some value →
    value.Sound survey world

/-- At the moment the world was as it should be, and the machine in a frame for which the node is
laid out well. -/
def Moment.Backed (survey : Survey) (moment : Moment) : Prop :=
  ∃ (world : World) (context seen : Context), world.machine = moment.machine ∧
    world.Settled survey ∧ world.Mirrors world.machine.current context ∧
    moment.node.Laid survey context seen moment.address

/-- All that is known of a world between two steps of a run. -/
structure World.Sound (survey : Survey) (world : World) : Prop extends
    World.Settled survey world where
  backed : ∀ moment ∈ world.history.moments, moment.Backed survey

/-- A variable is found where its name is usable. -/
theorem Node.Laid.variable {context seen : Context} {address : Address} {name : Token} {site : Site}
    (visited : ⟨address, .expr (.variable name ()), seen⟩ ∈ survey.visits)
    (numbers : seen.numbers = context.numbers)
    (scopes : seen.scopes.length = context.scopes.length)
    (holds : ∀ distance ∈ site,
      seen.Finds distance name.lexeme ∧ context.Holds distance name.lexeme) :
    Node.Laid survey context seen address (.expr (.variable name site)) := by
  refine ⟨visited, numbers, scopes, ?_, ?_, nofun, trivial⟩
  · intro other distance reads
    cases site with
    | none => cases reads
    | some found =>
        cases reads
        exact (holds _ rfl).2
  · intro other distance refers
    cases site with
    | none => cases refers
    | some found =>
        cases refers
        exact ⟨(holds _ rfl).1, .inl (holds _ rfl).2⟩

section Growth

/-- What a frame mirrors it mirrors for ever. -/
theorem World.Mirrors.mono {frame : FrameId} {context : Context}
    (mirrors : earlier.Mirrors frame context) (follows : earlier.Follows later) :
    later.Mirrors frame context where
  present := Nat.lt_of_lt_of_le mirrors.present follows.size
  lengths := mirrors.lengths
  chain := by
    obtain ⟨inner, chainEq, copies, inside⟩ := mirrors.chain
    refine ⟨inner, ?_, ?_, ?_⟩
    · rw [follows.chain frame mirrors.present, chainEq]
    · rw [← copies]
      apply List.map_congr_left
      intro copy member
      exact follows.scopeOf copy (inside copy member).1
    · intro copy member
      exact ⟨Nat.lt_of_lt_of_le (inside copy member).1 follows.size, (inside copy member).2⟩
  bound := by
    intro distance name holds
    obtain ⟨copy, there, bound⟩ := mirrors.bound distance name holds
    obtain ⟨inner, chainEq, copies, inside⟩ := mirrors.chain
    obtain ⟨scope, scopeThere, _⟩ := holds
    have within : distance < inner.length := by
      have sameLength := congrArg List.length copies
      rw [List.length_map, mirrors.lengths] at sameLength
      rw [sameLength]
      exact (List.getElem?_eq_some_iff.1 scopeThere).1
    have isInner : copy ∈ inner := by
      rw [chainEq, List.getElem?_append_left within] at there
      exact List.mem_of_getElem? there
    refine ⟨copy, ?_, follows.binds copy (inside copy isInner).1 name bound⟩
    rw [follows.chain frame mirrors.present, there]

theorem Closure.Sound.mono {closure : Closure} (sound : closure.Sound survey earlier)
    (follows : earlier.Follows later) : closure.Sound survey later where
  counted := Nat.lt_of_lt_of_le sound.counted follows.serial
  laid := by
    obtain ⟨context, mirrors, laid⟩ := sound.laid
    refine ⟨context, mirrors.mono follows, ?_⟩
    rw [follows.origins _ sound.counted]
    exact laid
  initializer := by
    intro isInitializer
    obtain ⟨context, mirrors, _⟩ := sound.laid
    exact follows.binds _ mirrors.present _ (sound.initializer isInitializer)

theorem Closure.MethodSound.mono {method : Closure} (sound : method.MethodSound survey earlier)
    (follows : earlier.Follows later) : method.MethodSound survey later where
  counted := Nat.lt_of_lt_of_le sound.counted follows.serial
  laid := by
    obtain ⟨context, number, mirrors, known, laid⟩ := sound.laid
    refine ⟨context, number, mirrors.mono follows, known, ?_⟩
    rw [follows.origins _ sound.counted]
    exact laid

theorem ClassValue.Sound.mono {cls : ClassValue} (sound : cls.Sound survey earlier)
    (follows : earlier.Follows later) : cls.Sound survey later := by
  intro entry member name method found
  exact (sound entry member name method found).mono follows

theorem Value.Sound.mono {value : Value} (sound : value.Sound survey earlier)
    (follows : earlier.Follows later) : value.Sound survey later := by
  cases value with
  | closure closure => exact Closure.Sound.mono sound follows
  | «class» cls => exact ClassValue.Sound.mono sound follows
  | object id cls => exact ClassValue.Sound.mono sound follows
  | _ => trivial

theorem Completion.Sound.mono {completion : Completion} (sound : completion.Sound survey earlier)
    (follows : earlier.Follows later) : completion.Sound survey later := by
  cases completion with
  | normal => trivial
  | returned value => exact Value.Sound.mono sound follows

end Growth

/-- A method that a class has, of its own or not, can be called. -/
theorem ClassValue.Sound.method? {cls : ClassValue} (sound : cls.Sound survey world)
    {name : String} {method : Closure} (found : cls.method? name = some method) :
    method.MethodSound survey world := by
  obtain ⟨entry, member, inEntry⟩ := List.exists_of_findSome?_eq_some found
  exact sound entry member name method inEntry

namespace World

variable {frame : FrameId} {context : Context}

/-- A reference leads to a frame of the chain that is a copy of the scope it was resolved to. -/
theorem Mirrors.copy (mirrors : world.Mirrors frame context) {distance number : Nat}
    (numbered : context.numbers[distance]? = some number) :
    ∃ copy, (world.forest.chain frame)[distance]? = some copy ∧ world.scopeOf copy = number ∧
      copy < world.forest.size ∧ copy ≠ globalFrame := by
  obtain ⟨inner, chainEq, copies, inside⟩ := mirrors.chain
  rw [← copies, List.getElem?_map] at numbered
  obtain ⟨copy, there, numberEq⟩ := Option.map_eq_some_iff.1 numbered
  have within := (List.getElem?_eq_some_iff.1 there).1
  refine ⟨copy, ?_, numberEq, inside copy (List.mem_of_getElem? there)⟩
  rw [chainEq, List.getElem?_append_left within, there]

/-- Fewer names may be asked for. -/
theorem Mirrors.weaken {other : Context} (mirrors : world.Mirrors frame context)
    (numbers : other.numbers = context.numbers)
    (scopes : other.scopes.length = context.scopes.length)
    (holds : ∀ distance name, other.Holds distance name → context.Holds distance name) :
    world.Mirrors frame other where
  present := mirrors.present
  lengths := by rw [numbers, scopes, mirrors.lengths]
  chain := by
    rw [numbers]
    exact mirrors.chain
  bound distance name held := mirrors.bound distance name (holds distance name held)

end World

end LoxLang
