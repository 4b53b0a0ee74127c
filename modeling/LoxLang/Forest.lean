import LoxLang.Table

/-!
# Forests of frames

A frame binds names to values.  Each frame but the outermost ones lies in another,
and all frames together form a forest that only grows.  A frame keeps the list of
the frames around it, so its *chain*, the frame itself and those around it from
the inside out, is at hand.

There are two ways to find a binding: search the chain for a name, or go a known
distance along the chain.
-/

namespace LoxLang

/-- The number of a frame, in the order in which frames were made. -/
abbrev FrameId := Nat

/-- The bindings of a frame, and the frames around it, innermost first. -/
structure Frame (V : Type) where
  bindings : Table V
  outer : List FrameId

instance {V : Type} : Inhabited (Frame V) := ⟨⟨Table.empty, []⟩⟩

/-- Why a binding is not found. -/
inductive AccessError where
  /-- No frame of the chain binds the name. -/
  | undefined
  /-- The frame at the distance does not bind the name. -/
  | unboundThere
  /-- There is no frame at the distance. -/
  | beyondOutermost
deriving DecidableEq, Repr

/-- Frames by number. -/
structure Forest (V : Type) where
  frames : Array (Frame V)

namespace Forest

variable {V : Type}

/-- The forest of one frame, which is an outermost one. -/
def root : Forest V := ⟨#[default]⟩

/-- How many frames there are. -/
def size (forest : Forest V) : Nat := forest.frames.size

/-- The bindings of a frame. -/
def bindings (forest : Forest V) (frame : FrameId) : Table V :=
  (forest.frames.getD frame default).bindings

/-- The frames around a frame, innermost first. -/
def outer (forest : Forest V) (frame : FrameId) : List FrameId :=
  (forest.frames.getD frame default).outer

/-- A frame and the frames around it, from the inside out. -/
def chain (forest : Forest V) (frame : FrameId) : List FrameId :=
  frame :: forest.outer frame

/-- Make a frame inside another one; its number is the former size. -/
def child (forest : Forest V) (parent : FrameId) : Forest V :=
  ⟨forest.frames.push ⟨Table.empty, forest.chain parent⟩⟩

/-- Bind a name in a frame, whether or not it is bound there. -/
def define (forest : Forest V) (frame : FrameId) (name : String) (value : V) : Forest V :=
  ⟨forest.frames.modify frame fun old => { old with bindings := old.bindings.insert name value }⟩

/-- The first frame of a chain that binds a name. -/
def holder (forest : Forest V) (frame : FrameId) (name : String) : Except AccessError FrameId :=
  match (forest.chain frame).find? fun candidate => (forest.bindings candidate).binds name with
  | some found => .ok found
  | none => .error .undefined

/-- The frame at a distance along a chain. -/
def ancestor (forest : Forest V) (frame : FrameId) (distance : Nat) :
    Except AccessError FrameId :=
  match (forest.chain frame)[distance]? with
  | some found => .ok found
  | none => .error .beyondOutermost

/-- The value of a name in the first frame of a chain that binds it. -/
def get (forest : Forest V) (frame : FrameId) (name : String) : Except AccessError V :=
  match (forest.chain frame).findSome? fun candidate => (forest.bindings candidate).get? name with
  | some value => .ok value
  | none => .error .undefined

/-- Rebind a name in the first frame of a chain that binds it. -/
def assign (forest : Forest V) (frame : FrameId) (name : String) (value : V) :
    Except AccessError (Forest V) := do
  return forest.define (← forest.holder frame name) name value

/-- The value of a name in the frame at a distance. -/
def getAt (forest : Forest V) (frame : FrameId) (distance : Nat) (name : String) :
    Except AccessError V := do
  match (forest.bindings (← forest.ancestor frame distance)).get? name with
  | some value => return value
  | none => throw .unboundThere

/-- Bind a name in the frame at a distance, whether or not it is bound there. -/
def assignAt (forest : Forest V) (frame : FrameId) (distance : Nat) (name : String) (value : V) :
    Except AccessError (Forest V) := do
  return forest.define (← forest.ancestor frame distance) name value

/-- Walk a distance along a chain.  One step past the outermost frame there is nothing, and from
nothing no step leads on. -/
def walk (forest : Forest V) (frame : FrameId) (distance : Nat) :
    Except AccessError (Option FrameId) :=
  if distance ≤ (forest.chain frame).length then .ok (forest.chain frame)[distance]?
  else .error .beyondOutermost

@[simp] theorem size_define (forest : Forest V) (frame : FrameId) (name : String) (value : V) :
    (forest.define frame name value).size = forest.size :=
  Array.size_modify

@[simp] theorem size_child (forest : Forest V) (parent : FrameId) :
    (forest.child parent).size = forest.size + 1 :=
  Array.size_push _

/-- Binding a name leaves it where the frames lie. -/
@[simp] theorem outer_define (forest : Forest V) (frame other : FrameId) (name : String)
    (value : V) : (forest.define frame name value).outer other = forest.outer other := by
  simp only [outer, define, Array.getD_eq_getD_getElem?, Array.getElem?_modify]
  split
  · cases forest.frames[other]? <;> rfl
  · rfl

@[simp] theorem chain_define (forest : Forest V) (frame other : FrameId) (name : String)
    (value : V) : (forest.define frame name value).chain other = forest.chain other := by
  simp [chain]

/-- Binding a name changes no other frame. -/
theorem bindings_define_of_ne (forest : Forest V) {frame other : FrameId} (name : String)
    (value : V) (distinct : frame ≠ other) :
    (forest.define frame name value).bindings other = forest.bindings other := by
  simp [bindings, define, Array.getElem?_modify, distinct]

/-- Binding a name in a frame that exists. -/
theorem bindings_define_self (forest : Forest V) {frame : FrameId} (name : String) (value : V)
    (present : frame < forest.size) :
    (forest.define frame name value).bindings frame =
      (forest.bindings frame).insert name value := by
  have inside : frame < forest.frames.size := present
  simp [bindings, define, Array.getElem_modify, inside]

/-- A frame that does not exist binds nothing. -/
theorem bindings_of_size_le {forest : Forest V} {frame : FrameId} (outside : forest.size ≤ frame) :
    forest.bindings frame = Table.empty := by
  have missing : forest.frames[frame]? = none := Array.getElem?_eq_none outside
  simp [bindings, missing, default]

theorem outer_of_size_le {forest : Forest V} {frame : FrameId} (outside : forest.size ≤ frame) :
    forest.outer frame = [] := by
  have missing : forest.frames[frame]? = none := Array.getElem?_eq_none outside
  simp [outer, missing, default]

/-- What is bound in a frame after a name is bound there, or in another one. -/
theorem get?_define {forest : Forest V} {frame other : FrameId} {name key : String}
    {value found : V}
    (bound : ((forest.define frame name value).bindings other).get? key = some found) :
    (forest.bindings other).get? key = some found ∨
      other = frame ∧ key = name ∧ found = value := by
  by_cases same : frame = other
  · subst same
    by_cases inside : frame < forest.size
    · rw [bindings_define_self _ _ _ inside, Table.get?_insert] at bound
      split at bound
      · rename_i sameName
        exact .inr ⟨rfl, sameName.symm, (Option.some.inj bound).symm⟩
      · exact .inl bound
    · have outside : (forest.define frame name value).size ≤ frame := by
        rw [size_define]
        exact Nat.le_of_not_lt inside
      rw [bindings_of_size_le outside] at bound
      cases bound
  · rw [bindings_define_of_ne _ _ _ same] at bound
    exact .inl bound

/-- The frame at a distance. -/
theorem ancestor_eq_ok {forest : Forest V} {start frame : FrameId} {distance : Nat} :
    forest.ancestor start distance = .ok frame ↔ (forest.chain start)[distance]? = some frame := by
  unfold ancestor
  split <;> simp [*]

/-- The frame that is found for a name binds it. -/
theorem binds_of_holder {forest : Forest V} {start frame : FrameId} {name : String}
    (found : forest.holder start name = .ok frame) :
    (forest.bindings frame).binds name = true := by
  unfold holder at found
  cases first : (forest.chain start).find? fun candidate =>
      (forest.bindings candidate).binds name with
  | none => simp [first] at found
  | some holder =>
      simp only [first, Except.ok.injEq] at found
      subst found
      have binds := List.find?_some first
      exact binds

/-- A new frame lies in the chain of its parent, and moves no other frame. -/
theorem outer_child (forest : Forest V) (parent frame : FrameId) :
    (forest.child parent).outer frame =
      if frame = forest.size then forest.chain parent else forest.outer frame := by
  simp only [outer, child, size, Array.getD_eq_getD_getElem?, Array.getElem?_push]
  split <;> rfl

theorem outer_child_self (forest : Forest V) (parent : FrameId) :
    (forest.child parent).outer forest.size = forest.chain parent := by
  rw [outer_child, if_pos rfl]

theorem chain_child_self (forest : Forest V) (parent : FrameId) :
    (forest.child parent).chain forest.size = forest.size :: forest.chain parent := by
  rw [chain, outer_child_self]

theorem outer_child_of_lt (forest : Forest V) (parent : FrameId) {frame : FrameId}
    (older : frame < forest.size) : (forest.child parent).outer frame = forest.outer frame := by
  rw [outer_child, if_neg (Nat.ne_of_lt older)]

theorem chain_child_of_lt (forest : Forest V) (parent : FrameId) {frame : FrameId}
    (older : frame < forest.size) : (forest.child parent).chain frame = forest.chain frame := by
  rw [chain, chain, outer_child_of_lt forest parent older]

/-- A new frame binds nothing, as if its number had been looked up before. -/
theorem bindings_child (forest : Forest V) (parent frame : FrameId) :
    (forest.child parent).bindings frame = forest.bindings frame := by
  simp only [bindings, child, Array.getD_eq_getD_getElem?, Array.getElem?_push]
  split
  · rename_i same
    subst same
    simp [default]
  · rfl

theorem bindings_child_self (forest : Forest V) (parent : FrameId) :
    (forest.child parent).bindings forest.size = Table.empty := by
  rw [bindings_child, bindings_of_size_le (Nat.le_refl _)]

/-- What a new frame binds first is all that it binds. -/
theorem bindings_define_child (forest : Forest V) (parent : FrameId) (name : String) (value : V) :
    ((forest.child parent).define forest.size name value).bindings forest.size =
      Table.empty.insert name value := by
  rw [bindings_define_self _ _ _ (by simp), bindings_child_self]

end Forest

end LoxLang
