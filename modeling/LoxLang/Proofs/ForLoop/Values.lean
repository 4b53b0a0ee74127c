import LoxLang.Machine
import LoxLang.Proofs.ForLoop.Kept

/-!
# Values with fewer frames

A machine can do without a frame that binds nothing.  The frames of the second of two
machines mirror those of the first one, except that some are not kept.  A matching
says for each frame of the first machine where it is mirrored, which is where the
frame around it is if it is not kept itself, and which frames of its chain are kept.
-/

namespace LoxLang

/-- Where a frame is mirrored, and which frames of its chain are kept: the frame itself, those
around it from the inside out, and all that are not told of. -/
structure Counterpart where
  frame : FrameId
  kept : List Bool

/-- The frame itself is kept. -/
def Counterpart.IsKept (counterpart : Counterpart) : Prop :=
  counterpart.kept.headD true = true

/-- The counterpart of each frame. -/
abbrev Matching := List Counterpart

namespace Matching

variable {earlier later : Matching}

theorem known_later (grows : earlier <+: later) {frame : FrameId} {counterpart : Counterpart}
    (known : earlier[frame]? = some counterpart) : later[frame]? = some counterpart := by
  obtain ⟨added, rfl⟩ := grows
  rw [List.getElem?_append_left (List.getElem?_eq_some_iff.1 known).1]
  exact known

/-- The frame is kept, and this is where it is mirrored. -/
def Keeps (matching : Matching) (frame twin : FrameId) : Prop :=
  ∃ kept, matching[frame]? = some ⟨twin, kept⟩ ∧ Counterpart.IsKept ⟨twin, kept⟩

theorem Keeps.mono {frame twin : FrameId} (keeps : earlier.Keeps frame twin)
    (grows : earlier <+: later) : later.Keeps frame twin := by
  obtain ⟨kept, known, isKept⟩ := keeps
  exact ⟨kept, Matching.known_later grows known, isKept⟩

end Matching

section Tables

variable {V W : Type}

/-- Both tables bind the same names, in the same order, to values that are related. -/
structure Table.Mirrored (values : V → W → Prop) (table : Table V) (twin : Table W) : Prop where
  names : twin.names = table.names
  values : ∀ name, Option.Rel values (table.get? name) (twin.get? name)

/-- The order of the names is that in which they first came, whatever their values are. -/
theorem Table.names_insert {table : Table V} {twin : Table W} (same : twin.names = table.names)
    (name : String) (value : V) (valueTwin : W) :
    (twin.insert name valueTwin).names = (table.insert name value).names := by
  unfold Table.names Table.insert at *
  rw [Table.keys_replace, Table.keys_replace, same]

namespace Table.Mirrored

variable {values : V → W → Prop} {table : Table V} {twin : Table W}

theorem empty : Table.Mirrored values Table.empty Table.empty := ⟨rfl, fun _ => .none⟩

theorem mono {others : V → W → Prop} (mirrored : Table.Mirrored values table twin)
    (implies : ∀ value other, values value other → others value other) :
    Table.Mirrored others table twin where
  names := mirrored.names
  values name := by
    have same := mirrored.values name
    generalize table.get? name = found at same
    generalize twin.get? name = foundTwin at same
    cases same with
    | none => exact .none
    | some related => exact .some (implies _ _ related)

theorem binds (mirrored : Table.Mirrored values table twin) (name : String) :
    twin.binds name = table.binds name := by
  have same := mirrored.values name
  unfold Table.binds
  generalize table.get? name = found at same
  generalize twin.get? name = foundTwin at same
  cases same <;> rfl

theorem insert (mirrored : Table.Mirrored values table twin) (name : String) {value : V}
    {valueTwin : W} (related : values value valueTwin) :
    Table.Mirrored values (table.insert name value) (twin.insert name valueTwin) where
  names := Table.names_insert mirrored.names name value valueTwin
  values key := by
    rw [Table.get?_insert, Table.get?_insert]
    split
    · exact .some related
    · exact mirrored.values key

end Table.Mirrored

end Tables

variable {matching earlier later : Matching}

/-- The second function is that part of the second program that agrees with the first function, tied
to where the frame of the first one is mirrored.  Between its frame and its body lie scopes of which
`between` tells whether they are kept. -/
structure Closure.Mirrored (between : List Bool) (matching : Matching)
    (closure twin : Closure) : Prop where
  serial : twin.serial = closure.serial
  isInitializer : twin.isInitializer = closure.isInitializer
  decl : ∃ kept, matching[closure.frame]? = some ⟨twin.frame, kept⟩ ∧
    Counterpart.IsKept ⟨twin.frame, kept⟩ ∧
      (Part.method closure.decl).Agrees (between ++ kept) (.method twin.decl)

/-- The methods of a class lie in the scope of `this`, which is always kept. -/
abbrev Closure.MethodMirrored : Matching → Closure → Closure → Prop := Closure.Mirrored [true]

/-- The methods of the second class mirror those of the first one. -/
structure ClassEntry.Mirrored (matching : Matching) (entry twin : ClassEntry) : Prop where
  serial : twin.serial = entry.serial
  name : twin.name = entry.name
  methods : Table.Mirrored (Closure.MethodMirrored matching) entry.methods twin.methods

/-- The classes along the second chain mirror those along the first one. -/
def ClassValue.Mirrored (matching : Matching) (cls twin : ClassValue) : Prop :=
  List.Forall₂ (ClassEntry.Mirrored matching) cls.chain twin.chain

/-- The second value is the first one but for the functions in it, which mirror those of the first
one. -/
inductive Value.Mirrored (matching : Matching) : Value → Value → Prop where
  | nil : Mirrored matching .nil .nil
  | bool {value : Bool} : Mirrored matching (.bool value) (.bool value)
  | number {value : Float} : Mirrored matching (.number value) (.number value)
  | text {value : String} : Mirrored matching (.text value) (.text value)
  | primitive {function : Primitive} : Mirrored matching (.primitive function) (.primitive function)
  | closure {closure twin : Closure} : closure.Mirrored [] matching twin →
      Mirrored matching (.closure closure) (.closure twin)
  | class {cls twin : ClassValue} : cls.Mirrored matching twin →
      Mirrored matching (.class cls) (.class twin)
  | object {id : Nat} {cls twin : ClassValue} : cls.Mirrored matching twin →
      Mirrored matching (.object id cls) (.object id twin)

/-- Both statements end in the same way, with values that mirror each other. -/
inductive Completion.Mirrored (matching : Matching) : Completion → Completion → Prop where
  | normal : Mirrored matching .normal .normal
  | returned {value twin : Value} : value.Mirrored matching twin →
      Mirrored matching (.returned value) (.returned twin)

section Growth

variable {between : List Bool}

theorem Closure.Mirrored.mono {closure twin : Closure}
    (mirrored : closure.Mirrored between earlier twin) (grows : earlier <+: later) :
    closure.Mirrored between later twin where
  serial := mirrored.serial
  isInitializer := mirrored.isInitializer
  decl := by
    obtain ⟨kept, known, agrees⟩ := mirrored.decl
    exact ⟨kept, Matching.known_later grows known, agrees⟩

theorem ClassValue.Mirrored.mono {cls twin : ClassValue} (mirrored : cls.Mirrored earlier twin)
    (grows : earlier <+: later) : cls.Mirrored later twin := by
  apply List.Forall₂.imp ?_ mirrored
  intro entry other same
  exact ⟨same.serial, same.name, same.methods.mono fun _ _ method => method.mono grows⟩

theorem Value.Mirrored.mono {value twin : Value} (mirrored : value.Mirrored earlier twin)
    (grows : earlier <+: later) : value.Mirrored later twin := by
  cases mirrored with
  | closure same => exact .closure (same.mono grows)
  | «class» same => exact .class (same.mono grows)
  | object same => exact .object (same.mono grows)
  | _ => constructor

end Growth

section Views

variable {value twin : Value} {cls clsTwin : ClassValue}

theorem ClassValue.Mirrored.own (mirrored : cls.Mirrored matching clsTwin) :
    cls.own.Mirrored matching clsTwin.own :=
  (List.forall₂_cons.1 mirrored).1

/-- The method of a name is found in the same class. -/
theorem ClassValue.Mirrored.method? (mirrored : cls.Mirrored matching clsTwin) (name : String) :
    Option.Rel (Closure.MethodMirrored matching) (cls.method? name) (clsTwin.method? name) := by
  unfold ClassValue.method?
  unfold ClassValue.Mirrored at mirrored
  generalize cls.chain = chain at mirrored
  generalize clsTwin.chain = chainTwin at mirrored
  induction mirrored with
  | nil => exact .none
  | @cons entry other rest restTwin same others induction =>
      have found := same.methods.values name
      rw [List.findSome?_cons, List.findSome?_cons]
      generalize entry.methods.get? name = method at found
      generalize other.methods.get? name = methodTwin at found
      cases found with
      | none => exact induction
      | some closures => exact .some closures

theorem Closure.Mirrored.name {between : List Bool} {closure twin : Closure}
    (mirrored : closure.Mirrored between matching twin) : twin.name = closure.name := by
  obtain ⟨_, _, _, agrees⟩ := mirrored.decl
  exact congrArg Token.lexeme agrees.header.1

theorem Closure.Mirrored.arity {between : List Bool} {closure twin : Closure}
    (mirrored : closure.Mirrored between matching twin) : twin.arity = closure.arity := by
  obtain ⟨_, _, _, agrees⟩ := mirrored.decl
  exact congrArg List.length agrees.header.2

theorem ClassValue.Mirrored.arity (mirrored : cls.Mirrored matching clsTwin) :
    clsTwin.arity = cls.arity := by
  have found := mirrored.method? initializerName
  unfold ClassValue.arity ClassValue.initializer?
  generalize cls.method? initializerName = method at found
  generalize clsTwin.method? initializerName = methodTwin at found
  cases found with
  | none => rfl
  | some same => exact same.arity

theorem Value.Mirrored.isTruthy (mirrored : value.Mirrored matching twin) :
    twin.isTruthy = value.isTruthy := by
  cases mirrored <;> rfl

/-- Values that mirror each other look the same. -/
theorem Value.Mirrored.shown (mirrored : value.Mirrored matching twin) :
    twin.shown = value.shown := by
  cases mirrored with
  | closure same => simp only [Value.shown, same.name]
  | «class» same => exact same.own.name
  | object same => exact congrArg (· ++ " instance") same.own.name
  | _ => rfl

theorem Value.Mirrored.isEqual {other otherTwin : Value} (mirrored : value.Mirrored matching twin)
    (otherMirrored : other.Mirrored matching otherTwin) :
    twin.isEqual otherTwin = value.isEqual other := by
  cases mirrored with
  | closure same =>
      cases otherMirrored with
      | closure otherSame => simp only [Value.isEqual, same.serial, otherSame.serial]
      | _ => rfl
  | «class» same =>
      cases otherMirrored with
      | «class» otherSame => simp only [Value.isEqual, same.own.serial, otherSame.own.serial]
      | _ => rfl
  | _ => cases otherMirrored <;> rfl

end Views

end LoxLang
