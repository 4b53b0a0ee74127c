import LoxLang.Machine
import LoxLang.Proofs.Renaming.Relation

/-!
# Renamed machines

Two machines are related if one is the other one with names replaced, in the frames
that are copies of marked scopes and in the declarations of functions.  A marking
says for every frame which of the scopes around are marked, its own first.  Frames
are only added, so a marking only grows.
-/

namespace LoxLang

variable {V W : Type} {r : Renaming}

/-- The same names with the values in the same order, renamed where the scope is marked. -/
def Table.Renamed (r : Renaming) (marked : Bool) (values : V → W → Prop) (table : Table V)
    (twin : Table W) : Prop :=
  List.Forall₂ (fun entry other => r.Allows marked entry.1 ∧
    other.1 = r.apply marked entry.1 ∧ values entry.2 other.2) table.entries twin.entries

/-- Sorting does not look at values. -/
theorem Table.map_sorted {T : Type} (table : Table V) (look : V → T) :
    table.sorted.map (fun entry => (entry.1, look entry.2)) =
      (table.entries.map fun entry => (entry.1, look entry.2)).mergeSort
        fun left right => left.1 ≤ right.1 :=
  List.map_mergeSort fun _ _ _ _ => rfl

namespace Table.Renamed

variable {marked : Bool} {values : V → W → Prop} {table : Table V} {twin : Table W}

theorem empty : Table.Renamed r marked values Table.empty Table.empty := .nil

theorem mono {others : V → W → Prop} (renamed : Table.Renamed r marked values table twin)
    (implies : ∀ value other, values value other → others value other) :
    Table.Renamed r marked others table twin :=
  List.Forall₂.imp (fun _ _ same => ⟨same.1, same.2.1, implies _ _ same.2.2⟩) renamed

theorem get? (renamed : Table.Renamed r marked values table twin) (name : String)
    (allowed : r.Allows marked name) :
    Option.Rel values (table.get? name) (twin.get? (r.apply marked name)) := by
  obtain ⟨entries⟩ := table
  obtain ⟨entriesTwin⟩ := twin
  simp only [Table.get?]
  simp only [Table.Renamed] at renamed
  induction renamed with
  | nil => exact .none
  | @cons entry other rest restTwin same others induction =>
      obtain ⟨key, value⟩ := entry
      obtain ⟨keyTwin, valueTwin⟩ := other
      obtain ⟨keyAllowed, keyEq, related⟩ := same
      dsimp only at keyAllowed keyEq related
      simp only [Table.lookup, keyEq, r.apply_eq_iff keyAllowed allowed]
      split
      · exact .some related
      · exact induction

theorem binds (renamed : Table.Renamed r marked values table twin) (name : String)
    (allowed : r.Allows marked name) : twin.binds (r.apply marked name) = table.binds name := by
  have same := renamed.get? name allowed
  unfold Table.binds
  generalize table.get? name = found at same
  generalize twin.get? (r.apply marked name) = foundTwin at same
  cases same <;> rfl

theorem insert (renamed : Table.Renamed r marked values table twin) (name : String)
    (allowed : r.Allows marked name)
    {value : V} {valueTwin : W} (related : values value valueTwin) :
    Table.Renamed r marked values (table.insert name value)
      (twin.insert (r.apply marked name) valueTwin) := by
  obtain ⟨entries⟩ := table
  obtain ⟨entriesTwin⟩ := twin
  simp only [Table.Renamed, Table.insert] at renamed ⊢
  induction renamed with
  | nil => exact .cons ⟨allowed, rfl, related⟩ .nil
  | @cons entry other rest restTwin same others induction =>
      obtain ⟨key, old⟩ := entry
      obtain ⟨keyTwin, oldTwin⟩ := other
      obtain ⟨keyAllowed, keyEq, oldRelated⟩ := same
      dsimp only at keyAllowed keyEq oldRelated
      simp only [Table.replace, keyEq, r.apply_eq_iff keyAllowed allowed]
      split
      · exact .cons ⟨keyAllowed, rfl, related⟩ others
      · exact .cons ⟨keyAllowed, rfl, oldRelated⟩ induction

/-! Where nothing is renamed every name may stand. -/

theorem get?_unmarked (renamed : Table.Renamed r false values table twin) (name : String) :
    Option.Rel values (table.get? name) (twin.get? name) := by
  have found := renamed.get? name nofun
  rwa [r.apply_false] at found

theorem binds_unmarked (renamed : Table.Renamed r false values table twin) (name : String) :
    twin.binds name = table.binds name := by
  have same := renamed.binds name nofun
  rwa [r.apply_false] at same

theorem insert_unmarked (renamed : Table.Renamed r false values table twin) (name : String)
    {value : V} {valueTwin : W} (related : values value valueTwin) :
    Table.Renamed r false values (table.insert name value) (twin.insert name valueTwin) := by
  have inserted := renamed.insert name nofun related
  rwa [r.apply_false] at inserted

/-- Where nothing is renamed the sorted entries come in the same order, and look alike if their
values do. -/
theorem sorted {T : Type} (renamed : Table.Renamed r false values table twin) {look : V → T}
    {lookTwin : W → T} (alike : ∀ value other, values value other → lookTwin other = look value) :
    twin.sorted.map (fun entry => (entry.1, lookTwin entry.2)) =
      table.sorted.map fun entry => (entry.1, look entry.2) := by
  have entries : twin.entries.map (fun entry => (entry.1, lookTwin entry.2)) =
      table.entries.map fun entry => (entry.1, look entry.2) := by
    unfold Table.Renamed at renamed
    generalize table.entries = entries at renamed
    generalize twin.entries = entriesTwin at renamed
    induction renamed with
    | nil => rfl
    | cons same others induction =>
        obtain ⟨_, keyEq, related⟩ := same
        rw [List.map_cons, List.map_cons, induction, keyEq, r.apply_false, alike _ _ related]
  rw [map_sorted, map_sorted, entries]

end Table.Renamed

/-- For each frame, which of the scopes are marked that its chain is made of copies of. -/
abbrev Marking := List (List Bool)

theorem Marking.later {earlier later : Marking} (grows : earlier <+: later) {frame : FrameId}
    {marks : List Bool} (known : earlier[frame]? = some marks) : later[frame]? = some marks := by
  obtain ⟨added, rfl⟩ := grows
  rw [List.getElem?_append_left (List.getElem?_eq_some_iff.1 known).1]
  exact known

variable {marking earlier later : Marking}

/-- The second function is the first one with its declaration renamed.  Between its frame and its
body lie scopes with the marks `between`. -/
structure Closure.Renamed (r : Renaming) (between : List Bool) (marking : Marking)
    (closure twin : Closure) : Prop where
  serial : twin.serial = closure.serial
  frame : twin.frame = closure.frame
  isInitializer : twin.isInitializer = closure.isInitializer
  decl : ∃ marks, marking[closure.frame]? = some marks ∧
    closure.decl.Renamed r (between ++ marks) twin.decl

/-- The methods of a class lie in the scope of `this`, which is never marked. -/
abbrev Closure.MethodRenamed (r : Renaming) : Marking → Closure → Closure → Prop :=
  Closure.Renamed r [false]

/-- The second class has the methods of the first one, renamed. -/
structure ClassEntry.Renamed (r : Renaming) (marking : Marking)
    (entry twin : ClassEntry) : Prop where
  serial : twin.serial = entry.serial
  name : twin.name = entry.name
  methods : Table.Renamed r false (Closure.MethodRenamed r marking) entry.methods twin.methods

/-- The classes along the second chain are those along the first one, renamed. -/
def ClassValue.Renamed (r : Renaming) (marking : Marking) (cls twin : ClassValue) : Prop :=
  List.Forall₂ (ClassEntry.Renamed r marking) cls.chain twin.chain

/-- The second value is the first one with the functions in it renamed. -/
inductive Value.Renamed (r : Renaming) (marking : Marking) : Value → Value → Prop where
  | nil : Value.Renamed r marking .nil .nil
  | bool {value : Bool} : Value.Renamed r marking (.bool value) (.bool value)
  | number {value : Float} : Value.Renamed r marking (.number value) (.number value)
  | text {value : String} : Value.Renamed r marking (.text value) (.text value)
  | primitive {function : Primitive} :
      Value.Renamed r marking (.primitive function) (.primitive function)
  | closure {closure twin : Closure} : closure.Renamed r [] marking twin →
      Value.Renamed r marking (.closure closure) (.closure twin)
  | class {cls twin : ClassValue} : cls.Renamed r marking twin →
      Value.Renamed r marking (.class cls) (.class twin)
  | object {id : Nat} {cls twin : ClassValue} : cls.Renamed r marking twin →
      Value.Renamed r marking (.object id cls) (.object id twin)

/-- A statement ends in the same way, with a renamed value. -/
inductive Completion.Renamed (r : Renaming) (marking : Marking) :
    Completion → Completion → Prop where
  | normal : Completion.Renamed r marking .normal .normal
  | returned {value twin : Value} : value.Renamed r marking twin →
      Completion.Renamed r marking (.returned value) (.returned twin)

section Growth

variable {between : List Bool}

theorem Closure.Renamed.mono {closure twin : Closure}
    (renamed : closure.Renamed r between earlier twin) (grows : earlier <+: later) :
    closure.Renamed r between later twin where
  serial := renamed.serial
  frame := renamed.frame
  isInitializer := renamed.isInitializer
  decl := by
    obtain ⟨marks, known, declRenamed⟩ := renamed.decl
    exact ⟨marks, Marking.later grows known, declRenamed⟩

theorem ClassValue.Renamed.mono {cls twin : ClassValue} (renamed : cls.Renamed r earlier twin)
    (grows : earlier <+: later) : cls.Renamed r later twin := by
  apply List.Forall₂.imp ?_ renamed
  intro entry other same
  exact ⟨same.serial, same.name, same.methods.mono fun _ _ method => method.mono grows⟩

theorem Value.Renamed.mono {value twin : Value} (renamed : value.Renamed r earlier twin)
    (grows : earlier <+: later) : value.Renamed r later twin := by
  cases renamed with
  | nil => exact .nil
  | bool => exact .bool
  | number => exact .number
  | text => exact .text
  | primitive => exact .primitive
  | closure same => exact .closure (same.mono grows)
  | «class» same => exact .class (same.mono grows)
  | object same => exact .object (same.mono grows)

end Growth

section Views

variable {value twin : Value} {cls clsTwin : ClassValue}

theorem ClassValue.Renamed.own (renamed : cls.Renamed r marking clsTwin) :
    cls.own.Renamed r marking clsTwin.own := by
  cases renamed with
  | cons same others => exact same

/-- The method of a name is found in the same class. -/
theorem ClassValue.Renamed.method? (renamed : cls.Renamed r marking clsTwin) (name : String) :
    Option.Rel (Closure.MethodRenamed r marking) (cls.method? name) (clsTwin.method? name) := by
  unfold ClassValue.method?
  unfold ClassValue.Renamed at renamed
  generalize cls.chain = chain at renamed
  generalize clsTwin.chain = chainTwin at renamed
  induction renamed with
  | nil => exact .none
  | @cons entry other rest restTwin same others induction =>
      have found := same.methods.get?_unmarked name
      rw [List.findSome?_cons, List.findSome?_cons]
      cases method : entry.methods.get? name with
      | none =>
          rw [method] at found
          cases methodTwin : other.methods.get? name with
          | none => exact induction
          | some closure =>
              rw [methodTwin] at found
              cases found
      | some closure =>
          rw [method] at found
          cases methodTwin : other.methods.get? name with
          | none =>
              rw [methodTwin] at found
              cases found
          | some closureTwin =>
              rw [methodTwin] at found
              exact found

theorem Closure.Renamed.arity {between : List Bool} {closure twin : Closure}
    (renamed : closure.Renamed r between marking twin) : twin.arity = closure.arity := by
  obtain ⟨marks, _, declRenamed⟩ := renamed.decl
  exact declRenamed.params_length

theorem ClassValue.Renamed.arity (renamed : cls.Renamed r marking clsTwin) :
    clsTwin.arity = cls.arity := by
  have found := renamed.method? initializerName
  unfold ClassValue.arity ClassValue.initializer?
  generalize cls.method? initializerName = method at found
  generalize clsTwin.method? initializerName = methodTwin at found
  cases found with
  | none => rfl
  | some same => exact same.arity

theorem Value.Renamed.isTruthy (renamed : value.Renamed r marking twin) :
    twin.isTruthy = value.isTruthy := by
  cases renamed <;> rfl

/-- Renamed values look the same. -/
theorem Value.Renamed.shown (renamed : value.Renamed r marking twin) :
    twin.shown = value.shown := by
  cases renamed with
  | closure same =>
      obtain ⟨marks, _, declRenamed⟩ := same.decl
      simp only [Value.shown, Closure.name, declRenamed.name.lexeme_eq]
  | «class» same => exact same.own.name
  | object same => exact congrArg (· ++ " instance") same.own.name
  | _ => rfl

theorem Value.Renamed.isEqual {other otherTwin : Value} (renamed : value.Renamed r marking twin)
    (otherRenamed : other.Renamed r marking otherTwin) :
    twin.isEqual otherTwin = value.isEqual other := by
  cases renamed with
  | closure same =>
      cases otherRenamed with
      | closure otherSame => simp only [Value.isEqual, same.serial, otherSame.serial]
      | _ => rfl
  | «class» same =>
      cases otherRenamed with
      | «class» otherSame => simp only [Value.isEqual, same.own.serial, otherSame.own.serial]
      | _ => rfl
  | object same => cases otherRenamed <;> rfl
  | _ => cases otherRenamed <;> rfl

end Views

end LoxLang
