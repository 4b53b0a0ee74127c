import LoxLang.Proofs.Renaming.Values
import LoxLang.Proofs.Run.Effects
import Mathlib.Data.List.Find

/-!
# Parts of a run on renamed machines

Two parts of runs simulate each other if from related machines they come to related
ends.  The rules for sequences and for the elementary steps are all that later
proofs use.
-/

namespace LoxLang

/-- What a list holds after something is added at its end, it held before, or it was added. -/
theorem known_append {α : Type} {list : List α} {added found : α} {index : Nat}
    (known : (list ++ [added])[index]? = some found) :
    list[index]? = some found ∨ index = list.length ∧ found = added := by
  rcases Nat.lt_trichotomy index list.length with before | rfl | beyond
  · rw [List.getElem?_append_left before] at known
    exact .inl known
  · rw [List.getElem?_concat_length] at known
    exact .inr ⟨rfl, (Option.some.inj known).symm⟩
  · have outside : (list ++ [added]).length ≤ index := by
      rw [List.length_append]
      exact beyond
    rw [List.getElem?_eq_none outside] at known
    cases known

variable {r : Renaming} {marking later : Marking}

/-- The second forest is the first one with the bindings of some frames renamed. -/
structure Forest.Renamed (r : Renaming) (marking : Marking)
    (forest twin : Forest Value) : Prop where
  size : forest.size = marking.length
  sizeTwin : twin.size = marking.length
  outer : ∀ frame, twin.outer frame = forest.outer frame
  /-- The names of the top level are in no scope. -/
  root : marking[globalFrame]? = some []
  chain : ∀ frame marks, marking[frame]? = some marks → ∀ distance other,
    (forest.chain frame)[distance]? = some other → ∃ inner, marking[other]? = some inner ∧
      markedAt inner (some 0) = markedAt marks (some distance)
  bindings : ∀ frame marks, marking[frame]? = some marks →
    Table.Renamed r (markedAt marks (some 0)) (Value.Renamed r marking) (forest.bindings frame)
      (twin.bindings frame)

/-- Related things are found, or nothing is found for the same reason. -/
inductive FoundAlike {α β : Type} (related : α → β → Prop) :
    Except AccessError α → Except AccessError β → Prop where
  | ok {found : α} {twin : β} : related found twin → FoundAlike related (.ok found) (.ok twin)
  | error {error : AccessError} : FoundAlike related (.error error) (.error error)

namespace Forest

namespace Renamed

variable {forest twin : Forest Value} {frame : FrameId} {marks : List Bool} {name : String}
  {site : Site} {distance : Nat}

theorem chain_eq (renamed : forest.Renamed r marking twin) (frame : FrameId) :
    twin.chain frame = forest.chain frame := by
  simp only [Forest.chain, renamed.outer]

/-- A value is bound in related frames under a name that may stand there. -/
theorem define (renamed : forest.Renamed r marking twin) (known : marking[frame]? = some marks)
    (allowed : r.Allows (markedAt marks (some 0)) name) {value valueTwin : Value}
    (related : value.Renamed r marking valueTwin) :
    (forest.define frame name value).Renamed r marking
      (twin.define frame (r.apply (markedAt marks (some 0)) name) valueTwin) where
  size := by rw [size_define, renamed.size]
  sizeTwin := by rw [size_define, renamed.sizeTwin]
  outer := by
    intro other
    rw [outer_define, outer_define, renamed.outer]
  root := renamed.root
  chain := by
    intro other otherMarks otherKnown distance found there
    rw [chain_define] at there
    exact renamed.chain other otherMarks otherKnown distance found there
  bindings := by
    intro other otherMarks otherKnown
    by_cases same : frame = other
    · subst same
      cases known.symm.trans otherKnown
      have inside := (List.getElem?_eq_some_iff.1 known).1
      rw [bindings_define_self forest name value (renamed.size.symm ▸ inside),
        bindings_define_self twin _ valueTwin (renamed.sizeTwin.symm ▸ inside)]
      exact (renamed.bindings frame marks known).insert name allowed related
    · rw [bindings_define_of_ne forest name value same, bindings_define_of_ne twin _ valueTwin same]
      exact renamed.bindings other otherMarks otherKnown

/-- A frame is made inside a frame, for a scope that is marked or not. -/
theorem child (renamed : forest.Renamed r marking twin) (known : marking[frame]? = some marks)
    (mark : Bool) :
    (forest.child frame).Renamed r (marking ++ [mark :: marks]) (twin.child frame) := by
  have grows : marking <+: marking ++ [mark :: marks] := List.prefix_append _ _
  have sizes : twin.size = forest.size := renamed.sizeTwin.trans renamed.size.symm
  refine ⟨by simp [renamed.size], by simp [renamed.sizeTwin], ?_,
    Marking.later grows renamed.root, ?_, ?_⟩
  · intro other
    rw [outer_child, outer_child, sizes, renamed.chain_eq, renamed.outer]
  · intro other otherMarks otherKnown distance found there
    rcases known_append otherKnown with otherKnown | ⟨rfl, rfl⟩
    · have older : other < forest.size := by
        rw [renamed.size]
        exact (List.getElem?_eq_some_iff.1 otherKnown).1
      rw [chain_child_of_lt forest frame older] at there
      obtain ⟨inner, innerKnown, same⟩ :=
        renamed.chain other otherMarks otherKnown distance found there
      exact ⟨inner, Marking.later grows innerKnown, same⟩
    · rw [← renamed.size, chain_child_self, renamed.size] at there
      cases distance with
      | zero =>
          cases there
          exact ⟨mark :: marks, otherKnown, rfl⟩
      | succ distance =>
          rw [List.getElem?_cons_succ] at there
          obtain ⟨inner, innerKnown, same⟩ := renamed.chain frame marks known distance found there
          exact ⟨inner, Marking.later grows innerKnown, same⟩
  · intro other otherMarks otherKnown
    rw [bindings_child, bindings_child]
    rcases known_append otherKnown with otherKnown | ⟨rfl, rfl⟩
    · apply (renamed.bindings other otherMarks otherKnown).mono
      exact fun _ _ related => related.mono grows
    · rw [bindings_of_size_le (Nat.le_of_eq renamed.size),
        bindings_of_size_le (Nat.le_of_eq renamed.sizeTwin)]
      exact Table.Renamed.empty

/-- The frame at a distance is the same in both forests, and so is the mark of its scope. -/
theorem ancestor (renamed : forest.Renamed r marking twin) (known : marking[frame]? = some marks)
    (distance : Nat) :
    FoundAlike (fun found other => other = found ∧ ∃ inner, marking[found]? = some inner ∧
      markedAt inner (some 0) = markedAt marks (some distance))
      (forest.ancestor frame distance) (twin.ancestor frame distance) := by
  unfold Forest.ancestor
  rw [renamed.chain_eq]
  cases there : (forest.chain frame)[distance]? with
  | none => exact .error
  | some found => exact .ok ⟨rfl, renamed.chain frame marks known distance found there⟩

theorem getAt (renamed : forest.Renamed r marking twin) (known : marking[frame]? = some marks)
    (allowed : r.Allows (markedAt marks (some distance)) name) :
    FoundAlike (Value.Renamed r marking) (forest.getAt frame distance name)
      (twin.getAt frame distance (r.apply (markedAt marks (some distance)) name)) := by
  have ancestors := renamed.ancestor known distance
  unfold Forest.getAt
  generalize forest.ancestor frame distance = found at ancestors
  generalize twin.ancestor frame distance = foundTwin at ancestors
  cases ancestors with
  | error => exact .error
  | @ok there other same =>
      obtain ⟨rfl, inner, innerKnown, markSame⟩ := same
      rw [← markSame] at allowed ⊢
      have bound := (renamed.bindings other inner innerKnown).get? name allowed
      simp only [bind, Except.bind]
      generalize (forest.bindings other).get? name = value at bound
      generalize (twin.bindings other).get? _ = valueTwin at bound
      cases bound with
      | none => exact .error
      | some related => exact .ok related

/-- The frames around the outermost one, which is one of them, have no marked scopes. -/
theorem unmarked (renamed : forest.Renamed r marking twin) {other : FrameId}
    (member : other ∈ forest.chain globalFrame) :
    Table.Renamed r false (Value.Renamed r marking) (forest.bindings other)
      (twin.bindings other) := by
  obtain ⟨distance, there⟩ := List.mem_iff_getElem?.1 member
  obtain ⟨inner, innerKnown, same⟩ := renamed.chain globalFrame [] renamed.root distance other there
  have bindings := renamed.bindings other inner innerKnown
  rw [same] at bindings
  exact bindings

/-- Names of the top level are not renamed. -/
theorem get (renamed : forest.Renamed r marking twin) (name : String) :
    FoundAlike (Value.Renamed r marking) (forest.get globalFrame name)
      (twin.get globalFrame name) := by
  have tables : ∀ other ∈ forest.chain globalFrame, Table.Renamed r false (Value.Renamed r marking)
      (forest.bindings other) (twin.bindings other) := fun _ member => renamed.unmarked member
  unfold Forest.get
  rw [renamed.chain_eq]
  generalize forest.chain globalFrame = frames at tables
  induction frames with
  | nil => exact .error
  | cons first rest induction =>
      have bound := (tables first List.mem_cons_self).get?_unmarked name
      rw [List.findSome?_cons, List.findSome?_cons]
      generalize (forest.bindings first).get? name = value at bound
      generalize (twin.bindings first).get? name = valueTwin at bound
      cases bound with
      | none => exact induction fun other member => tables other (List.mem_cons_of_mem _ member)
      | some related => exact .ok related

theorem holder (renamed : forest.Renamed r marking twin) (name : String) :
    FoundAlike (fun found other => other = found ∧ ∃ inner, marking[found]? = some inner ∧
      markedAt inner (some 0) = false)
      (forest.holder globalFrame name) (twin.holder globalFrame name) := by
  unfold Forest.holder
  rw [renamed.chain_eq]
  have sameFind : (forest.chain globalFrame).find? (fun other => (twin.bindings other).binds name) =
      (forest.chain globalFrame).find? fun other => (forest.bindings other).binds name := by
    apply List.find?_congr
    intro other member
    exact (renamed.unmarked member).binds_unmarked name
  rw [sameFind]
  cases first : (forest.chain globalFrame).find?
      fun other => (forest.bindings other).binds name with
  | none => exact .error
  | some found =>
      obtain ⟨distance, there⟩ := List.mem_iff_getElem?.1 (List.mem_of_find?_eq_some first)
      exact .ok ⟨rfl, renamed.chain globalFrame [] renamed.root distance found there⟩

end Renamed

end Forest

/-- The second machine is the first one, renamed.  It has a past: these lines, the latest first,
were printed there and are not to be found on the first one. -/
structure Machine.Renamed (r : Renaming) (marking : Marking) (past : List String)
    (machine twin : Machine) : Prop where
  forest : machine.forest.Renamed r marking twin.forest
  objects : twin.objects.size = machine.objects.size
  fields : ∀ id,
    Table.Renamed r false (Value.Renamed r marking) (machine.fields id) (twin.fields id)
  serial : twin.serial = machine.serial
  current : twin.current = machine.current
  printed : twin.printed = machine.printed ++ past
  readings : twin.readings = machine.readings

/-- Both runs stop for the same reason, at tokens that are near. -/
inductive Stop.Renamed (r : Renaming) : Stop → Stop → Prop where
  | error {about twin : Token} {fault : Fault} : r.near about twin →
      Stop.Renamed r (.error ⟨about, fault⟩) (.error ⟨twin, fault⟩)
  | overflow : Stop.Renamed r .overflow .overflow
  | outOfPatience : Stop.Renamed r .outOfPatience .outOfPatience
  | defect {defect : Defect} : Stop.Renamed r (.defect defect) (.defect defect)

namespace Run

variable {α β γ δ : Type} {frame : FrameId} {marks : List Bool}

/-- Both runs end in the same way in the frame, on related machines. -/
inductive EndsAlike (r : Renaming) (marking : Marking) (past : List String) (frame : FrameId)
    (results : Marking → α → β → Prop) :
    EStateM.Result Stop Machine α → EStateM.Result Stop Machine β → Prop where
  | ok {result : α} {other : β} {after twin : Machine} {later : Marking} : marking <+: later →
      results later result other → after.Renamed r later past twin → after.current = frame →
      EndsAlike r marking past frame results (.ok result after) (.ok other twin)
  | error {stop other : Stop} {after twin : Machine} {later : Marking} : marking <+: later →
      stop.Renamed r other → after.Renamed r later past twin → after.current = frame →
      EndsAlike r marking past frame results (.error stop after) (.error other twin)

/-- Started in the frame on related machines, both parts of runs end alike. -/
def Simulates (r : Renaming) (marking : Marking) (frame : FrameId)
    (results : Marking → α → β → Prop) (part : Run α) (twin : Run β) : Prop :=
  ∀ ⦃past : List String⦄ (machine other : Machine),
    machine.Renamed r marking past other → machine.current = frame →
    EndsAlike r marking past frame results (part machine) (twin other)

/-- The results are the same. -/
abbrev Same : Marking → α → α → Prop := fun _ => Eq

variable {results : Marking → α → β → Prop} {finals : Marking → γ → δ → Prop} {part : Run α}
  {twin : Run β}

theorem EndsAlike.earlier {past : List String} {first : EStateM.Result Stop Machine α}
    {second : EStateM.Result Stop Machine β}
    (alike : EndsAlike r later past frame results first second)
    (grows : marking <+: later) : EndsAlike r marking past frame results first second := by
  cases alike with
  | ok further related machines current =>
      exact .ok (grows.trans further) related machines current
  | error further stops machines current =>
      exact .error (grows.trans further) stops machines current

namespace Simulates

theorem pure {result : α} {other : β} (related : results marking result other) :
    Simulates r marking frame results (Pure.pure result) (Pure.pure other) :=
  fun _ _ _ machines current => .ok (List.prefix_refl _) related machines current

theorem throw {stop other : Stop} (stops : stop.Renamed r other) :
    Simulates r marking frame results (MonadExcept.throw stop) (MonadExcept.throw other) :=
  fun _ _ _ machines current => .error (List.prefix_refl _) stops machines current

theorem fault {about aboutTwin : Token} (near : r.near about aboutTwin) (fault : Fault) :
    Simulates r marking frame results (Run.fault about fault) (Run.fault aboutTwin fault) :=
  throw (.error near)

theorem defect (defect : Defect) :
    Simulates r marking frame results (Run.defect defect) (Run.defect defect) :=
  throw .defect

theorem bind {next : α → Run γ} {nextTwin : β → Run δ}
    (first : Simulates r marking frame results part twin)
    (second : ∀ later result other, marking <+: later → results later result other →
      Simulates r later frame finals (next result) (nextTwin other)) :
    Simulates r marking frame finals (part >>= next) (twin >>= nextTwin) := by
  intro past machine other machines current
  have ends := first machine other machines current
  show EndsAlike r marking past frame finals (EStateM.bind part next machine)
    (EStateM.bind twin nextTwin other)
  unfold EStateM.bind
  generalize part machine = firstEnd at ends
  generalize twin other = secondEnd at ends
  cases ends with
  | ok grows related afterMachines afterCurrent =>
      exact (second _ _ _ grows related _ _ afterMachines afterCurrent).earlier grows
  | error grows stops afterMachines afterCurrent =>
      exact .error grows stops afterMachines afterCurrent

theorem bindSame {first firstTwin : Run α} {next : α → Run γ} {nextTwin : α → Run δ}
    (same : Simulates r marking frame Same first firstTwin)
    (second : ∀ later result, marking <+: later →
      Simulates r later frame finals (next result) (nextTwin result)) :
    Simulates r marking frame finals (first >>= next) (firstTwin >>= nextTwin) := by
  apply bind same
  rintro later result _ grows rfl
  exact second later result grows

theorem inFrame {inner : FrameId} (inside : Simulates r marking inner results part twin) :
    Simulates r marking frame results (Run.inFrame inner part) (Run.inFrame inner twin) := by
  intro past machine other machines current
  have entered : Machine.Renamed r marking past { machine with current := inner }
      { other with current := inner } :=
    { machines with current := rfl }
  have ends := inside _ _ entered rfl
  unfold Run.inFrame
  generalize part _ = firstEnd at ends
  generalize twin _ = secondEnd at ends
  cases ends with
  | ok grows related afterMachines _ =>
      exact .ok grows related { afterMachines with current := machines.current } current
  | error grows stops afterMachines _ =>
      exact .error grows stops { afterMachines with current := machines.current } current

theorem catchOverflow {about aboutTwin : Token} (near : r.near about aboutTwin)
    (simulates : Simulates r marking frame results part twin) :
    Simulates r marking frame results (Run.catchOverflow about part)
      (Run.catchOverflow aboutTwin twin) := by
  intro past machine other machines current
  have ends := simulates machine other machines current
  unfold Run.catchOverflow
  generalize part machine = firstEnd at ends
  generalize twin other = secondEnd at ends
  cases ends with
  | ok grows related afterMachines afterCurrent =>
      exact .ok grows related afterMachines afterCurrent
  | error grows stops afterMachines afterCurrent =>
      cases stops with
      | error tokensNear => exact .error grows (.error tokensNear) afterMachines afterCurrent
      | overflow => exact .error grows (.error near) afterMachines afterCurrent
      | outOfPatience => exact .error grows .outOfPatience afterMachines afterCurrent
      | defect => exact .error grows .defect afterMachines afterCurrent

/-! ## Elementary steps -/

theorem here : Simulates r marking frame (fun _ found other => found = frame ∧ other = frame)
    Run.here Run.here := by
  intro past machine other machines current
  exact .ok (List.prefix_refl _) ⟨current, machines.current.trans current⟩ machines current

theorem freshSerial : Simulates r marking frame Same Run.freshSerial Run.freshSerial := by
  intro past machine other machines current
  have afterwards : Machine.Renamed r marking past { machine with serial := machine.serial + 1 }
      { other with serial := other.serial + 1 } :=
    { machines with serial := congrArg (· + 1) machines.serial }
  exact .ok (List.prefix_refl _) machines.serial.symm afterwards current

theorem emit (line : String) : Simulates r marking frame Same (Run.emit line) (Run.emit line) := by
  intro past machine other machines current
  have afterwards : Machine.Renamed r marking past
      { machine with printed := line :: machine.printed }
      { other with printed := line :: other.printed } :=
    { machines with printed := congrArg (line :: ·) machines.printed }
  exact .ok (List.prefix_refl _) rfl afterwards current

theorem readClock (host : Host) :
    Simulates r marking frame (Value.Renamed r) (Run.readClock host) (Run.readClock host) := by
  intro past machine other machines current
  have afterwards : Machine.Renamed r marking past { machine with readings := machine.readings + 1 }
      { other with readings := other.readings + 1 } :=
    { machines with readings := congrArg (· + 1) machines.readings }
  unfold Run.readClock
  rw [machines.readings]
  rw [machines.readings] at afterwards
  exact .ok (List.prefix_refl _) .number afterwards current

theorem childOf {parent : FrameId} (known : marking[parent]? = some marks) (mark : Bool) :
    Simulates r marking frame (fun later made other => other = made ∧
      later[made]? = some (mark :: marks)) (Run.childOf parent) (Run.childOf parent) := by
  intro past machine other machines current
  have forests := machines.forest.child known mark
  have grows : marking <+: marking ++ [mark :: marks] := List.prefix_append _ _
  have afterwards : Machine.Renamed r (marking ++ [mark :: marks]) past
      { machine with forest := machine.forest.child parent }
      { other with forest := other.forest.child parent } :=
    { machines with
      forest := forests
      fields := fun id => (machines.fields id).mono fun _ _ related => related.mono grows }
  refine .ok grows ⟨?_, ?_⟩ afterwards current
  · rw [machines.forest.size, machines.forest.sizeTwin]
  · rw [machines.forest.size]
    simp

theorem defineIn {inner : FrameId} {name nameTwin : String} {value valueTwin : Value}
    (known : marking[inner]? = some marks)
    (sameName : nameTwin = r.apply (markedAt marks (some 0)) name)
    (allowed : r.Allows (markedAt marks (some 0)) name)
    (related : value.Renamed r marking valueTwin) :
    Simulates r marking frame Same (Run.defineIn inner name value)
      (Run.defineIn inner nameTwin valueTwin) := by
  subst sameName
  intro past machine other machines current
  have afterwards : Machine.Renamed r marking past
      { machine with forest := machine.forest.define inner name value }
      { other with forest := other.forest.define inner _ valueTwin } :=
    { machines with forest := machines.forest.define known allowed related }
  exact .ok (List.prefix_refl _) rfl afterwards current

theorem defineHere {name nameTwin : String} {value valueTwin : Value}
    (known : marking[frame]? = some marks)
    (sameName : nameTwin = r.apply (markedAt marks (some 0)) name)
    (allowed : r.Allows (markedAt marks (some 0)) name)
    (related : value.Renamed r marking valueTwin) :
    Simulates r marking frame Same (Run.defineHere name value)
      (Run.defineHere nameTwin valueTwin) := by
  intro past machine other machines current
  show EndsAlike r marking past frame Same (Run.defineIn machine.current name value machine)
    (Run.defineIn other.current nameTwin valueTwin other)
  rw [machines.current, current]
  exact defineIn known sameName allowed related machine other machines current

theorem newObject {cls clsTwin : ClassValue} (related : cls.Renamed r marking clsTwin) :
    Simulates r marking frame (Value.Renamed r) (Run.newObject cls) (Run.newObject clsTwin) := by
  intro past machine other machines current
  have afterwards : Machine.Renamed r marking past machine.created other.created :=
    { machines with
      objects := by simp [Machine.created, machines.objects]
      fields := by
        intro id
        rw [Machine.fields_created, Machine.fields_created]
        exact machines.fields id }
  unfold Run.newObject
  rw [machines.objects]
  exact .ok (List.prefix_refl _) (.object related) afterwards current

theorem field? (id : Nat) (name : String) :
    Simulates r marking frame (fun later => Option.Rel (Value.Renamed r later))
      (Run.field? id name) (Run.field? id name) := by
  intro past machine other machines current
  have found := (machines.fields id).get?_unmarked name
  exact .ok (List.prefix_refl _) found machines current

theorem setField (id : Nat) (name : String) {value valueTwin : Value}
    (related : value.Renamed r marking valueTwin) :
    Simulates r marking frame Same (Run.setField id name value)
      (Run.setField id name valueTwin) := by
  intro past machine other machines current
  have afterwards : Machine.Renamed r marking past (machine.withField id name value)
      (other.withField id name valueTwin) :=
    { machines with
      objects := by simp [Machine.withField, machines.objects]
      fields := by
        intro found
        rw [Machine.fields_withField, Machine.fields_withField, machines.objects]
        split
        · exact (machines.fields found).insert_unmarked name related
        · exact machines.fields found }
  exact .ok (List.prefix_refl _) rfl afterwards current

theorem lookUpAt {inner : FrameId} {distance : Nat} {name : String}
    (known : marking[inner]? = some marks)
    (kept : r.apply (markedAt marks (some distance)) name = name)
    (allowed : r.Allows (markedAt marks (some distance)) name) :
    Simulates r marking frame (Value.Renamed r) (Run.lookUpAt inner distance name)
      (Run.lookUpAt inner distance name) := by
  intro past machine other machines current
  have found := machines.forest.getAt known allowed
  rw [kept] at found
  unfold Run.lookUpAt
  generalize machine.forest.getAt inner distance name = value at found
  generalize other.forest.getAt inner distance name = valueTwin at found
  cases found with
  | ok related => exact .ok (List.prefix_refl _) related machines current
  | error => exact .error (List.prefix_refl _) .defect machines current

section Sites

variable {name nameTwin : Token} {site : Site}

/-- Only a name of the top level, which is not renamed, is told in an error. -/
theorem accessStop (names : r.Names (markedAt marks site) name nameTwin) (error : AccessError) :
    (Run.accessStop name site error).Renamed r (Run.accessStop nameTwin site error) := by
  cases site with
  | none =>
      have lexeme : nameTwin.lexeme = name.lexeme := Renaming.Keeps.lexeme_eq names
      unfold Run.accessStop
      rw [lexeme]
      exact .error names.near
  | some distance => exact .defect

theorem lookUp (known : marking[frame]? = some marks)
    (names : r.Names (markedAt marks site) name nameTwin) :
    Simulates r marking frame (Value.Renamed r) (Run.lookUp name site)
      (Run.lookUp nameTwin site) := by
  intro past machine other machines current
  have found : FoundAlike (Value.Renamed r marking)
      (valueOf machine.forest machine.current name.lexeme site)
      (valueOf other.forest other.current nameTwin.lexeme site) := by
    rw [machines.current, current, names.lexeme]
    cases site with
    | none =>
        rw [show r.apply (markedAt marks none) name.lexeme = name.lexeme from r.apply_false _]
        exact machines.forest.get name.lexeme
    | some distance => exact machines.forest.getAt known names.allowed
  unfold Run.lookUp
  generalize valueOf machine.forest machine.current name.lexeme site = value at found
  generalize valueOf other.forest other.current nameTwin.lexeme site = valueTwin at found
  cases found with
  | ok related => exact .ok (List.prefix_refl _) related machines current
  | error => exact .error (List.prefix_refl _) (accessStop names _) machines current

theorem store (known : marking[frame]? = some marks)
    (names : r.Names (markedAt marks site) name nameTwin) {value valueTwin : Value}
    (related : value.Renamed r marking valueTwin) :
    Simulates r marking frame Same (Run.store name site value)
      (Run.store nameTwin site valueTwin) := by
  intro past machine other machines current
  have found : FoundAlike (fun found other => other = found ∧ ∃ inner,
      marking[found]? = some inner ∧
      markedAt inner (some 0) = markedAt marks site)
      (target machine.forest machine.current name.lexeme site)
      (target other.forest other.current nameTwin.lexeme site) := by
    rw [machines.current, current]
    cases site with
    | none =>
        have lexeme : nameTwin.lexeme = name.lexeme := Renaming.Keeps.lexeme_eq names
        rw [lexeme]
        exact machines.forest.holder name.lexeme
    | some distance => exact machines.forest.ancestor known distance
  unfold Run.store
  generalize target machine.forest machine.current name.lexeme site = there at found
  generalize target other.forest other.current nameTwin.lexeme site = thereTwin at found
  cases found with
  | @ok inner innerTwin same =>
      obtain ⟨rfl, innerMarks, innerKnown, markSame⟩ := same
      have allowed := names.allowed
      have sameName := names.lexeme
      rw [← markSame] at allowed sameName
      exact defineIn innerKnown sameName allowed related machine other machines current
  | error => exact .error (List.prefix_refl _) (accessStop names _) machines current

end Sites

end Simulates

end Run

end LoxLang
