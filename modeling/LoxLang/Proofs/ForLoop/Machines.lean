import LoxLang.Proofs.ForLoop.Values
import LoxLang.Proofs.Renaming.Machines

/-!
# Parts of a run with fewer frames

Two parts of runs mirror each other if from machines that do they come to such
machines, and end in the same way.  The first one may enter a frame, in which nothing is
bound, where the second one stays where it is.
-/

namespace LoxLang

variable {matching later : Matching}

namespace Matching

theorem keeps_append {added : Counterpart} {frame place : FrameId}
    (keeps : Keeps (matching ++ [added]) frame place) : matching.Keeps frame place ∨
      frame = matching.length ∧ place = added.frame ∧ added.IsKept := by
  obtain ⟨kept, known, isKept⟩ := keeps
  rcases known_append known with old | ⟨rfl, rfl⟩
  · exact .inl ⟨kept, old, isKept⟩
  · exact .inr ⟨rfl, rfl, isKept⟩

theorem keeps_added (matching : Matching) {added : Counterpart} (isKept : added.IsKept) :
    Keeps (matching ++ [added]) matching.length added.frame :=
  ⟨added.kept, List.getElem?_concat_length, isKept⟩

end Matching

/-- Frames of the second forest mirror those of the first one that are kept. -/
structure Forest.Mirrored (matching : Matching) (forest twin : Forest Value) : Prop where
  size : forest.size = matching.length
  inside : ∀ (frame : FrameId) (counterpart : Counterpart), matching[frame]? = some counterpart →
    counterpart.frame < twin.size
  root : matching[globalFrame]? = some ⟨globalFrame, []⟩
  chain : ∀ (frame : FrameId) (counterpart : Counterpart), matching[frame]? = some counterpart →
    List.Forall₂ matching.Keeps (keep counterpart.kept (forest.chain frame))
      (twin.chain counterpart.frame)
  distinct : ∀ frame other place, matching.Keeps frame place → matching.Keeps other place →
    frame = other
  bindings : ∀ frame place, matching.Keeps frame place →
    Table.Mirrored (Value.Mirrored matching) (forest.bindings frame) (twin.bindings place)

namespace Forest.Mirrored

variable {forest twin : Forest Value} {frame place : FrameId} {kept : List Bool}

theorem define (mirrored : forest.Mirrored matching twin) (keeps : matching.Keeps frame place)
    (name : String) {value valueTwin : Value} (related : value.Mirrored matching valueTwin) :
    (forest.define frame name value).Mirrored matching (twin.define place name valueTwin) where
  size := by rw [size_define, mirrored.size]
  inside := by
    rw [size_define]
    exact mirrored.inside
  root := mirrored.root
  chain := by
    simp only [chain_define]
    exact mirrored.chain
  distinct := mirrored.distinct
  bindings := by
    intro other otherPlace otherKeeps
    by_cases same : frame = other
    · subst same
      obtain ⟨kept, known, _⟩ := keeps
      obtain ⟨otherKept, otherKnown, _⟩ := id otherKeeps
      cases known.symm.trans otherKnown
      have present : frame < forest.size := by
        rw [mirrored.size]
        exact (List.getElem?_eq_some_iff.1 known).1
      rw [bindings_define_self _ _ _ present,
        bindings_define_self _ _ _ (mirrored.inside _ _ known)]
      exact (mirrored.bindings _ _ otherKeeps).insert name related
    · have apart : place ≠ otherPlace := by
        rintro rfl
        exact same (mirrored.distinct _ _ _ keeps otherKeeps)
      rw [bindings_define_of_ne _ _ _ same, bindings_define_of_ne _ _ _ apart]
      exact mirrored.bindings _ _ otherKeeps

/-- A frame is made, and the second forest has a place for it: a new one if it is kept. -/
theorem extend (mirrored : forest.Mirrored matching twin) {made : Counterpart}
    {twinLater : Forest Value} (inside : made.frame < twinLater.size)
    (larger : twin.size ≤ twinLater.size)
    (chains : ∀ other < twin.size, twinLater.chain other = twin.chain other)
    (tables : ∀ other, twinLater.bindings other = twin.bindings other)
    (chain : List.Forall₂ (Matching.Keeps (matching ++ [made]))
      (keep made.kept (forest.size :: forest.chain frame)) (twinLater.chain made.frame))
    (isNew : made.IsKept → made.frame = twin.size) :
    (forest.child frame).Mirrored (matching ++ [made]) twinLater := by
  have grows : matching <+: matching ++ [made] := List.prefix_append _ _
  -- what was kept before has a place that is not new
  have older {other otherPlace : FrameId} (keeps : matching.Keeps other otherPlace) :
      otherPlace < twin.size := by
    obtain ⟨_, there, _⟩ := keeps
    exact mirrored.inside _ _ there
  refine ⟨by simp [mirrored.size], ?_, Matching.known_later grows mirrored.root, ?_, ?_, ?_⟩
  · intro other counterpart there
    rcases known_append there with there | ⟨_, rfl⟩
    · exact Nat.lt_of_lt_of_le (mirrored.inside _ _ there) larger
    · exact inside
  · intro other counterpart there
    rcases known_append there with there | ⟨rfl, rfl⟩
    · have old : other < forest.size := by
        rw [mirrored.size]
        exact (List.getElem?_eq_some_iff.1 there).1
      rw [chains _ (mirrored.inside _ _ there), chain_child_of_lt forest frame old]
      exact (mirrored.chain other counterpart there).imp fun _ _ keeps => keeps.mono grows
    · rw [← mirrored.size, chain_child_self]
      exact chain
  · intro first second otherPlace firstKeeps secondKeeps
    rcases Matching.keeps_append firstKeeps with firstOld | ⟨rfl, rfl, isKept⟩
    · rcases Matching.keeps_append secondKeeps with secondOld | ⟨rfl, rfl, isKept⟩
      · exact mirrored.distinct _ _ _ firstOld secondOld
      · exact absurd (isNew isKept) (Nat.ne_of_lt (older firstOld))
    · rcases Matching.keeps_append secondKeeps with secondOld | ⟨rfl, _, _⟩
      · exact absurd (isNew isKept) (Nat.ne_of_lt (older secondOld))
      · rfl
  · intro other otherPlace keeps
    rw [bindings_child, tables]
    rcases Matching.keeps_append keeps with old | ⟨rfl, rfl, isKept⟩
    · exact (mirrored.bindings _ _ old).mono fun _ _ related => related.mono grows
    · rw [isNew isKept, bindings_of_size_le (Nat.le_of_eq mirrored.size),
        bindings_of_size_le (Nat.le_refl _)]
      exact .empty

/-- A frame is made on both sides. -/
theorem child (mirrored : forest.Mirrored matching twin)
    (known : matching[frame]? = some ⟨place, kept⟩) :
    (forest.child frame).Mirrored (matching ++ [⟨twin.size, true :: kept⟩])
      (twin.child place) := by
  refine mirrored.extend (by simp) (by simp) (fun _ => chain_child_of_lt twin place)
    (bindings_child twin place) ?_ fun _ => rfl
  rw [chain_child_self]
  refine .cons (mirrored.size ▸ Matching.keeps_added matching rfl) ?_
  exact (mirrored.chain _ _ known).imp fun _ _ keeps => keeps.mono (List.prefix_append _ _)

/-- A frame is made on the first side only, and is not kept. -/
theorem skip (mirrored : forest.Mirrored matching twin)
    (known : matching[frame]? = some ⟨place, kept⟩) :
    (forest.child frame).Mirrored (matching ++ [⟨place, false :: kept⟩]) twin := by
  have inside : place < twin.size := mirrored.inside _ _ known
  refine mirrored.extend inside (Nat.le_refl _) (fun _ _ => rfl)
    (fun _ => rfl) ?_ nofun
  exact (mirrored.chain _ _ known).imp fun _ _ keeps => keeps.mono (List.prefix_append _ _)

/-- A frame that is kept has its place at the distance to it among those that are kept. -/
theorem ancestor (mirrored : forest.Mirrored matching twin)
    (known : matching[frame]? = some ⟨place, kept⟩) {distance found : Nat}
    (isKept : keptIndex? kept distance = some found) :
    FoundAlike matching.Keeps (forest.ancestor frame distance) (twin.ancestor place found) := by
  have chains := mirrored.chain frame _ known
  unfold Forest.ancestor
  rw [← keep_getElem? isKept]
  generalize keep kept (forest.chain frame) = frames at chains
  generalize twin.chain place = places at chains
  clear isKept
  induction chains generalizing found with
  | nil => exact .error
  | cons keeps rest induction =>
      cases found with
      | zero => exact .ok keeps
      | succ found => exact induction

theorem getAt (mirrored : forest.Mirrored matching twin)
    (known : matching[frame]? = some ⟨place, kept⟩) {distance found : Nat}
    (isKept : keptIndex? kept distance = some found) (name : String) :
    FoundAlike (Value.Mirrored matching) (forest.getAt frame distance name)
      (twin.getAt place found name) := by
  have ancestors := mirrored.ancestor known isKept
  unfold Forest.getAt
  generalize forest.ancestor frame distance = there at ancestors
  generalize twin.ancestor place found = thereTwin at ancestors
  cases ancestors with
  | error => exact .error
  | ok keeps =>
      have bound := (mirrored.bindings _ _ keeps).values name
      simp only [bind, Except.bind]
      generalize Table.get? _ name = value at bound
      generalize Table.get? (twin.bindings _) name = valueTwin at bound
      cases bound with
      | none => exact .error
      | some related => exact .ok related

/-- The frames around the outermost one, which is one of them, are all kept. -/
theorem outermost (mirrored : forest.Mirrored matching twin) :
    List.Forall₂ matching.Keeps (forest.chain globalFrame) (twin.chain globalFrame) :=
  mirrored.chain _ _ mirrored.root

theorem get (mirrored : forest.Mirrored matching twin) (name : String) :
    FoundAlike (Value.Mirrored matching) (forest.get globalFrame name)
      (twin.get globalFrame name) := by
  have chains := mirrored.outermost
  unfold Forest.get
  generalize forest.chain globalFrame = frames at chains
  generalize twin.chain globalFrame = places at chains
  induction chains with
  | nil => exact .error
  | cons keeps rest induction =>
      have bound := (mirrored.bindings _ _ keeps).values name
      rw [List.findSome?_cons, List.findSome?_cons]
      generalize Table.get? _ name = value at bound
      generalize Table.get? (twin.bindings _) name = valueTwin at bound
      cases bound with
      | none => exact induction
      | some related => exact .ok related

theorem holder (mirrored : forest.Mirrored matching twin) (name : String) :
    FoundAlike matching.Keeps (forest.holder globalFrame name) (twin.holder globalFrame name) := by
  have chains := mirrored.outermost
  unfold Forest.holder
  generalize forest.chain globalFrame = frames at chains
  generalize twin.chain globalFrame = places at chains
  induction chains with
  | nil => exact .error
  | cons keeps rest induction =>
      rw [List.find?_cons, List.find?_cons, (mirrored.bindings _ _ keeps).binds name]
      cases (forest.bindings _).binds name with
      | true => exact .ok keeps
      | false => exact induction

end Forest.Mirrored

/-- The second machine is in the place of the first one's frame and mirrors it; both have printed
the same lines, and read the clock as often. -/
structure Machine.Mirrored (matching : Matching) (frame place : FrameId)
    (machine twin : Machine) : Prop where
  forest : machine.forest.Mirrored matching twin.forest
  objects : twin.objects.size = machine.objects.size
  fields : ∀ id, Table.Mirrored (Value.Mirrored matching) (machine.fields id) (twin.fields id)
  serial : twin.serial = machine.serial
  current : machine.current = frame
  currentTwin : twin.current = place
  printed : twin.printed = machine.printed
  readings : twin.readings = machine.readings

namespace Run

variable {α β γ δ : Type} {frame place : FrameId} {kept : List Bool}

/-- Both runs end in the same way where they began, on machines that mirror each other.  If they
stop they stop for the same reason. -/
inductive EndsMirrored (matching : Matching) (frame place : FrameId)
    (results : Matching → α → β → Prop) :
    EStateM.Result Stop Machine α → EStateM.Result Stop Machine β → Prop where
  | ok {result : α} {other : β} {after twin : Machine} {later : Matching} : matching <+: later →
      results later result other → after.Mirrored later frame place twin →
      EndsMirrored matching frame place results (.ok result after) (.ok other twin)
  | error {stop : Stop} {after twin : Machine} {later : Matching} : matching <+: later →
      after.Mirrored later frame place twin →
      EndsMirrored matching frame place results (.error stop after) (.error stop twin)

/-- Started in the frame and in its place on machines that mirror each other, both parts of runs
end so. -/
def Mirrors (matching : Matching) (frame place : FrameId) (results : Matching → α → β → Prop)
    (part : Run α) (twin : Run β) : Prop :=
  ∀ machine other : Machine, machine.Mirrored matching frame place other →
    EndsMirrored matching frame place results (part machine) (twin other)

variable {results : Matching → α → β → Prop} {finals : Matching → γ → δ → Prop} {part : Run α}
  {twin : Run β}

theorem EndsMirrored.earlier {first : EStateM.Result Stop Machine α}
    {second : EStateM.Result Stop Machine β}
    (mirrored : EndsMirrored later frame place results first second)
    (grows : matching <+: later) : EndsMirrored matching frame place results first second := by
  cases mirrored with
  | ok further related machines => exact .ok (grows.trans further) related machines
  | error further machines => exact .error (grows.trans further) machines

namespace Mirrors

theorem pure {result : α} {other : β} (related : results matching result other) :
    Mirrors matching frame place results (Pure.pure result) (Pure.pure other) :=
  fun _ _ machines => .ok (List.prefix_refl _) related machines

theorem throw (stop : Stop) :
    Mirrors matching frame place results (MonadExcept.throw stop) (MonadExcept.throw stop) :=
  fun _ _ machines => .error (List.prefix_refl _) machines

theorem fault (about : Token) (fault : Fault) :
    Mirrors matching frame place results (Run.fault about fault) (Run.fault about fault) :=
  throw _

theorem defect (defect : Defect) :
    Mirrors matching frame place results (Run.defect defect) (Run.defect defect) :=
  throw _

theorem bind {next : α → Run γ} {nextTwin : β → Run δ}
    (first : Mirrors matching frame place results part twin)
    (second : ∀ later result other, matching <+: later → results later result other →
      Mirrors later frame place finals (next result) (nextTwin other)) :
    Mirrors matching frame place finals (part >>= next) (twin >>= nextTwin) := by
  intro machine other machines
  have ends := first machine other machines
  show EndsMirrored matching frame place finals (EStateM.bind part next machine)
    (EStateM.bind twin nextTwin other)
  unfold EStateM.bind
  generalize part machine = firstEnd at ends
  generalize twin other = secondEnd at ends
  cases ends with
  | ok grows related afterMachines =>
      exact (second _ _ _ grows related _ _ afterMachines).earlier grows
  | error grows afterMachines => exact .error grows afterMachines

theorem bindSame {first firstTwin : Run α} {next : α → Run γ} {nextTwin : α → Run δ}
    (same : Mirrors matching frame place (fun _ => Eq) first firstTwin)
    (second : ∀ later result, matching <+: later →
      Mirrors later frame place finals (next result) (nextTwin result)) :
    Mirrors matching frame place finals (first >>= next) (firstTwin >>= nextTwin) := by
  apply bind same
  rintro later result _ grows rfl
  exact second later result grows

theorem inFrame {inner innerPlace : FrameId}
    (inside : Mirrors matching inner innerPlace results part twin) :
    Mirrors matching frame place results (Run.inFrame inner part)
      (Run.inFrame innerPlace twin) := by
  intro machine other machines
  have entered : Machine.Mirrored matching inner innerPlace { machine with current := inner }
      { other with current := innerPlace } :=
    { machines with current := rfl, currentTwin := rfl }
  have ends := inside _ _ entered
  unfold Run.inFrame
  generalize part _ = firstEnd at ends
  generalize twin _ = secondEnd at ends
  cases ends with
  | ok grows related afterMachines =>
      exact .ok grows related
        { afterMachines with current := machines.current, currentTwin := machines.currentTwin }
  | error grows afterMachines =>
      exact .error grows
        { afterMachines with current := machines.current, currentTwin := machines.currentTwin }

theorem catchOverflow (about : Token) (mirrors : Mirrors matching frame place results part twin) :
    Mirrors matching frame place results (Run.catchOverflow about part)
      (Run.catchOverflow about twin) := by
  intro machine other machines
  have ends := mirrors machine other machines
  unfold Run.catchOverflow
  generalize part machine = firstEnd at ends
  generalize twin other = secondEnd at ends
  cases ends with
  | ok grows related afterMachines => exact .ok grows related afterMachines
  | @error stop after twin later grows afterMachines =>
      cases stop <;> exact .error grows afterMachines

/-- The first side enters a frame that is not kept, and the second one stays where it is. -/
theorem skipFrame (known : matching[frame]? = some ⟨place, kept⟩)
    (inside : ∀ later inner, matching <+: later → later[inner]? = some ⟨place, false :: kept⟩ →
      Mirrors later inner place results part twin) :
    Mirrors matching frame place results
      (do
        let inner ← Run.childOf (← Run.here)
        Run.inFrame inner part) twin := by
  intro machine other machines
  have grows : matching <+: matching ++ [⟨place, false :: kept⟩] := List.prefix_append _ _
  have entered : Machine.Mirrored (matching ++ [⟨place, false :: kept⟩]) machine.forest.size place
      { machine with
        forest := machine.forest.child machine.current
        current := machine.forest.size } other :=
    { machines with
      forest := machines.forest.skip (machines.current ▸ known)
      fields := fun id => (machines.fields id).mono fun _ _ related => related.mono grows
      current := rfl }
  have ends := inside _ machine.forest.size grows (by simp [machines.forest.size]) _ _ entered
  show EndsMirrored matching frame place results (Run.inFrame machine.forest.size part
    { machine with forest := machine.forest.child machine.current }) (twin other)
  unfold Run.inFrame
  generalize part _ = firstEnd at ends
  generalize twin other = secondEnd at ends
  cases ends with
  | ok further related afterMachines =>
      exact .ok (grows.trans further) related { afterMachines with current := machines.current }
  | error further afterMachines =>
      exact .error (grows.trans further) { afterMachines with current := machines.current }

/-! ## Elementary steps -/

theorem here : Mirrors matching frame place (fun _ found other => found = frame ∧ other = place)
    Run.here Run.here :=
  fun _ _ machines => .ok (List.prefix_refl _) ⟨machines.current, machines.currentTwin⟩ machines

theorem freshSerial :
    Mirrors matching frame place (fun _ => Eq) Run.freshSerial Run.freshSerial := by
  intro machine other machines
  have afterwards : Machine.Mirrored matching frame place
      { machine with serial := machine.serial + 1 } { other with serial := other.serial + 1 } :=
    { machines with serial := congrArg (· + 1) machines.serial }
  exact .ok (List.prefix_refl _) machines.serial.symm afterwards

theorem emit (line : String) :
    Mirrors matching frame place (fun _ => Eq) (Run.emit line) (Run.emit line) := by
  intro machine other machines
  have afterwards : Machine.Mirrored matching frame place
      { machine with printed := line :: machine.printed }
      { other with printed := line :: other.printed } :=
    { machines with printed := congrArg (line :: ·) machines.printed }
  exact .ok (List.prefix_refl _) rfl afterwards

theorem readClock (host : Host) :
    Mirrors matching frame place Value.Mirrored (Run.readClock host) (Run.readClock host) := by
  intro machine other machines
  have afterwards : Machine.Mirrored matching frame place
      { machine with readings := machine.readings + 1 }
      { other with readings := other.readings + 1 } :=
    { machines with readings := congrArg (· + 1) machines.readings }
  unfold Run.readClock
  rw [machines.readings] at afterwards ⊢
  exact .ok (List.prefix_refl _) .number afterwards

theorem childOf {parent parentPlace : FrameId}
    (known : matching[parent]? = some ⟨parentPlace, kept⟩) :
    Mirrors matching frame place
      (fun later made other => later[made]? = some ⟨other, true :: kept⟩)
      (Run.childOf parent) (Run.childOf parentPlace) := by
  intro machine other machines
  have grows : matching <+: matching ++ [⟨other.forest.size, true :: kept⟩] :=
    List.prefix_append _ _
  have afterwards : Machine.Mirrored (matching ++ [⟨other.forest.size, true :: kept⟩]) frame place
      { machine with forest := machine.forest.child parent }
      { other with forest := other.forest.child parentPlace } :=
    { machines with
      forest := machines.forest.child known
      fields := fun id => (machines.fields id).mono fun _ _ related => related.mono grows }
  exact .ok grows (by simp [machines.forest.size]) afterwards

theorem defineIn {inner innerPlace : FrameId} (keeps : matching.Keeps inner innerPlace)
    (name : String) {value valueTwin : Value} (related : value.Mirrored matching valueTwin) :
    Mirrors matching frame place (fun _ => Eq) (Run.defineIn inner name value)
      (Run.defineIn innerPlace name valueTwin) := by
  intro machine other machines
  have afterwards : Machine.Mirrored matching frame place (machine.define inner name value)
      (other.define innerPlace name valueTwin) :=
    { machines with forest := machines.forest.define keeps name related }
  exact .ok (List.prefix_refl _) rfl afterwards

theorem defineHere (keeps : matching.Keeps frame place) (name : String) {value valueTwin : Value}
    (related : value.Mirrored matching valueTwin) :
    Mirrors matching frame place (fun _ => Eq) (Run.defineHere name value)
      (Run.defineHere name valueTwin) := by
  intro machine other machines
  show EndsMirrored matching frame place _ (Run.defineIn machine.current name value machine)
    (Run.defineIn other.current name valueTwin other)
  rw [machines.current, machines.currentTwin]
  exact defineIn keeps name related machine other machines

theorem newObject {cls clsTwin : ClassValue} (related : cls.Mirrored matching clsTwin) :
    Mirrors matching frame place Value.Mirrored (Run.newObject cls) (Run.newObject clsTwin) := by
  intro machine other machines
  have afterwards : Machine.Mirrored matching frame place machine.created other.created :=
    { machines with
      objects := by simp [Machine.created, machines.objects]
      fields := by
        intro id
        rw [Machine.fields_created, Machine.fields_created]
        exact machines.fields id }
  unfold Run.newObject
  rw [machines.objects]
  exact .ok (List.prefix_refl _) (.object related) afterwards

theorem field? (id : Nat) (name : String) :
    Mirrors matching frame place (fun later => Option.Rel (Value.Mirrored later))
      (Run.field? id name) (Run.field? id name) :=
  fun _ _ machines => .ok (List.prefix_refl _) ((machines.fields id).values name) machines

theorem setField (id : Nat) (name : String) {value valueTwin : Value}
    (related : value.Mirrored matching valueTwin) :
    Mirrors matching frame place (fun _ => Eq) (Run.setField id name value)
      (Run.setField id name valueTwin) := by
  intro machine other machines
  have afterwards : Machine.Mirrored matching frame place (machine.withField id name value)
      (other.withField id name valueTwin) :=
    { machines with
      objects := by simp [Machine.withField, machines.objects]
      fields := by
        intro found
        rw [Machine.fields_withField, Machine.fields_withField, machines.objects]
        split
        · exact (machines.fields found).insert name related
        · exact machines.fields found }
  exact .ok (List.prefix_refl _) rfl afterwards

theorem lookUpAt {inner innerPlace : FrameId} {distance found : Nat}
    (known : matching[inner]? = some ⟨innerPlace, kept⟩)
    (isKept : keptIndex? kept distance = some found) (name : String) :
    Mirrors matching frame place Value.Mirrored (Run.lookUpAt inner distance name)
      (Run.lookUpAt innerPlace found name) := by
  intro machine other machines
  have alike := machines.forest.getAt known isKept name
  unfold Run.lookUpAt
  generalize machine.forest.getAt inner distance name = value at alike
  generalize other.forest.getAt innerPlace found name = valueTwin at alike
  cases alike with
  | ok related => exact .ok (List.prefix_refl _) related machines
  | error => exact .error (List.prefix_refl _) machines

section Sites

variable {site siteTwin : Site}

/-- The error tells nothing of the distance. -/
theorem accessStop_eq (sites : site.Agrees kept siteTwin) (name : Token) (error : AccessError) :
    Run.accessStop name siteTwin error = Run.accessStop name site error := by
  cases sites <;> rfl

theorem lookUp (known : matching[frame]? = some ⟨place, kept⟩) (sites : site.Agrees kept siteTwin)
    (name : Token) :
    Mirrors matching frame place Value.Mirrored (Run.lookUp name site)
      (Run.lookUp name siteTwin) := by
  intro machine other machines
  have alike : FoundAlike (Value.Mirrored matching)
      (valueOf machine.forest machine.current name.lexeme site)
      (valueOf other.forest other.current name.lexeme siteTwin) := by
    rw [machines.current, machines.currentTwin]
    cases sites with
    | none => exact machines.forest.get name.lexeme
    | some isKept => exact machines.forest.getAt known isKept name.lexeme
  unfold Run.lookUp
  rw [funext (accessStop_eq sites name)]
  generalize valueOf machine.forest machine.current name.lexeme site = value at alike
  generalize valueOf other.forest other.current name.lexeme siteTwin = valueTwin at alike
  cases alike with
  | ok related => exact .ok (List.prefix_refl _) related machines
  | error => exact .error (List.prefix_refl _) machines

theorem store (known : matching[frame]? = some ⟨place, kept⟩) (sites : site.Agrees kept siteTwin)
    (name : Token) {value valueTwin : Value} (related : value.Mirrored matching valueTwin) :
    Mirrors matching frame place (fun _ => Eq) (Run.store name site value)
      (Run.store name siteTwin valueTwin) := by
  intro machine other machines
  have alike : FoundAlike matching.Keeps
      (target machine.forest machine.current name.lexeme site)
      (target other.forest other.current name.lexeme siteTwin) := by
    rw [machines.current, machines.currentTwin]
    cases sites with
    | none => exact machines.forest.holder name.lexeme
    | some isKept => exact machines.forest.ancestor known isKept
  unfold Run.store
  rw [funext (accessStop_eq sites name)]
  generalize target machine.forest machine.current name.lexeme site = there at alike
  generalize target other.forest other.current name.lexeme siteTwin = thereTwin at alike
  cases alike with
  | ok keeps => exact defineIn keeps name.lexeme related machine other machines
  | error => exact .error (List.prefix_refl _) machines

end Sites

end Mirrors

end Run

end LoxLang
