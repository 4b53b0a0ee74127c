import LoxLang.Machine

/-!
# Following links

A frame and a class know the whole chain of what is around or above them.  A chain
stands for links: from a frame to the one directly around it, and from a class to its
superclass.  To look something up by following the links is a loop that need not end by
itself.  Where the links do end, it ends after as many rounds as there are elements on
the way, and finds what a search of the chain finds.

The links between frames end because each frame is made in one that is older.
-/

namespace LoxLang

section Following

variable {α β : Type} {next : α → Option α} {element : α} {elements : List α}

/-- The links lead from the first element of the list through all others, and end there. -/
inductive Links (next : α → Option α) : α → List α → Prop where
  | last {element : α} (ends : next element = none) : Links next element [element]
  | link {element other : α} {others : List α} (leads : next element = some other)
      (links : Links next other others) : Links next element (element :: others)

/-- Follow links until a test finds something or the links end.  If this takes more rounds than
given, there is no outcome. -/
def seek (next : α → Option α) (test : α → Option β) : (rounds : Nat) → α → Option (Option β)
  | 0, _ => none
  | rounds + 1, element =>
      match test element with
      | some found => some (some found)
      | none =>
          match next element with
          | some other => seek next test rounds other
          | none => some none

/-- After so many rounds the loop has ended, with this outcome. -/
def Finds (next : α → Option α) (test : α → Option β) (element : α) (bound : Nat)
    (outcome : Option β) : Prop :=
  ∀ rounds, bound ≤ rounds → seek next test rounds element = some outcome

/-- The loop ends, and finds what the search of the list finds. -/
theorem Links.finds (links : Links next element elements) (test : α → Option β) :
    Finds next test element elements.length (elements.findSome? test) := by
  intro rounds enough
  induction links generalizing rounds with
  | last ends =>
      obtain ⟨fewer, rfl⟩ := Nat.exists_eq_add_of_le' enough
      simp only [List.length_singleton, seek, ends, List.findSome?_cons]
      cases test _ <;> rfl
  | link leads _ induction =>
      obtain ⟨fewer, rfl⟩ := Nat.exists_eq_add_of_le' enough
      simp only [List.length_cons, ← Nat.add_assoc, seek, leads, List.findSome?_cons]
      cases test _ with
      | some found => rfl
      | none => exact induction _ (Nat.le_add_left _ _)

theorem Links.head (links : Links next element elements) :
    ∃ others, elements = element :: others := by
  cases links <;> exact ⟨_, rfl⟩

/-- If each element is younger than the next one, the elements are ever older. -/
theorem Links.older (links : Links next element elements) (age : α → Nat)
    (older : ∀ inner ∈ elements, ∀ outer, next inner = some outer → age outer < age inner) :
    elements.Pairwise fun inner outer => age outer < age inner := by
  induction links with
  | last ends => exact List.pairwise_singleton _ _
  | link leads links induction =>
      obtain ⟨here, farther⟩ := List.forall_mem_cons.1 older
      have sorted := induction farther
      have isOlder := here _ leads
      obtain ⟨others, rfl⟩ := links.head
      refine List.pairwise_cons.2 ⟨List.forall_mem_cons.2 ⟨isOlder, fun outer member => ?_⟩, sorted⟩
      exact Nat.lt_trans (List.rel_of_pairwise_cons sorted member) isOlder

end Following

namespace Forest

variable {V : Type} {forest : Forest V} {frame : FrameId}

/-- The frame directly around a frame. -/
def enclosing? (forest : Forest V) (frame : FrameId) : Option FrameId :=
  (forest.outer frame).head?

/-- Each frame but that of the top level lies directly in an older one. -/
structure Descends (forest : Forest V) : Prop where
  present : globalFrame < forest.size
  top : forest.outer globalFrame = []
  inner : ∀ frame < forest.size, frame ≠ globalFrame →
    ∃ parent < frame, forest.outer frame = forest.chain parent

namespace Descends

theorem root : (Forest.root : Forest V).Descends where
  present := Nat.zero_lt_one
  top := rfl
  inner _ inside notTop := absurd (Nat.lt_one_iff.1 inside) notTop

theorem define (descends : forest.Descends) (frame : FrameId) (name : String) (value : V) :
    (forest.define frame name value).Descends where
  present := by simpa using descends.present
  top := by simpa using descends.top
  inner := by simpa using descends.inner

theorem child (descends : forest.Descends) {parent : FrameId} (present : parent < forest.size) :
    (forest.child parent).Descends where
  present := by
    rw [size_child]
    exact Nat.lt_succ_of_lt descends.present
  top := by rw [outer_child_of_lt forest parent descends.present, descends.top]
  inner frame inside notTop := by
    rcases Nat.lt_succ_iff_lt_or_eq.1 (size_child forest parent ▸ inside) with isOlder | rfl
    · obtain ⟨around, isEarlier, outer⟩ := descends.inner frame isOlder notTop
      refine ⟨around, isEarlier, ?_⟩
      rw [chain_child_of_lt forest parent (Nat.lt_trans isEarlier isOlder),
        outer_child_of_lt forest parent isOlder, outer]
    · refine ⟨parent, present, ?_⟩
      rw [outer_child_self, chain_child_of_lt forest parent present]

end Descends

/-- The links lead outwards from frame to ever older frame, so to none twice, and at last to that of
the top level. -/
structure Grounded (forest : Forest V) (frame : FrameId) : Prop where
  links : Links forest.enclosing? frame (forest.chain frame)
  ends : (forest.chain frame).getLast? = some globalFrame
  older : (forest.chain frame).Pairwise fun inner outer => outer < inner
  once : (forest.chain frame).Nodup
  short : (forest.chain frame).length ≤ frame + 1

namespace Grounded

theorem top (chain : forest.chain globalFrame = [globalFrame]) : forest.Grounded globalFrame := by
  have ends : forest.enclosing? globalFrame = none := by
    rw [enclosing?, (List.cons.inj chain).2]
    rfl
  refine ⟨?_, ?_, ?_, ?_, ?_⟩ <;> rw [chain]
  · exact .last ends
  · rfl
  · exact List.pairwise_singleton _ _
  · exact List.pairwise_singleton _ _
  · exact Nat.le_refl _

theorem inner {parent : FrameId} (grounded : forest.Grounded parent) (isEarlier : parent < frame)
    (chain : forest.chain frame = frame :: forest.chain parent) : forest.Grounded frame := by
  have leads : forest.enclosing? frame = some parent := by
    rw [enclosing?, (List.cons.inj chain).2]
    rfl
  have farther : ∀ other ∈ forest.chain parent, other < frame :=
    List.forall_mem_cons.2 ⟨isEarlier, fun other member =>
      Nat.lt_trans (List.rel_of_pairwise_cons grounded.older member) isEarlier⟩
  have older : (forest.chain frame).Pairwise fun inner outer => outer < inner := by
    rw [chain]
    exact List.pairwise_cons.2 ⟨farther, grounded.older⟩
  refine ⟨?_, ?_, older, older.imp fun less => Nat.ne_of_gt less, ?_⟩
  · rw [chain]
    exact .link leads grounded.links
  · rw [chain]
    exact (List.getLast?_cons_cons).trans grounded.ends
  · rw [chain, List.length_cons]
    exact Nat.succ_le_succ (Nat.le_trans grounded.short isEarlier)

end Grounded

/-- The induction is on the age of the frame. -/
theorem Descends.grounded (descends : forest.Descends) (inside : frame < forest.size) :
    forest.Grounded frame := by
  induction frame using Nat.strongRecOn with
  | ind frame induction =>
      by_cases isTop : frame = globalFrame
      · subst isTop
        exact .top (by rw [chain, descends.top])
      · obtain ⟨parent, isEarlier, outer⟩ := descends.inner frame inside isTop
        have grounded := induction parent isEarlier (Nat.lt_trans isEarlier inside)
        exact grounded.inner isEarlier (by rw [chain, outer])

/-- To read a name or to assign to it is to follow the links to the first frame that binds it, and
this comes to an end. -/
structure Searchable (forest : Forest V) (frame : FrameId) : Prop where
  get : ∀ name, ∃ outcome,
    Finds forest.enclosing? (fun other => (forest.bindings other).get? name) frame
        (forest.chain frame).length outcome ∧
      forest.get frame name = outcome.elim (.error .undefined) .ok
  assign : ∀ name value, ∃ outcome,
    Finds forest.enclosing? (Option.guard fun other => (forest.bindings other).binds name) frame
        (forest.chain frame).length outcome ∧
      forest.assign frame name value =
        outcome.elim (.error .undefined) fun holder => .ok (forest.define holder name value)

theorem Grounded.searchable (grounded : forest.Grounded frame) : forest.Searchable frame where
  get name := by
    refine ⟨_, grounded.links.finds _, ?_⟩
    unfold Forest.get
    split <;> rename_i searched <;> rw [searched] <;> rfl
  assign name value := by
    refine ⟨_, grounded.links.finds _, ?_⟩
    rw [List.findSome?_guard]
    unfold Forest.assign Forest.holder
    split <;> rename_i searched <;> rw [searched] <;> rfl

end Forest

namespace ClassValue

/-- The class from which the class inherits directly. -/
def superclass? : ClassValue → Option ClassValue
  | ⟨_, []⟩ => none
  | ⟨_, parent :: others⟩ => some ⟨parent, others⟩

/-- The class with what it has of its own and these ancestors, and its superclasses. -/
def line (own : ClassEntry) : List ClassEntry → List ClassValue
  | [] => [⟨own, []⟩]
  | parent :: others => ⟨own, parent :: others⟩ :: line parent others

/-- The class and the classes from which it inherits. -/
def lineage (cls : ClassValue) : List ClassValue := line cls.own cls.ancestors

theorem links_line (own : ClassEntry) (ancestors : List ClassEntry) :
    Links superclass? ⟨own, ancestors⟩ (line own ancestors) := by
  induction ancestors generalizing own with
  | nil => exact .last rfl
  | cons parent others induction => exact .link rfl (induction parent)

theorem links_lineage (cls : ClassValue) : Links superclass? cls cls.lineage :=
  links_line cls.own cls.ancestors

theorem map_own_line (own : ClassEntry) (ancestors : List ClassEntry) :
    (line own ancestors).map ClassValue.own = own :: ancestors := by
  induction ancestors generalizing own with
  | nil => rfl
  | cons parent others induction => rw [line, List.map_cons, induction]

/-- The superclasses are those with the rest of the chain. -/
theorem suffix_of_mem_line {own : ClassEntry} {ancestors : List ClassEntry} {other : ClassValue}
    (member : other ∈ line own ancestors) : other.chain <:+ own :: ancestors := by
  induction ancestors generalizing own with
  | nil =>
      cases List.mem_singleton.1 member
      exact List.suffix_refl _
  | cons parent others induction =>
      rcases List.mem_cons.1 member with rfl | above
      · exact List.suffix_refl _
      · exact (induction above).trans (List.suffix_cons _ _)

/-- A method is searched for in the class and its superclasses. -/
theorem method?_eq (cls : ClassValue) (name : String) :
    cls.method? name = cls.lineage.findSome? fun other => other.own.methods.get? name := by
  rw [method?, chain, ← map_own_line, List.findSome?_map]
  rfl

/-- To find a method is to follow the links to the first class that has one of the name itself, and
this comes to an end. -/
structure Searchable (cls : ClassValue) : Prop where
  finds : ∀ name, Finds superclass? (fun other => other.own.methods.get? name) cls
    cls.lineage.length (cls.method? name)
  nearest : ∀ name method, cls.method? name = some method ↔ ∃ nearer holder farther,
    cls.lineage = nearer ++ holder :: farther ∧ holder.own.methods.get? name = some method ∧
      ∀ other ∈ nearer, other.own.methods.get? name = none
  nowhere : ∀ name, cls.method? name = none ↔
    ∀ other ∈ cls.lineage, other.own.methods.get? name = none

theorem searchable (cls : ClassValue) : cls.Searchable where
  finds name := by
    rw [method?_eq]
    exact cls.links_lineage.finds _
  nearest name method := by
    rw [method?_eq]
    exact List.findSome?_eq_some_iff
  nowhere name := by
    rw [method?_eq]
    exact List.findSome?_eq_none_iff

end ClassValue

end LoxLang
