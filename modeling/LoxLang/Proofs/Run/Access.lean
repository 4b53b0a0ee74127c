import LoxLang.Proofs.Run.Safety
import LoxLang.Proofs.Scope.Soundness

/-!
# Names in sound worlds

Where a frame mirrors a context, names that are usable in the context are found in
the chain of the frame, and names that are declared may be bound.  Reading and
storing are safe there.
-/

namespace LoxLang

variable {survey : Survey} {world : World} {frame : FrameId} {context : Context}

theorem Forest.getAt_eq_ok {V : Type} {forest : Forest V} {frame copy : FrameId} {distance : Nat}
    {name : String} {value : V} (there : (forest.chain frame)[distance]? = some copy)
    (found : (forest.bindings copy).get? name = some value) :
    forest.getAt frame distance name = .ok value := by
  unfold getAt ancestor
  rw [there]
  simp only [Bind.bind, Except.bind, found]
  rfl

namespace World.Mirrors

/-- In which kind of function and class a place lies makes no difference to its frame. -/
theorem inClass (mirrors : world.Mirrors frame context) (kind : ClassKind) :
    world.Mirrors frame (context.inClass kind) :=
  mirrors.weaken rfl rfl fun _ _ holds => holds

theorem inFunction (mirrors : world.Mirrors frame context) (kind : FunctionKind) :
    world.Mirrors frame (context.inFunction kind) :=
  mirrors.weaken rfl rfl fun _ _ holds => holds

theorem declare (mirrors : world.Mirrors frame context) (name : String) :
    world.Mirrors frame (context.declare name) := by
  apply mirrors.weaken
  · rfl
  · simp [Context.declare, Context.innermost]
  · exact fun _ _ holds => holds.of_declare.1

/-- A name may be made usable once it is bound. -/
theorem define (mirrors : world.Mirrors frame context) {name : String}
    (bound : (world.forest.bindings frame).binds name) :
    world.Mirrors frame (context.define name) where
  present := mirrors.present
  lengths := by simpa [Context.define, Context.innermost] using mirrors.lengths
  chain := mirrors.chain
  bound := by
    intro distance other holds
    obtain ⟨scope, there, usable⟩ := holds
    rcases Context.innermost_insert_get? there usable with
      ⟨first, same, _⟩ | ⟨before, here, found, _⟩
    · subst first same
      exact ⟨frame, rfl, bound⟩
    · exact mirrors.bound distance other ⟨before, here, found⟩

theorem bring (mirrors : world.Mirrors frame context) {name : String}
    (bound : (world.forest.bindings frame).binds name) :
    world.Mirrors frame (context.bring name) :=
  (mirrors.declare name).define bound

/-- A name that the innermost scope takes may be bound in the frame. -/
theorem admits (mirrors : world.Mirrors frame context) {name : String}
    (admitted : context.Admits survey name) (notGlobal : frame ≠ globalFrame) :
    (world.scopeOf frame, name) ∈ survey.put := by
  obtain ⟨inner, chainEq, copies, _⟩ := mirrors.chain
  cases inner with
  | nil =>
      have same : frame = globalFrame := (List.cons.inj chainEq).1
      exact absurd same notGlobal
  | cons first rest =>
      have same : frame = first := (List.cons.inj chainEq).1
      apply admitted
      rw [← copies, same]
      rfl

/-- What the pass through the scopes saw is found at the moment. -/
theorem moment (settled : world.Settled survey)
    (mirrors : world.Mirrors world.machine.current context) {address : Address} {node : Node Site}
    {seen : Context} (laid : node.Laid survey context seen address) :
    Moment.Mirrors survey ⟨address, node, world.machine⟩ ⟨address, node.bare, seen⟩ := by
  obtain ⟨inner, chainEq, copies, inside⟩ := mirrors.chain
  refine ⟨rfl, rfl, ?_, ?_, ?_, ?_, ?_⟩
  · show (world.forest.chain world.machine.current).length = seen.scopes.length + 1
    have sameLength := congrArg List.length copies
    rw [List.length_map, mirrors.lengths] at sameLength
    rw [chainEq, List.length_append, laid.scopes, sameLength]
    rfl
  · show (world.forest.chain world.machine.current).getLast? = some globalFrame
    rw [chainEq, List.getLast?_concat]
  · show seen.numbers.length = seen.scopes.length
    rw [laid.numbers, laid.scopes, mirrors.lengths]
  · intro index frame number name there numbered bound
    have numbered : context.numbers[index]? = some number := laid.numbers ▸ numbered
    obtain ⟨copy, copyThere, numberEq, present, notGlobal⟩ := mirrors.copy numbered
    have same : frame = copy := Option.some.inj (there.symm.trans copyThere)
    subst same numberEq
    exact settled.names frame present notGlobal name bound
  · intro name distance isRead
    exact mirrors.bound distance name (laid.reads name distance isRead)

end World.Mirrors

/-- At every moment so far, what the pass through the scopes saw was found. -/
theorem World.Sound.moments (sound : world.Sound survey) :
    ∀ moment ∈ world.history.moments, ∃ visit ∈ survey.visits, moment.Mirrors survey visit := by
  rintro ⟨address, node, machine⟩ member
  obtain ⟨world, context, seen, rfl, settled, mirrors, laid⟩ := sound.backed _ member
  exact ⟨_, laid.visited, mirrors.moment settled laid⟩

namespace Watching

open Watched (lift note consult)

theorem come_safe (sound : world.Sound survey)
    (mirrors : world.Mirrors world.machine.current context) {address : Address} {node : Node Site}
    {seen : Context} (laid : node.Laid survey context seen address) :
    Safe survey world (come address node) fun _ _ => True :=
  Safe.ok (world.come address node) rfl (sound.come mirrors laid) trivial

theorem lookUp_safe (sound : world.Sound survey)
    (mirrors : world.Mirrors world.machine.current context) {name : Token} {site : Site}
    (holds : ∀ distance ∈ site, context.Holds distance name.lexeme) :
    Safe survey world (lift (Run.lookUp name site)) fun value later =>
      value.Sound survey later := by
  cases site with
  | none =>
      unfold Safe lift Run.lookUp Run.valueOf Forest.get
      cases found : (world.forest.chain globalFrame).findSome? fun candidate =>
          (world.forest.bindings candidate).get? name.lexeme with
      | none => exact ⟨nofun, world, rfl, Safe.stay sound⟩
      | some value =>
          obtain ⟨holder, _, bound⟩ := List.exists_of_findSome?_eq_some found
          exact ⟨world, rfl, Safe.stay sound, sound.values holder name.lexeme value bound⟩
  | some distance =>
      obtain ⟨copy, there, bound⟩ := mirrors.bound distance name.lexeme (holds distance rfl)
      obtain ⟨value, found⟩ := Option.isSome_iff_exists.1 bound
      have read : Run.valueOf world.forest world.machine.current name.lexeme (some distance) =
          .ok value := Forest.getAt_eq_ok there found
      have outcome : lift (Run.lookUp name (some distance)) world.watched =
          .ok value world.watched := by
        unfold lift Run.lookUp
        simp only [read]
      exact Safe.ok world outcome (Safe.stay sound) (sound.values copy name.lexeme value found)

theorem lookUpAt_safe (sound : world.Sound survey) {distance : Nat} {name : String}
    {copy : FrameId} (there : (world.forest.chain frame)[distance]? = some copy)
    (bound : (world.forest.bindings copy).binds name) :
    Safe survey world (lift (Run.lookUpAt frame distance name)) fun value later =>
      value.Sound survey later ∧ later = world ∧
        (world.forest.bindings copy).get? name = some value := by
  obtain ⟨value, found⟩ := Option.isSome_iff_exists.1 bound
  have read : world.forest.getAt frame distance name = .ok value := Forest.getAt_eq_ok there found
  have outcome : lift (Run.lookUpAt frame distance name) world.watched =
      .ok value world.watched := by
    unfold lift Run.lookUpAt
    simp only [read]
  exact Safe.ok world outcome (Safe.stay sound) ⟨sound.values copy name value found, rfl, found⟩

theorem store_safe (sound : world.Sound survey)
    (mirrors : world.Mirrors world.machine.current context) {name : Token} {site : Site}
    {value : Value} (valueSound : value.Sound survey world)
    (known : ∀ distance ∈ site, ∃ number, context.numbers[distance]? = some number ∧
      (number, name.lexeme) ∈ survey.put)
    (notSuper : name.lexeme ≠ "super") :
    Safe survey world (lift (Run.store name site value)) fun _ _ => True := by
  have stored (target : FrameId)
      (takes : target ≠ globalFrame → (world.scopeOf target, name.lexeme) ∈ survey.put)
      (found : Run.target world.forest world.machine.current name.lexeme site = .ok target) :
      Safe survey world (lift (Run.store name site value)) fun _ _ => True := by
    have leads := sound.define target name.lexeme takes
      (valueSound.mono (World.Follows.define target name.lexeme value))
      fun isSuper => absurd isSuper notSuper
    have outcome : lift (Run.store name site value) world.watched =
        .ok () (world.define target name.lexeme value).watched := by
      unfold lift Run.store
      simp only [found]
      rfl
    exact Safe.ok (world.define target name.lexeme value) outcome leads trivial
  cases site with
  | none =>
      cases found : (world.forest.chain globalFrame).find? fun candidate =>
          (world.forest.bindings candidate).binds name.lexeme with
      | none =>
          unfold Safe lift Run.store Run.target Forest.holder
          simp only [found]
          exact ⟨nofun, world, rfl, Safe.stay sound⟩
      | some holder =>
          have member := List.mem_of_find?_eq_some found
          rw [sound.top] at member
          apply stored holder
          · intro notGlobal
            exact absurd (List.mem_singleton.1 member) notGlobal
          · unfold Run.target Forest.holder
            simp only [found]
  | some distance =>
      obtain ⟨number, numbered, isPut⟩ := known distance rfl
      obtain ⟨copy, there, numberEq, _⟩ := mirrors.copy numbered
      apply stored copy
      · intro _
        rw [numberEq]
        exact isPut
      · unfold Run.target Forest.ancestor
        simp only [there]

theorem defineHere_safe (sound : world.Sound survey)
    (mirrors : world.Mirrors world.machine.current context) {name : String} {value : Value}
    (admitted : context.Admits survey name) (notSuper : name ≠ "super")
    (valueSound : value.Sound survey (world.define world.machine.current name value)) :
    Safe survey world (lift (Run.defineHere name value)) fun _ later =>
      later.Mirrors later.machine.current (context.bring name) := by
  have leads := sound.define world.machine.current name (mirrors.admits admitted) valueSound
    fun isSuper => absurd isSuper notSuper
  have mirrored := (mirrors.mono leads.follows).bring
    (World.binds_define name value mirrors.present)
  exact Safe.ok (world.define world.machine.current name value) rfl leads mirrored

end Watching

end LoxLang
