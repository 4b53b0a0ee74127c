import LoxLang.Proofs.Session.Safety

/-!
# Distances and searches

A name with a distance is read and stored in the frame at that distance.  A search
along the chain of frames, from the inside out, finds the same binding as long as
no nearer frame binds the name.  A nearer frame binds it only after a declaration
that stands further down in the text than the reference: a function that was made
before such a declaration goes on to use the outer variable, which a search would
no longer reach.
-/

namespace LoxLang

/-- The frame at the distance binds the name. -/
def Machine.Binds (machine : Machine) (name : String) (distance : Nat) : Prop :=
  ∃ frame, machine.forest.ancestor machine.current distance = .ok frame ∧
    (machine.forest.bindings frame).binds name

/-- Reading and storing at the distance are the same as reading and storing by a search. -/
structure Machine.SearchAgrees (machine : Machine) (name : String) (distance : Nat) : Prop where
  holder : machine.forest.holder machine.current name =
    machine.forest.ancestor machine.current distance
  get : machine.forest.get machine.current name =
    machine.forest.getAt machine.current distance name
  assign : ∀ value, machine.forest.assign machine.current name value =
    machine.forest.assignAt machine.current distance name value

/-- The machines on which a node at the moment uses its name: the one at the moment, and for an
assignment also the one on which its value has been worked out. -/
inductive Moment.Uses (host : Host) (moment : Moment) : Machine → Prop where
  | now : moment.Uses host moment.machine
  | stored {room : Nat} {value : Expr Site} {result : Value} {machine : Machine} :
      moment.node.stored = some value →
      Run.eval host room value moment.machine = .ok result machine → moment.Uses host machine

/-- How a name that was resolved to the distance is found on the machine: the frame at the distance
binds it, unless an assignment in its initializer is what binds it first, and any nearer frame got
it from a declaration that the pass through the scopes had not come to. -/
structure Machine.Resolves (survey : Survey) (seen : Context) (stores : Prop) (machine : Machine)
    (name : String) (distance : Nat) : Prop where
  bound : machine.Binds name distance ∨ stores ∧ distance = 0 ∧ seen.Awaits name
  shadows : ∀ nearer < distance, machine.Binds name nearer → ∃ scope number,
    seen.scopes[nearer]? = some scope ∧ seen.numbers[nearer]? = some number ∧
      scope.binds name = false ∧ (number, name) ∈ survey.put

section Search

variable {machine : Machine} {name : String} {distance : Nat}

/-- A search ends at the first frame that binds the name. -/
theorem Forest.search_eq (forest : Forest Value) {chain : List FrameId} {frame : FrameId}
    (there : chain[distance]? = some frame) (bound : (forest.bindings frame).binds name)
    (nearest : ∀ nearer < distance, ∀ other, chain[nearer]? = some other →
      ¬(forest.bindings other).binds name) :
    chain.find? (fun candidate => (forest.bindings candidate).binds name) = some frame ∧
      chain.findSome? (fun candidate => (forest.bindings candidate).get? name) =
        (forest.bindings frame).get? name := by
  induction chain generalizing distance with
  | nil => cases there
  | cons first rest induction =>
      cases distance with
      | zero =>
          cases there
          obtain ⟨value, found⟩ := Option.isSome_iff_exists.1 bound
          simp [bound, found]
      | succ distance =>
          have unbound := nearest 0 (Nat.succ_pos _) first rfl
          have missing : (forest.bindings first).get? name = none := by
            simpa [Table.binds] using unbound
          obtain ⟨found, read⟩ := induction there fun nearer close other here =>
            nearest (nearer + 1) (Nat.succ_lt_succ close) other here
          simp [unbound, missing, found, read]

/-- Where nothing nearer binds the name a search ends at the distance. -/
theorem Machine.Binds.searchAgrees (bound : machine.Binds name distance)
    (nearest : ∀ nearer < distance, ¬machine.Binds name nearer) :
    machine.SearchAgrees name distance := by
  obtain ⟨frame, ancestor, binds⟩ := bound
  obtain ⟨value, valueEq⟩ := Option.isSome_iff_exists.1 binds
  have there := Forest.ancestor_eq_ok.1 ancestor
  obtain ⟨found, read⟩ := machine.forest.search_eq there binds fun nearer close other here bound =>
    nearest nearer close ⟨other, Forest.ancestor_eq_ok.2 here, bound⟩
  have holder : machine.forest.holder machine.current name = .ok frame := by
    simp only [Forest.holder, found]
  refine ⟨holder.trans ancestor.symm, ?_, ?_⟩
  · rw [Forest.getAt_eq_ok there valueEq]
    simp only [Forest.get, read, valueEq]
  · intro value
    simp only [Forest.assign, Forest.assignAt, holder, ancestor]

end Search

section Uses

variable {survey : Survey} {world : World} {context seen : Context}

/-- The world without the notes on its moments. -/
def World.unnoted (world : World) : World :=
  { world with watched := ⟨world.machine, { world.history with moments := [] }⟩ }

theorem World.Follows.unnoted : world.Follows world.unnoted :=
  ⟨Nat.le_refl _, Nat.le_refl _, fun _ _ => rfl, fun _ _ _ bound => bound, fun _ _ => rfl,
    fun _ _ => rfl⟩

theorem World.Settled.unnoted (settled : world.Settled survey) : world.unnoted.Sound survey where
  toSettled := settled.keep World.Follows.unnoted rfl fun _ => rfl
  backed := nofun

/-- While the value of an assignment is worked out nothing changes in where the machine is. -/
theorem Moment.Uses.mirrors {host : Host} {address : Address} {node : Node Site} {machine : Machine}
    (uses : Moment.Uses host ⟨address, node, world.machine⟩ machine)
    (settled : world.Settled survey) (mirrors : world.Mirrors world.machine.current context)
    (laid : node.Laid survey context seen address) :
    ∃ later : World, later.machine = machine ∧ later.Settled survey ∧
      later.Mirrors later.machine.current context := by
  cases uses with
  | now => exact ⟨world, rfl, settled, mirrors⟩
  | @stored room value result _ isStored ends =>
      -- The watched run is known to be safe, and the plain run is the same without the notes.
      have safe := Watching.eval_safe host room settled.unnoted
        (mirrors.mono World.Follows.unnoted) (laid.stored value isStored)
      have plain : Run.eval host room value world.unnoted.watched.state = .ok result machine := ends
      obtain ⟨notes, watchedEnds⟩ :=
        (Watching.eval_retraces host room (address.child 0) value).of_ok plain
      unfold Watching.Safe at safe
      rw [watchedEnds] at safe
      obtain ⟨later, same, leads, _⟩ := safe
      exact ⟨later, congrArg Watched.state same, leads.sound.toSettled,
        leads.mirrors (mirrors.mono World.Follows.unnoted)⟩

/-- What a name was resolved to is found in a frame that mirrors the context. -/
theorem World.Mirrors.resolves {stores : Prop} {name : String} {distance : Nat}
    (mirrors : world.Mirrors world.machine.current context) (settled : world.Settled survey)
    (numbers : seen.numbers = context.numbers)
    (lengths : seen.scopes.length = context.scopes.length) (first : seen.Finds distance name)
    (usable : context.Holds distance name ∨ stores ∧ distance = 0 ∧ seen.Awaits name) :
    world.machine.Resolves survey seen stores name distance where
  bound := by
    refine usable.imp_left fun holds => ?_
    obtain ⟨copy, there, bound⟩ := mirrors.bound distance name holds
    exact ⟨copy, Forest.ancestor_eq_ok.2 there, bound⟩
  shadows := by
    intro nearer close binds
    obtain ⟨frame, ancestor, bound⟩ := binds
    obtain ⟨inside, _, without⟩ := List.findIdx?_eq_some_iff_getElem.1 first
    have nearerInside : nearer < seen.scopes.length := Nat.lt_trans close inside
    have nearerNumbered : nearer < context.numbers.length := by
      rw [mirrors.lengths, ← lengths]
      exact nearerInside
    have numbered := List.getElem?_eq_getElem nearerNumbered
    obtain ⟨copy, there, numberEq, present, notGlobal⟩ := mirrors.copy numbered
    have same : frame = copy := Option.some.inj
      ((Forest.ancestor_eq_ok.1 ancestor).symm.trans there)
    subst same
    rw [numbers]
    refine ⟨_, _, List.getElem?_eq_getElem nearerInside, numbered, ?_, ?_⟩
    · simpa using without nearer close
    · rw [← numberEq]
      exact settled.names frame present notGlobal name bound

end Uses

/-- Distances agree with searches where no later declaration comes in between.  Whenever, in any
session, a variable or an assignment with a distance is evaluated, the pass through the scopes saw
the scope at the distance as the first one with the name, and the machine finds it accordingly; and
if then no nearer frame binds the name, but the frame at the distance does, a search for it reads
and stores the same binding. -/
theorem distances_agree_with_searches (host : Host) (verbose : Bool) (taken : List Session.Step)
    {moment : Moment}
    (reached : moment ∈ ((Chronicle.fresh verbose).after host taken).history.moments)
    {name : String} {distance : Nat} (refers : moment.node.refers = some (name, distance)) :
    let survey := ((Chronicle.fresh verbose).after host taken).survey
    ∃ visit ∈ survey.visits, visit.address = moment.address ∧ visit.node = moment.node.bare ∧
      visit.context.Finds distance name ∧ ∀ machine, moment.Uses host machine →
        machine.Resolves survey visit.context (moment.node.stored.isSome = true) name distance ∧
          (machine.Binds name distance → (∀ nearer < distance, ¬machine.Binds name nearer) →
            machine.SearchAgrees name distance) := by
  intro survey
  have sound : ((Chronicle.fresh verbose).after host taken).Sound :=
    (Chronicle.Sound.fresh verbose).after host taken
  obtain ⟨_, worldSound⟩ := sound.worlds survey (.refl _)
  obtain ⟨address, node, machine⟩ := moment
  obtain ⟨world, context, seen, sameMachine, settled, mirrors, laid⟩ := worldSound.backed _ reached
  cases sameMachine
  obtain ⟨first, usable⟩ := laid.refers name distance refers
  refine ⟨_, laid.visited, rfl, rfl, first, ?_⟩
  intro machine uses
  obtain ⟨later, sameLater, laterSettled, laterMirrors⟩ := uses.mirrors settled mirrors laid
  subst sameLater
  exact ⟨laterMirrors.resolves laterSettled laid.numbers laid.scopes first usable,
    fun bound nearest => bound.searchAgrees nearest⟩

/-- In its own initializer a variable is assigned to in the frame in which it is about to be
bound. -/
theorem distances_agree_with_searches_ownInitializer :
    let text := "\x7b var a = 1; \x7b var a = (a = 2); print a; \x7d print a; \x7d"
    let chronicle := (Chronicle.fresh false).after (Host.standard fun _ => 0) [⟨.run text, true⟩]
    chronicle.session.machine.printed = ["1", "2"] ∧ ∃ moment ∈ chronicle.history.moments,
      moment.node.refers = some ("a", 0) ∧ ∃ visit ∈ chronicle.survey.visits,
        visit.address = moment.address ∧ visit.context.Finds 0 "a" ∧
          moment.machine.Resolves chronicle.survey visit.context
            (moment.node.stored.isSome = true) "a" 0 := by
  intro text chronicle
  refine ⟨by decide +kernel, ?_⟩
  have refers : (chronicle.history.moments.any fun moment =>
      moment.node.stored.isSome && moment.node.refers == some ("a", 0)) = true := by
    decide +kernel
  obtain ⟨moment, member, refers⟩ := List.any_eq_true.1 refers
  obtain ⟨_, refers⟩ := Bool.and_eq_true_iff.1 refers
  have refers := eq_of_beq refers
  obtain ⟨visit, visited, address, _, first, found⟩ :=
    distances_agree_with_searches (Host.standard fun _ => 0) false [⟨.run text, true⟩] member refers
  exact ⟨moment, member, refers, visit, visited, address, first, (found _ .now).1⟩

/-- `show` goes on to print the outer variable when the block has got one of its own: the frame of
the block is nearer and binds the name by then, so that a search would end there. -/
theorem search_ends_at_laterDeclaration :
    let text :=
      "\x7b var a = 1; \x7b fun show() \x7b print a; \x7d show(); var a = 2; show(); \x7d \x7d"
    let chronicle := (Chronicle.fresh false).after (Host.standard fun _ => 0) [⟨.run text, true⟩]
    chronicle.session.machine.printed = ["1", "1"] ∧
      ¬∀ moment ∈ chronicle.history.moments, ∀ name distance,
        moment.node.refers = some (name, distance) →
          moment.machine.SearchAgrees name distance := by
  intro text chronicle
  refine ⟨by decide +kernel, fun agrees => ?_⟩
  have differs : (chronicle.history.moments.any fun moment =>
      moment.node.refers.any fun (name, distance) =>
        (moment.machine.forest.holder moment.machine.current name).toOption !=
          (moment.machine.forest.ancestor moment.machine.current distance).toOption) = true := by
    decide +kernel
  obtain ⟨moment, member, differs⟩ := List.any_eq_true.1 differs
  obtain ⟨⟨name, distance⟩, refers, differs⟩ := (Option.any_eq_true _ _).1 differs
  simp [(agrees moment member name distance refers).holder] at differs

end LoxLang
