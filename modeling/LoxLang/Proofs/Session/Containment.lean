import LoxLang.Proofs.Run.Containment
import LoxLang.Proofs.Run.Operands
import LoxLang.Proofs.Session.Agreement

/-!
# Blocks and calls keep to their frames

What a run binds beyond the frames that it makes itself is bound there already.  For
distances this is so because the pass through the scopes found the name usable, and a
world that is sound binds what is usable.  So a block or a call adds no name to a frame
that was there before it, and takes none away.
-/

namespace LoxLang

variable {survey : Survey} {world : World} {limit : FrameId}

/-- What a part stores outwards is bound where the machine mirrors the context of the part. -/
theorem World.Mirrors.confines {frame : FrameId} {context : Context} {around : List Construct}
    {part : Part Site} (mirrors : world.Mirrors frame context)
    (outward : part.Outward (fun further name => context.Holds further name) around) :
    world.forest.Confines limit frame around part := by
  refine outward.mono fun further name holds holder there _ => ?_
  obtain ⟨copy, isCopy, bound⟩ := mirrors.bound further name holds
  cases there.symm.trans isCopy
  exact bound

theorem Closure.Sound.confined {closure : Closure} (sound : closure.Sound survey world) :
    closure.Confined limit world.forest := by
  obtain ⟨context, mirrors, laid⟩ := sound.laid
  exact ⟨mirrors.present, mirrors.confines
    (Part.outward_of_scopedIn ⟨_, laid⟩ rfl fun _ _ _ => List.cons_ne_nil _ _)⟩

theorem Closure.MethodSound.confined {method : Closure} (sound : method.MethodSound survey world) :
    method.MethodConfined limit world.forest := by
  obtain ⟨context, number, mirrors, _, laid⟩ := sound.laid
  have outward : (Part.method method.decl).Outward (fun further name =>
      (context.within number (Scope.only "this")).Holds further name) [] :=
    Part.outward_of_scopedIn ⟨_, laid⟩ rfl fun _ _ _ => List.cons_ne_nil _ _
  exact ⟨mirrors.present, mirrors.confines (outward.leave ["this"] fun _ _ holds => holds)⟩

theorem ClassValue.Sound.confined {cls : ClassValue} (sound : cls.Sound survey world) :
    cls.Confined limit world.forest :=
  fun entry member name method found => (sound entry member name method found).confined

theorem Value.Sound.confined {value : Value} (sound : value.Sound survey world) :
    value.Confined limit world.forest := by
  cases value with
  | closure closure => exact Closure.Sound.confined sound
  | «class» cls => exact ClassValue.Sound.confined sound
  | object id cls => exact ClassValue.Sound.confined sound
  | _ => trivial

theorem World.Settled.confined (settled : world.Settled survey)
    (reached : limit ≤ world.forest.size) : world.machine.Confined limit where
  reached := reached
  values frame name value found := (settled.values frame name value found).confined
  fields id name value found := (settled.fields id name value found).confined

/-- All frames of the first machine are there on the second one, in the same frames, and bind the
same names, though perhaps to other values. -/
structure Machine.KeepsNames (earlier later : Machine) : Prop where
  size : earlier.forest.size ≤ later.forest.size
  outer : ∀ frame < earlier.forest.size, later.forest.outer frame = earlier.forest.outer frame
  names : ∀ frame < earlier.forest.size, ∀ name,
    (later.forest.bindings frame).binds name = (earlier.forest.bindings frame).binds name

theorem Forest.Contains.keepsNames {earlier later : Machine}
    (contains : earlier.forest.Contains earlier.forest.size later.forest) :
    earlier.KeepsNames later where
  size := contains.size
  outer frame inside := (List.cons.inj (contains.chain frame inside)).2
  names := contains.binds

/-- A block that the machine is about to execute. -/
theorem Moment.Backed.keepsNames {moment : Moment} {body : List (Stmt Site)}
    (backed : moment.Backed survey) (isBlock : moment.node = .stmt (.block body)) (host : Host)
    (room : Nat) :
    moment.machine.KeepsNames (Run.leaves (Run.exec host room (.block body)) moment.machine) := by
  obtain ⟨address, node, machine⟩ := moment
  obtain ⟨world, context, seen, rfl, settled, mirrors, laid⟩ := backed
  cases isBlock
  have isScoped : (Part.stmt (.block body)).ScopedIn survey context := ⟨address, laid.isScoped⟩
  have confines : world.forest.Confines world.forest.size world.machine.current []
      (.stmt (.block body)) :=
    mirrors.confines (Part.outward_of_scopedIn isScoped rfl fun _ _ _ => List.cons_ne_nil _ _)
  have ok : (containment world.forest.size).protocol.Ok ⟨world.machine, History.blank⟩ :=
    .blank (settled.confined (Nat.le_refl _))
  have keeps : (containment world.forest.size).protocol.Keeps ⟨world.machine, History.blank⟩
      (Watching.exec host room address (.block body)) _ :=
    .exec host room _ address _ ok ⟨mirrors.present, confines⟩
  have leads := Discipline.leads_of_keeps keeps (Watching.exec_retraces host room address _)
  exact leads.follows.keepsNames

/-- When a call is made the world is sound, and so are what is called and the arguments. -/
theorem Moment.Calls.sound {moment : Moment} {host : Host} {paren : Token} {value : Value}
    {values : List Value} {ready : Machine} (calls : moment.Calls host paren value values ready)
    (backed : moment.Backed survey) :
    ∃ world : World, world.machine = ready ∧ world.Sound survey ∧ value.Sound survey world ∧
      ∀ arg ∈ values, arg.Sound survey world := by
  obtain ⟨address, node, machine⟩ := moment
  obtain ⟨world, context, seen, rfl, settled, mirrors, laid⟩ := backed
  obtain ⟨callee, args, room, isCall, ends⟩ := calls
  cases isCall
  have isScoped : (Expr.call callee paren args).Scoped survey context address := laid.isScoped
  have safe := Watching.operands_safe host room settled.unnoted
    (mirrors.mono World.Follows.unnoted) isScoped
  have plain : Run.operands host room callee args world.unnoted.watched.state =
      .ok (value, values) ready := ends
  obtain ⟨notes, watchedEnds⟩ :=
    (Watching.operands_retraces host room address callee args).of_ok plain
  unfold Watching.Safe at safe
  rw [watchedEnds] at safe
  obtain ⟨later, same, leads, valueSound, valuesSound⟩ := safe
  exact ⟨later, congrArg Watched.state same, leads.sound, valueSound, valuesSound⟩

/-- A call that is about to be made. -/
theorem Moment.Calls.keepsNames {moment : Moment} {host : Host} {paren : Token} {value : Value}
    {values : List Value} {ready : Machine} (calls : moment.Calls host paren value values ready)
    (backed : moment.Backed survey) (room : Nat) :
    ready.KeepsNames
      (Run.leaves (Run.callValue host (Run.exec host room) paren value values) ready) := by
  obtain ⟨world, rfl, sound, valueSound, valuesSound⟩ := calls.sound backed
  have ok : (containment world.forest.size).protocol.Ok ⟨world.machine, History.blank⟩ :=
    .blank (sound.toSettled.confined (Nat.le_refl _))
  have keeps : (containment world.forest.size).protocol.Keeps ⟨world.machine, History.blank⟩
      (Watching.callValue host (Watching.exec host room) paren value values) _ :=
    .callValue (.exec host room) ok valueSound.confined
      fun arg member => (valuesSound arg member).confined
  have retraces := Watching.callValue_retraces (Watching.exec_retraces host room) host paren value
    values
  exact (Discipline.leads_of_keeps keeps retraces).follows.keepsNames

/-- Blocks and calls add no names to frames that were there before, and remove none.  In every
session, whenever a block is about to be executed, or the value of a callee is about to be called
with those of its arguments, then with whatever room this happens and however it ends, all frames
that there are stay inside the same frames and bind the same names. -/
theorem blocks_and_calls_keep_names (host : Host) (verbose : Bool) (taken : List Session.Step) :
    let chronicle := (Chronicle.fresh verbose).after host taken
    chronicle.session = (Session.fresh verbose).after host taken ∧
      ∀ moment ∈ chronicle.history.moments,
        (∀ body, moment.node = .stmt (.block body) → ∀ room, moment.machine.KeepsNames
          (Run.leaves (Run.exec host room (.block body)) moment.machine)) ∧
        ∀ paren value values ready, moment.Calls host paren value values ready → ∀ room,
          ready.KeepsNames
            (Run.leaves (Run.callValue host (Run.exec host room) paren value values) ready) := by
  intro chronicle
  have sound : chronicle.Sound := (Chronicle.Sound.fresh verbose).after host taken
  obtain ⟨_, worldSound⟩ := sound.worlds chronicle.survey (.refl _)
  refine ⟨Chronicle.session_after taken, fun moment member => ?_⟩
  have backed := worldSound.backed moment member
  exact ⟨fun body isBlock => backed.keepsNames isBlock host,
    fun paren value values ready calls => calls.keepsNames backed⟩

/-- A function assigns to a variable of the block around it and has a variable of its own.  In the
frame of the block the value changes, but no name comes to it. -/
theorem blocks_and_calls_keep_names_assigned :
    let host := Host.standard fun _ => 0
    let text := "\x7b var a = 1; fun set(x) \x7b a = x; var b = x; \x7d set(2); \x7d"
    let chronicle := (Chronicle.fresh false).after host [⟨.run text, true⟩]
    ∃ moment ∈ chronicle.history.moments, ∃ paren value values ready,
      moment.Calls host paren value values ready ∧
        let after := Run.leaves (Run.callValue host (Run.exec host 9) paren value values) ready
        ((ready.forest.bindings 1).get? "a").map Value.shown = some "1" ∧
          ((after.forest.bindings 1).get? "a").map Value.shown = some "2" ∧
          (after.forest.bindings 2).binds "b" = true ∧ ready.KeepsNames after := by
  intro host text chronicle
  have facts : (chronicle.history.moments.any fun moment =>
      (moment.call? host 9).any fun call =>
        let after := Run.leaves (call.run host 9) call.ready
        ((call.ready.forest.bindings 1).get? "a").map Value.shown == some "1" &&
          ((after.forest.bindings 1).get? "a").map Value.shown == some "2" &&
          (after.forest.bindings 2).binds "b") = true := by
    decide +kernel
  simp only [List.any_eq_true, Option.any_eq_true, Bool.and_eq_true, beq_iff_eq] at facts
  obtain ⟨moment, member, call, called, ⟨before, changed⟩, own⟩ := facts
  have calls := Moment.Calls.of_call? called
  obtain ⟨-, keep⟩ := blocks_and_calls_keep_names host false [⟨.run text, true⟩]
  exact ⟨moment, member, call.paren, call.value, call.values, call.ready, calls, before, changed,
    own, (keep moment member).2 call.paren call.value call.values call.ready calls 9⟩

end LoxLang
