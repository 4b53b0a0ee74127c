import LoxLang.Proofs.ForLoop.Reading
import LoxLang.Proofs.Session.Inheritance

/-!
# Loops with `for` mean what they say

A loop with `for` is executed as the blocks and the `while` loop as which it is written.
In every session this does the same as the loop read directly: the same is printed, it
ends in the same way, and whatever there was before is afterwards as it would be.
-/

namespace LoxLang

/-- Each frame in its own place. -/
def Matching.same (frames : Nat) : Matching := (List.range frames).map fun frame => ⟨frame, []⟩

namespace Matching

variable {frames : Nat} {frame place : FrameId}

theorem same_known (inside : frame < frames) : (same frames)[frame]? = some ⟨frame, []⟩ := by
  simp [same, inside]

theorem eq_of_same_known {counterpart : Counterpart}
    (known : (same frames)[frame]? = some counterpart) :
    frame < frames ∧ counterpart = ⟨frame, []⟩ := by
  have inside : frame < frames := by
    simpa [same] using (List.getElem?_eq_some_iff.1 known).1
  exact ⟨inside, Option.some.inj (known.symm.trans (same_known inside))⟩

theorem same_keeps (inside : frame < frames) : (same frames).Keeps frame frame :=
  ⟨[], same_known inside, rfl⟩

theorem eq_of_same_keeps (keeps : (same frames).Keeps frame place) :
    frame < frames ∧ place = frame := by
  obtain ⟨kept, known, _⟩ := keeps
  obtain ⟨inside, same⟩ := eq_of_same_known known
  exact ⟨inside, congrArg Counterpart.frame same⟩

end Matching

section Reflection

variable {forest : Forest Value}

/-- A method that is settled mirrors itself. -/
theorem Closure.MethodSettled.mirrored {method : Closure} {ancestors : List ClassEntry}
    (settled : method.MethodSettled forest ancestors) :
    method.Mirrored [true] (Matching.same forest.size) method := by
  obtain ⟨around, surrounds, paired, isSettled⟩ := settled.carried
  exact ⟨rfl, rfl, [], Matching.same_known surrounds.present, rfl, .self paired isSettled (by simp)⟩

theorem ClassValue.Settled.mirrored {cls : ClassValue} (settled : cls.Settled forest) :
    cls.Mirrored (Matching.same forest.size) cls := by
  refine List.forall₂_same.2 fun entry member => ⟨rfl, rfl, rfl, fun name => ?_⟩
  obtain ⟨nearer, ancestors, split⟩ := List.append_of_mem member
  cases found : entry.methods.get? name with
  | none => exact .none
  | some method =>
      exact .some (settled entry ancestors ⟨nearer, split.symm⟩ name method found).mirrored

theorem Value.Settled.mirrored {value : Value} (settled : value.Settled forest) :
    value.Mirrored (Matching.same forest.size) value := by
  cases value with
  | closure closure =>
      obtain ⟨around, surrounds, paired, isSettled⟩ := settled
      exact .closure ⟨rfl, rfl, [], Matching.same_known surrounds.present, rfl,
        .self paired isSettled (by simp)⟩
  | «class» cls => exact .class (ClassValue.Settled.mirrored settled)
  | object id cls => exact .object (ClassValue.Settled.mirrored settled)
  | _ => constructor

/-- A settled machine mirrors itself. -/
theorem Machine.Settled.mirrored {machine : Machine} (settled : machine.Settled) :
    machine.Mirrored (Matching.same machine.forest.size) machine.current machine.current
      machine where
  forest := {
    size := by simp [Matching.same]
    inside := by
      intro frame counterpart known
      obtain ⟨inside, rfl⟩ := Matching.eq_of_same_known known
      exact inside
    root := Matching.same_known settled.top.present
    chain := by
      intro frame counterpart known
      obtain ⟨inside, rfl⟩ := Matching.eq_of_same_known known
      exact List.forall₂_same.2 fun other member =>
        Matching.same_keeps (settled.inside frame inside other member)
    distinct := by
      intro frame other place keeps otherKeeps
      rw [← (Matching.eq_of_same_keeps keeps).2, (Matching.eq_of_same_keeps otherKeeps).2]
    bindings := by
      intro frame place keeps
      rw [(Matching.eq_of_same_keeps keeps).2]
      refine ⟨rfl, fun name => ?_⟩
      cases found : (machine.forest.bindings frame).get? name with
      | none => exact .none
      | some value => exact .some (settled.values frame name value found).1.mirrored }
  objects := rfl
  fields id := by
    refine ⟨rfl, fun name => ?_⟩
    cases found : (machine.fields id).get? name with
    | none => exact .none
    | some value => exact .some (settled.fields id name value found).mirrored
  serial := rfl
  current := rfl
  currentTwin := rfl
  printed := rfl
  readings := rfl

end Reflection

namespace Run

/-- On the machine both parts of runs print the same lines and end in the same way, with the same
error or with completions that mirror each other; each frame that there was binds the same names to
values that mirror each other, and so do the fields of each object.  And whatever statement may be
executed there next, then ends alike. -/
structure SameMeaning (machine : Machine) (part direct : Run Completion) : Prop where
  ends : EndsMirrored (Matching.same machine.forest.size) machine.current machine.current
    Completion.Mirrored (part machine) (direct machine)
  afterwards : ∀ host room next, machine.forest.Carries machine.current (.stmt next) →
    EndsMirrored (Matching.same machine.forest.size) machine.current machine.current
      Completion.Mirrored ((part >>= fun _ => exec host room next) machine)
      ((direct >>= fun _ => exec host room next) machine)

theorem SameMeaning.of_mirrors {machine : Machine} {part direct : Run Completion}
    (settled : machine.Settled) (present : machine.current < machine.forest.size)
    (mirrors : Mirrors (Matching.same machine.forest.size) machine.current machine.current
      Completion.Mirrored part direct) : SameMeaning machine part direct := by
  have machines := settled.mirrored
  refine ⟨mirrors _ _ machines, ?_⟩
  rintro host room next ⟨around, -, paired, nextSettled⟩
  apply Mirrors.bind mirrors _ _ _ machines
  intro later _ _ grows _
  exact (Mirrors.runs_alike host room).2 _ _ _ _ _ _
    (Matching.known_later grows (Matching.same_known present))
    (.self paired nextSettled (by simp))

end Run

/-- After its keyword a loop with `for` is read as it is written, with a body that declares
nothing. -/
theorem Parser.Gives.writtenLoop {expression : Parser (Expr Unit)} {nested : Parser (Stmt Unit)}
    (expressionGives : Gives Expr.Ordinary expression)
    (nestedGives : Gives Stmt.OrdinaryBranch nested) :
    Gives (fun s => ∃ loop : ForLoop Unit, s = loop.written ∧ loop.body.brought = [])
      (Parser.forRest expression nested) := by
  refine expectThen ?_
  refine bind (forInitializer expressionGives) fun initializer _ => ?_
  refine bind (expressionUnless expressionGives _) fun condition _ => expectThen ?_
  refine bind (expressionUnless expressionGives _) fun increment _ => expectThen ?_
  refine bind nestedGives fun body bodyIs => ?_
  exact pure ⟨⟨initializer, condition, increment, body⟩, rfl, bodyIs.2⟩

/-- Loops with `for` keep their meaning.  They are read as they are written, and their bodies
declare nothing.  In every session, whenever a statement is executed that is so written, there is
the loop read directly where the statement stands, with as many scopes around as there are frames
inside of the top level; and executing the statement means the same as executing that. -/
theorem forLoop_keeps_meaning (host : Host) (verbose : Bool) (taken : List Session.Step) :
    let chronicle := (Chronicle.fresh verbose).after host taken
    chronicle.session = (Session.fresh verbose).after host taken ∧
      (∀ depth cursor s after, Parser.Cursor.Worded cursor →
        Parser.forRest (Parser.expressionAt depth) (Parser.statementAt depth) cursor =
          .ok s after →
        ∃ loop : ForLoop Unit, s = loop.written ∧ loop.body.brought = []) ∧
      ∀ moment ∈ chronicle.history.moments, ∀ (tree : Stmt Site) (loop : ForLoop Unit),
        moment.node = .stmt tree → tree.bare = loop.written → loop.body.brought = [] →
          ∃ direct : ForLoop Site,
            loop.ReadsAs (moment.machine.forest.outer moment.machine.current).length tree direct ∧
              ∀ room, Run.SameMeaning moment.machine (Run.exec host room tree)
                (direct.run host room) := by
  intro chronicle
  refine ⟨Chronicle.session_after taken, ?_, ?_⟩
  · intro depth cursor s after worded read
    have gives := Parser.Gives.writtenLoop (Parser.Gives.expressionAt depth)
      (Parser.Gives.statementAt depth)
    exact ((gives cursor worded).1 s after read).1
  intro moment member tree loop isTree isLoop bringsNothing
  have observes : chronicle.Observes kinship :=
    (Chronicle.Observes.fresh kinship_welcomes verbose).after kinship_welcomes host taken
  obtain ⟨settled, carries⟩ := observes.inOrder.suits moment member
  rw [isTree] at carries
  obtain ⟨around, surrounds, paired, treeSettled⟩ := carries
  obtain ⟨direct, found, reads, rfl, agrees⟩ :=
    ForLoop.exists_readsAs paired treeSettled isLoop bringsNothing
  have depth : (moment.machine.forest.outer moment.machine.current).length = around.length := by
    have lengths := congrArg List.length (surrounds.kin "this" fun isName => isName.1 rfl)
    simpa [Forest.chain] using lengths
  refine ⟨direct, depth ▸ reads, fun room => ?_⟩
  have present := surrounds.present
  exact .of_mirrors settled present
    (.forLoop host room (Matching.same_known present) agrees)

/-- The parts of a loop with all clauses, if a node is written as one. -/
def Node.forLoop? : Node Site → Option (ForLoop Site)
  | .stmt (.block [first, .loop condition (.block [body, .expression step])]) =>
      some ⟨some first, some condition, some step, body⟩
  | _ => none

theorem Node.forLoop?_eq_some {node : Node Site} {loop : ForLoop Site}
    (found : node.forLoop? = some loop) : node = .stmt loop.written := by
  unfold forLoop? at found
  split at found
  · cases found
    rfl
  · cases found

/-- In a function, a loop with all clauses that returns a function declared in its body, which then
still knows the variable of the loop. -/
theorem forLoop_keeps_meaning_returning :
    let host := Host.standard fun _ => 0
    let text := "fun f() \x7b for (var word = \"one\"; word; word = nil) " ++
      "\x7b fun g() \x7b return word; \x7d return g; \x7d \x7d print f()();"
    let chronicle := (Chronicle.fresh false).after host [⟨.run text, true⟩]
    chronicle.session.machine.printed = ["one"] ∧
      ∃ moment ∈ chronicle.history.moments, ∃ loop : ForLoop Site,
        moment.node = .stmt loop.written ∧ loop.initializer.isSome = true ∧
          loop.condition.isSome = true ∧ loop.increment.isSome = true ∧
          ∃ direct : ForLoop Site, loop.bare.ReadsAs 1 loop.written direct ∧
            ∀ room, Run.SameMeaning moment.machine (Run.exec host room loop.written)
              (direct.run host room) := by
  intro host text
  -- the chronicle is not to be computed again wherever it is compared
  generalize told : (Chronicle.fresh false).after host [⟨.run text, true⟩] = chronicle
  have facts : (chronicle.session.machine.printed == ["one"] &&
      chronicle.history.moments[11]?.any fun moment => moment.node.forLoop?.any fun loop =>
        (moment.machine.forest.outer moment.machine.current).length == 1 &&
          loop.initializer.isSome && loop.condition.isSome && loop.increment.isSome &&
          loop.body.brought == []) = true := by
    rw [← told]
    decide +kernel
  simp only [Bool.and_eq_true, Option.any_eq_true, beq_iff_eq] at facts
  obtain ⟨printed, moment, there, loop, isLoop,
    ⟨⟨⟨depth, hasFirst⟩, hasCondition⟩, hasIncrement⟩, bringsNothing⟩ := facts
  have isTree := Node.forLoop?_eq_some isLoop
  have keeps := forLoop_keeps_meaning host false [⟨.run text, true⟩]
  rw [told] at keeps
  obtain ⟨-, -, keeps⟩ := keeps
  obtain ⟨direct, reads, same⟩ := keeps moment (List.mem_of_getElem? there) loop.written loop.bare
    isTree (ForLoop.written_bare loop) ((Stmt.brought_bare _).trans bringsNothing)
  rw [depth] at reads
  exact ⟨printed, moment, List.mem_of_getElem? there, loop, isTree, hasFirst, hasCondition,
    hasIncrement, direct, reads, same⟩

end LoxLang
