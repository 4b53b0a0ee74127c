import LoxLang.Proofs.Renaming.Runs
import LoxLang.Proofs.Session.Laid

/-!
# Sessions on renamed machines

Two sessions on related machines go on alike when they run related statements.  A
machine that some texts have led to is related to itself, since nothing that it
holds has to be renamed.
-/

namespace LoxLang

variable {r : Renaming} {marking : Marking} {past : List String}

/-- The second machine is the first one renamed, and both are at the top level. -/
structure Machine.Alike (r : Renaming) (past : List String) (machine twin : Machine) : Prop where
  renamed : ∃ marking, machine.Renamed r marking past twin
  atTop : machine.current = globalFrame

/-- What is shown of a value of the top level. -/
def Machine.shownGlobals (machine : Machine) : List (String × String) :=
  machine.globals.map fun entry => (entry.1, entry.2.shown)

namespace Machine.Alike

variable {machine twin : Machine}

theorem printed (alike : machine.Alike r past twin) : twin.printed = machine.printed ++ past := by
  obtain ⟨_, renamed⟩ := alike.renamed
  exact renamed.printed

/-- The same names are bound at the top level, to values that look the same. -/
theorem shownGlobals (alike : machine.Alike r past twin) :
    twin.shownGlobals = machine.shownGlobals := by
  obtain ⟨marking, renamed⟩ := alike.renamed
  have tables : Table.Renamed r false (Value.Renamed r marking)
      (machine.forest.bindings globalFrame) (twin.forest.bindings globalFrame) :=
    renamed.forest.bindings globalFrame [] renamed.forest.root
  exact tables.sorted fun _ _ related => related.shown

/-- What has been printed on both may be forgotten. -/
theorem silent (alike : machine.Alike r [] twin) : machine.silent.Alike r [] twin.silent := by
  obtain ⟨marking, renamed⟩ := alike.renamed
  exact ⟨⟨marking, { renamed with printed := rfl }⟩, alike.atTop⟩

theorem silentFirst (alike : machine.Alike r [] twin) :
    machine.silent.Alike r twin.printed twin := by
  obtain ⟨marking, renamed⟩ := alike.renamed
  exact ⟨⟨marking, { renamed with printed := rfl }⟩, alike.atTop⟩

/-- What was printed on a machine makes no difference to its being related to itself. -/
theorem itself {reached : Machine} (alike : machine.Alike r [] machine)
    (same : reached.silent = machine.silent) : reached.Alike r [] reached := by
  have silenced := alike.silent
  rw [← same] at silenced
  obtain ⟨marking, renamed⟩ := silenced.renamed
  exact ⟨⟨marking, { renamed with printed := (List.append_nil _).symm }⟩, silenced.atTop⟩

end Machine.Alike

namespace Run

theorem Simulates.program (host : Host) {frame : FrameId} {marks : List Bool}
    {statements twins : List (Stmt Site)} (known : marking[frame]? = some marks)
    (renamed : Stmt.AllRenamed r marks statements twins) :
    Simulates r marking frame Same (Run.program host statements) (Run.program host twins) := by
  induction statements generalizing marking twins with
  | nil =>
      cases renamed
      exact pure rfl
  | cons first rest induction =>
      cases renamed with
      | cons firstRenamed restRenamed =>
          apply bind ((runs_alike host host.room).2 _ _ _ _ _ known firstRenamed)
          intro later _ _ grows _
          exact induction (Marking.later grows known) restRenamed

end Run

/-- The end of a run of statements. -/
abbrev RunEnd := EStateM.Result Stop Machine Unit

/-- Both runs of statements ended in the same way at the top level. -/
inductive RunEnd.Alike (r : Renaming) (past : List String) : RunEnd → RunEnd → Prop where
  | ok {after twin : Machine} : after.Alike r past twin →
      RunEnd.Alike r past (.ok () after) (.ok () twin)
  | error {stop other : Stop} {after twin : Machine} : stop.Renamed r other →
      after.Alike r past twin → RunEnd.Alike r past (.error stop after) (.error other twin)

/-- Related statements run alike on related machines. -/
theorem Run.program_alike (host : Host) {machine twin : Machine}
    {statements twins : List (Stmt Site)}
    (alike : machine.Alike r past twin) (renamed : Stmt.AllRenamed r [] statements twins) :
    RunEnd.Alike r past (Run.program host statements machine) (Run.program host twins twin) := by
  obtain ⟨⟨marking, machines⟩, atTop⟩ := alike
  have ends := Simulates.program host machines.forest.root renamed _ _ machines atTop
  generalize Run.program host statements machine = outcome at ends
  generalize Run.program host twins twin = outcomeTwin at ends
  cases ends with
  | ok _ _ afterMachines current => exact .ok ⟨⟨_, afterMachines⟩, current⟩
  | error _ stops afterMachines current => exact .error stops ⟨⟨_, afterMachines⟩, current⟩

/-- Nothing is reported of the two runs, or an error at tokens that are near. -/
inductive Report.ToldAlike (r : Renaming) (report twin : Report) : Report → Report → Prop where
  | nothing : Report.ToldAlike r report twin report twin
  | error {about aboutTwin : Token} (fault : Fault) : r.near about aboutTwin →
      Report.ToldAlike r report twin (report.addRuntimeError fault.message about.line)
        (twin.addRuntimeError fault.message aboutTwin.line)

namespace Session

variable {session twin : Session} {statements twins : List (Stmt Site)}

/-- The machines stay related, and both runs come to an end for the same reason or are stopped
for the same reason. -/
theorem interpret_alike (host : Host) (alike : session.machine.Alike r past twin.machine)
    (renamed : Stmt.AllRenamed r [] statements twins) :
    (session.interpret host statements).1.machine.Alike r past
        (twin.interpret host twins).1.machine ∧
      (twin.interpret host twins).2 = (session.interpret host statements).2 ∧
      Report.ToldAlike r session.report twin.report (session.interpret host statements).1.report
        (twin.interpret host twins).1.report := by
  have ends := Run.program_alike host alike renamed
  unfold interpret
  generalize Run.program host statements session.machine = outcome at ends
  generalize Run.program host twins twin.machine = outcomeTwin at ends
  cases ends with
  | ok afterAlike => exact ⟨afterAlike, rfl, .nothing⟩
  | error stops afterAlike =>
      cases stops with
      | error near => exact ⟨afterAlike, rfl, .error _ near⟩
      | _ => exact ⟨afterAlike, rfl, .nothing⟩

theorem firstExpression_renamed {expr : Expr Site} (renamed : Stmt.AllRenamed r [] statements twins)
    (first : firstExpression statements = some expr) :
    ∃ exprTwin, firstExpression twins = some exprTwin ∧ expr.Renamed r [] exprTwin := by
  unfold firstExpression at first
  split at first <;> cases first
  · cases renamed with
    | cons firstRenamed _ =>
        cases firstRenamed with
        | expression value => exact ⟨_, rfl, value⟩
  · cases renamed with
    | cons firstRenamed _ =>
        cases firstRenamed with
        | print value => exact ⟨_, rfl, value⟩

/-- The text that an action reads. -/
def Action.text : Action → String
  | .run text | .check text => text
  | .evaluate text => text ++ ";"

/-- The tokens of all texts that were read in some steps. -/
def tokensRead (taken : List Step) : List Token :=
  taken.flatMap fun step => (TokenStream.ofText step.action.text).tokens

section Itself

variable {host : Host} {text : String}

/-- Nothing has to be renamed in an accepted text all of whose tokens are near themselves. -/
theorem statements_itself {trees : List (Stmt Unit)} {state : ScopeState}
    (accepted : Accepted host text statements trees state)
    (near : ∀ token ∈ (TokenStream.ofText text).tokens, r.near token token) :
    Stmt.AllRenamed r [] statements statements := by
  have unmarked : Unmarked [] := nofun
  have spares : ∀ token ∈ Stmt.tokensOfAll statements, r.Spares id token := fun token member =>
    Renaming.keeps_iff.2 ⟨near token (accepted.tokens_subset member), rfl⟩
  have spared := Stmt.AllRenamed.spared unmarked statements spares
  rwa [Stmt.mapAll_id] at spared

theorem run_itself (alike : session.machine.Alike r [] session.machine)
    (near : ∀ token ∈ (TokenStream.ofText text).tokens, r.near token token) :
    (session.run host text).1.machine.Alike r [] (session.run host text).1.machine := by
  cases outcome : (session.setSource text).check host text with
  | mk checked result =>
      have sameMachine : checked.machine = session.machine :=
        congrArg (fun outcome => outcome.1.machine) outcome.symm
      rw [← sameMachine] at alike
      cases result with
      | error phase =>
          rw [run_eq_of_rejected outcome]
          exact alike
      | ok statements =>
          obtain ⟨trees, state, accepted⟩ := Accepted.of_check (congrArg Prod.snd outcome)
          rw [run_eq outcome, finish_fst]
          exact (interpret_alike host alike (statements_itself accepted near)).1

theorem evaluate_itself (alike : session.machine.Alike r [] session.machine)
    (near : ∀ token ∈ (TokenStream.ofText (text ++ ";")).tokens, r.near token token) :
    (session.evaluate host text).1.machine.Alike r [] (session.evaluate host text).1.machine := by
  unfold evaluate
  cases outcome : session.check host (text ++ ";") with
  | mk checked result =>
      have sameMachine : checked.machine = session.machine :=
        congrArg (fun outcome => outcome.1.machine) outcome.symm
      rw [← sameMachine] at alike
      cases result with
      | error phase => exact alike
      | ok statements =>
          obtain ⟨trees, state, accepted⟩ := Accepted.of_check (congrArg Prod.snd outcome)
          dsimp only
          cases first : firstExpression statements with
          | none => exact alike
          | some expr =>
              obtain ⟨twin, firstTwin, renamed⟩ :=
                firstExpression_renamed (statements_itself accepted near) first
              cases first.symm.trans firstTwin
              obtain ⟨⟨marking, machines⟩, atTop⟩ := alike
              have ends := (Run.Simulates.runs_alike host host.room).1 marking globalFrame [] _ _
                machines.forest.root renamed _ _ machines atTop
              dsimp only
              cases evaluated : Run.eval host host.room expr checked.machine with
              | ok value after =>
                  rw [evaluated] at ends
                  cases ends with
                  | ok _ _ afterMachines current => exact ⟨⟨_, afterMachines⟩, current⟩
              | error stop after =>
                  rw [evaluated] at ends
                  cases ends with
                  | error _ _ afterMachines current => exact ⟨⟨_, afterMachines⟩, current⟩

theorem step_itself (alike : session.machine.Alike r [] session.machine) {step : Step}
    (near : ∀ token ∈ (TokenStream.ofText step.action.text).tokens, r.near token token) :
    (session.step host step).1.machine.Alike r [] (session.step host step).1.machine := by
  have prepared : (session.prepared step).machine.Alike r [] (session.prepared step).machine := by
    unfold Session.prepared
    split <;> exact alike.silent
  obtain ⟨action, forget⟩ := step
  cases action with
  | run text => exact run_itself prepared near
  | check text => exact prepared
  | evaluate text => exact evaluate_itself prepared near

/-- A forest of one frame without bindings is related to itself. -/
theorem root_itself (r : Renaming) : Forest.root.Renamed r [[]] Forest.root where
  size := rfl
  sizeTwin := rfl
  outer := fun _ => rfl
  root := rfl
  chain := by
    intro frame marks known distance other there
    have isFirst : frame = 0 := Nat.lt_one_iff.1 (List.getElem?_eq_some_iff.1 known).1
    subst isFirst
    cases known
    cases distance with
    | zero =>
        cases there
        exact ⟨[], rfl, rfl⟩
    | succ distance => cases there
  bindings := by
    intro frame marks known
    have isFirst : frame = 0 := Nat.lt_one_iff.1 (List.getElem?_eq_some_iff.1 known).1
    subst isFirst
    exact Table.Renamed.empty

theorem fresh_itself (r : Renaming) : Machine.fresh.Alike r [] Machine.fresh := by
  have known : ([[]] : Marking)[globalFrame]? = some [] := rfl
  have allowed : r.Allows (markedAt [] (some 0)) Primitive.clock.name := nofun
  have forest := (root_itself r).define known allowed
    (.primitive : Value.Renamed r [[]] (.primitive .clock) (.primitive .clock))
  rw [show markedAt [] (some 0) = false from rfl, r.apply_false] at forest
  exact ⟨⟨_, forest, rfl, fun _ => .empty, rfl, rfl, rfl, rfl⟩, rfl⟩

/-- A machine is related to itself if all tokens that were read are near themselves. -/
theorem after_itself {verbose : Bool} {taken : List Step}
    (near : ∀ token ∈ tokensRead taken, r.near token token) :
    ((Session.fresh verbose).after host taken).machine.Alike r []
      ((Session.fresh verbose).after host taken).machine := by
  have start : (Session.fresh verbose).machine.Alike r [] (Session.fresh verbose).machine :=
    fresh_itself r
  generalize Session.fresh verbose = session at start
  induction taken generalizing session with
  | nil => exact start
  | cons first rest induction =>
      obtain ⟨firstNear, restNear⟩ := List.forall_mem_append.1 near
      exact induction restNear _ (step_itself start firstNear)

end Itself

end Session

end LoxLang
