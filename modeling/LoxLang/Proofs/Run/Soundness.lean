import LoxLang.Proofs.Run.Classes

/-!
# Programs that are laid out well run safely

An expression or a statement that is laid out well in a context is evaluated or
executed safely wherever the machine mirrors the context.  The induction is on the
room; what happens inside of a call happens with less room.
-/

namespace LoxLang

variable {survey : Survey} {world : World} {context : Context}

/-- An expression that is laid out well was seen in its context. -/
theorem Expr.Scoped.laid {address : Address} {e : Expr Site}
    (isScoped : e.Scoped survey context address) :
    Node.Laid survey context context address (.expr e) := by
  have whole := isScoped
  obtain ⟨visited, parts⟩ := isScoped
  cases parts with
  | «variable» holds => exact .variable visited rfl rfl holds
  | @assign _ token site value known _ valueScoped =>
      refine ⟨visited, rfl, rfl, nofun, ?_, fun found same => Option.some.inj same ▸ valueScoped,
        whole⟩
      intro name distance refers
      cases site with
      | none => cases refers
      | some found =>
          cases refers
          obtain ⟨first, usable, _⟩ := known _ rfl
          exact ⟨first, usable.imp_right fun awaits => ⟨rfl, awaits⟩⟩
  | this _ holds =>
      refine ⟨visited, rfl, rfl, ?_, nofun, nofun, whole⟩
      intro name distance isRead
      cases isRead
      exact holds
  | super isSuper holds _ =>
      refine ⟨visited, rfl, rfl, ?_, nofun, nofun, whole⟩
      intro name distance isRead
      cases isRead
      rw [isSuper]
      exact holds
  | _ => exact ⟨visited, rfl, rfl, nofun, nofun, nofun, whole⟩

theorem Stmt.Scoped.laid {address : Address} {s : Stmt Site}
    (isScoped : s.Scoped survey context address) :
    Node.Laid survey context context address (.stmt s) := by
  have whole := isScoped
  cases isScoped with
  | mk visited _ => exact ⟨visited, rfl, rfl, nofun, nofun, nofun, whole⟩

/-- A binary operator that the grammar knows and that takes only numbers is defined for them. -/
theorem numberOperator_isSome {layer : Layer} {kind : TokenKind}
    (isOperator : kind ∈ layer.valueOperators) (notEqual : kind ≠ .equalEqual)
    (notUnequal : kind ≠ .bangEqual) (notPlus : kind ≠ .plus) : (numberOperator kind).isSome := by
  cases layer <;> simp [Layer.valueOperators] at isOperator <;>
    (try rcases isOperator with rfl | rfl | rfl | rfl) <;> simp_all [numberOperator]

/-- Operators on numbers yield numbers and truth values. -/
theorem numberOperator_sound {kind : TokenKind} {operator : Float → Float → Value}
    (found : numberOperator kind = some operator) (left right : Float) :
    (operator left right).Sound survey world := by
  unfold numberOperator at found
  split at found <;> cases found <;> trivial

namespace Watching

open Watched (lift)

theorem lift_safe {part : Run Value} (sound : world.Sound survey)
    (outcome : (∃ value, part world.machine = .ok value world.machine ∧
      value.Sound survey world) ∨
        ∃ error, part world.machine = .error (.error error) world.machine) :
    Safe survey world (lift part) fun value later => value.Sound survey later := by
  rcases outcome with ⟨value, ends, valueSound⟩ | ⟨error, stops⟩
  · have ends : lift part world.watched = .ok value world.watched := by
      unfold lift
      rw [ends]
    exact Safe.ok world ends (Safe.stay sound) valueSound
  · unfold Safe lift
    rw [stops]
    exact ⟨nofun, world, rfl, Safe.stay sound⟩

theorem applyUnary_safe {op : Token} {operand : Value} (sound : world.Sound survey) :
    Safe survey world (lift (Run.applyUnary op operand)) fun value later =>
      value.Sound survey later := by
  apply lift_safe sound
  unfold Run.applyUnary
  split
  · exact .inl ⟨_, rfl, trivial⟩
  · split
    · exact .inl ⟨_, rfl, trivial⟩
    · exact .inr ⟨_, rfl⟩

theorem add_safe {op : Token} {left right : Value} (sound : world.Sound survey) :
    Safe survey world (lift (Run.add op left right)) fun value later =>
      value.Sound survey later := by
  apply lift_safe sound
  unfold Run.add
  split
  · exact .inl ⟨_, rfl, trivial⟩
  · exact .inl ⟨_, rfl, trivial⟩
  · exact .inr ⟨_, rfl⟩

theorem applyToNumbers_safe {op : Token} {left right : Value}
    {operator : Float → Float → Value} (sound : world.Sound survey)
    (found : numberOperator op.kind = some operator) :
    Safe survey world (lift (Run.applyToNumbers op left right)) fun value later =>
      value.Sound survey later := by
  apply lift_safe sound
  unfold Run.applyToNumbers
  split
  · rw [found]
    exact .inl ⟨_, rfl, numberOperator_sound found _ _⟩
  · exact .inr ⟨_, rfl⟩

theorem applyBinary_safe {op : Token} {left right : Value} {layer : Layer}
    (sound : world.Sound survey) (isOperator : op.kind ∈ layer.valueOperators) :
    Safe survey world (lift (Run.applyBinary op left right)) fun value later =>
      value.Sound survey later := by
  unfold Run.applyBinary
  split
  · exact lift_safe sound (.inl ⟨_, rfl, trivial⟩)
  · exact lift_safe sound (.inl ⟨_, rfl, trivial⟩)
  · exact add_safe sound
  · rename_i notEqual notUnequal notPlus
    obtain ⟨operator, found⟩ := Option.isSome_iff_exists.1
      (numberOperator_isSome isOperator notEqual notUnequal notPlus)
    exact applyToNumbers_safe sound found

theorem setField_safe {id : Nat} {name : String} {value : Value} (sound : world.Sound survey)
    (valueSound : value.Sound survey world) :
    Safe survey world (lift (Run.setField id name value)) fun _ _ => True := by
  have leads : world.Leads survey (world.withMachine
      { world.machine with
        objects := world.machine.objects.modify id (·.insert name value) }) := by
    refine sound.withMachine (world.machine.withField id name value) rfl rfl rfl ?_
    intro other key found there
    rcases Machine.get?_withField there with before | isValue
    · exact .inl before
    · exact .inr (isValue ▸ valueSound)
  exact Safe.ok _ rfl leads trivial

theorem emit_safe {line : String} (sound : world.Sound survey) :
    Safe survey world (lift (Run.emit line)) fun _ _ => True := by
  have leads : world.Leads survey (world.withMachine
      { world.machine with printed := line :: world.machine.printed }) :=
    sound.withMachine _ rfl rfl rfl fun _ _ _ found => .inl found
  exact Safe.ok _ rfl leads trivial

theorem childOf_safe {frame : FrameId} (sound : world.Sound survey)
    (mirrors : world.Mirrors frame context) (number : Nat) :
    Safe survey world (lift (Run.childOf frame)) fun inner later =>
      later.Mirrors inner (context.within number Table.empty) :=
  Safe.ok (world.child frame number) rfl (sound.child frame number) (mirrors.child sound number)

/-- A declared function is sound as soon as its name is bound. -/
theorem Made.sound {later : World} {address : Address} {decl : FunctionDecl Site}
    {closure : Closure} (leads : world.Leads survey later)
    (mirrors : world.Mirrors world.machine.current context)
    (made : Made address decl world.machine.current false closure later)
    (laid : decl.Scoped survey (context.bring decl.name.lexeme) address) :
    closure.Sound survey (later.define later.machine.current decl.name.lexeme
      (.closure closure)) := by
  have follows : later.Follows (later.define later.machine.current decl.name.lexeme
    (.closure closure)) := .define _ _ _
  have laterMirrors := leads.mirrors mirrors
  have brought := (laterMirrors.mono follows).bring
    (World.binds_define decl.name.lexeme (.closure closure) laterMirrors.present)
  refine ⟨made.counted, ⟨context.bring decl.name.lexeme, ?_, ?_⟩, ?_⟩
  · rw [made.frame, ← leads.current]
    exact brought
  · rw [made.decl]
    exact made.origin.symm ▸ laid
  · intro isInitializer
    rw [made.isInitializer] at isInitializer
    cases isInitializer

theorem evalEach_safe {evaluate : Nat → Expr Site → Watching Value} {index : Nat}
    {parts : List (Expr Site)} (sound : world.Sound survey)
    (mirrors : world.Mirrors world.machine.current context)
    (evaluates : ∀ (later : World) (offset : Nat) (part : Expr Site), later.Sound survey →
      later.Mirrors later.machine.current context → parts[offset]? = some part →
      Safe survey later (evaluate (index + offset) part) fun value last =>
        value.Sound survey last) :
    Safe survey world (evalEach evaluate index parts) fun values later =>
      ∀ value ∈ values, value.Sound survey later := by
  induction parts generalizing world index with
  | nil => exact Safe.pure sound nofun
  | cons first rest induction =>
      apply Safe.bind (evaluates world 0 first sound mirrors rfl)
      intro value later leads valueSound
      have laterMirrors := leads.mirrors mirrors
      have remaining := induction leads.sound laterMirrors fun last offset part lastSound
          lastMirrors there => by
        have found := evaluates last (offset + 1) part lastSound lastMirrors there
        rwa [← Nat.add_assoc, Nat.add_right_comm] at found
      apply Safe.bind remaining
      intro values last lastLeads valuesSound
      exact Safe.pure lastLeads.sound
        (List.forall_mem_cons.2 ⟨valueSound.mono lastLeads.follows, valuesSound⟩)

/-- A loop is safe if its condition and its body are safe wherever they are run. -/
theorem iterate_safe {condition : Watching Value} {body : Watching Completion}
    {post : Completion → World → Prop} {patience : Nat} (sound : world.Sound survey)
    (mirrors : world.Mirrors world.machine.current context)
    (conditionSafe : ∀ later : World, later.Sound survey →
      later.Mirrors later.machine.current context →
      Safe survey later condition fun _ _ => True)
    (bodySafe : ∀ later : World, later.Sound survey →
      later.Mirrors later.machine.current context → Safe survey later body post)
    (normal : ∀ later : World, later.Mirrors later.machine.current context → post .normal later) :
    Safe survey world (iterate condition body patience) post := by
  induction patience generalizing world with
  | zero => exact Safe.throw sound nofun
  | succ patience induction =>
      apply Safe.bind (conditionSafe world sound mirrors)
      intro value later leads _
      have laterMirrors := leads.mirrors mirrors
      apply Safe.ite
      · intro _
        apply Safe.bind (bodySafe later leads.sound laterMirrors)
        intro completion last lastLeads after
        have lastMirrors := lastLeads.mirrors laterMirrors
        cases completion with
        | normal => exact induction lastLeads.sound lastMirrors
        | returned value => exact Safe.pure lastLeads.sound after
      · intro _
        exact Safe.pure leads.sound (normal later laterMirrors)

theorem defineHere_normal {s : Stmt Site} {name : String} {value : Value}
    (sound : world.Sound survey) (mirrors : world.Mirrors world.machine.current context)
    (declares : s.declares = some name) (admitted : context.Admits survey name)
    (notSuper : name ≠ "super")
    (valueSound : value.Sound survey (world.define world.machine.current name value)) :
    Safe survey world (do
      lift (Run.defineHere name value)
      return Completion.normal) (After survey context s) := by
  apply Safe.bind (defineHere_safe sound mirrors admitted notSuper valueSound)
  intro _ later leads laterMirrors
  have after : context.after s = context.bring name := by
    unfold Context.after
    rw [declares]
  exact Safe.pure leads.sound ⟨trivial, fun _ => rfl, fun _ => after ▸ laterMirrors⟩

/-- Where nothing is declared the frame mirrors the same context afterwards. -/
theorem After.normal {s : Stmt Site} (mirrors : world.Mirrors world.machine.current context)
    (declares : s.declares = none) : After survey context s .normal world := by
  have after : context.after s = context := by
    unfold Context.after
    rw [declares]
  refine ⟨trivial, fun _ => rfl, fun _ => ?_⟩
  rw [after]
  exact mirrors

/-- What a statement leads to a statement around it leads to, if neither declares anything. -/
theorem After.outward {inner outer : Stmt Site} {completion : Completion}
    (after : After survey context inner completion world) (innerNone : inner.declares = none)
    (outerNone : outer.declares = none) : After survey context outer completion world := by
  have same : context.after outer = context.after inner := by
    unfold Context.after
    rw [innerNone, outerNone]
  unfold After
  rw [same]
  exact after

mutual

theorem eval_safe (host : Host) (room : Nat) {world : World} {context : Context}
    {address : Address} {e : Expr Site} (sound : world.Sound survey)
    (mirrors : world.Mirrors world.machine.current context)
    (laid : e.Scoped survey context address) :
    Safe survey world (eval host room address e) fun value later => value.Sound survey later := by
  have come := come_safe sound mirrors laid.laid
  obtain ⟨_, parts⟩ := laid
  cases room with
  | zero => exact Safe.bind come fun _ later leads _ => Safe.throw leads.sound nofun
  | succ room =>
      apply Safe.bind come
      intro _ later leads _
      have sound := leads.sound
      have mirrors := leads.mirrors mirrors
      cases parts with
      | @literal _ value => cases value <;> exact Safe.pure sound trivial
      | grouping inner => exact eval_safe host room sound mirrors inner
      | unary operand =>
          apply Safe.bind (eval_safe host room sound mirrors operand)
          exact fun value last lastLeads _ => applyUnary_safe lastLeads.sound
      | binary isOperator left right =>
          apply Safe.bind (eval_safe host room sound mirrors left)
          intro _ second leads _
          have mirrors := leads.mirrors mirrors
          apply Safe.bind (eval_safe host room leads.sound mirrors right)
          exact fun _ last lastLeads _ => applyBinary_safe lastLeads.sound isOperator
      | logical left right =>
          apply Safe.bind (eval_safe host room sound mirrors left)
          intro value second leads valueSound
          have mirrors := leads.mirrors mirrors
          exact Safe.ite (fun _ => Safe.pure leads.sound valueSound) fun _ =>
            eval_safe host room leads.sound mirrors right
      | «variable» holds =>
          exact lookUp_safe sound mirrors fun distance isSite => (holds distance isSite).2
      | assign known notSuper value =>
          apply Safe.bind (eval_safe host room sound mirrors value)
          intro value second leads valueSound
          have mirrors := leads.mirrors mirrors
          apply Safe.bind (store_safe leads.sound mirrors valueSound
            (fun distance isSite => (known distance isSite).2.2) notSuper)
          exact fun _ last lastLeads _ =>
            Safe.pure lastLeads.sound (valueSound.mono lastLeads.follows)
      | call callee args =>
          apply Safe.bind (eval_safe host room sound mirrors callee)
          intro callee second leads calleeSound
          have mirrors := leads.mirrors mirrors
          refine Safe.bind (evalEach_safe leads.sound mirrors
            fun later offset arg sound mirrors there =>
              eval_safe host room sound mirrors (Nat.add_comm offset 1 ▸ args offset arg there)) ?_
          exact fun _ last lastLeads argsSound => callValue_safe (exec_safe host room)
            lastLeads.sound (calleeSound.mono lastLeads.follows) argsSound
      | get object =>
          apply Safe.bind (eval_safe host room sound mirrors object)
          exact fun _ second leads objectSound => property_safe leads.sound objectSound
      | set object value =>
          apply Safe.bind (eval_safe host room sound mirrors object)
          intro object second leads _
          have mirrors := leads.mirrors mirrors
          cases object with
          | object id cls =>
              apply Safe.bind (eval_safe host room leads.sound mirrors value)
              intro value third leads valueSound
              apply Safe.bind (setField_safe leads.sound valueSound)
              exact fun _ last lastLeads _ =>
                Safe.pure lastLeads.sound (valueSound.mono lastLeads.follows)
          | _ => exact Safe.fault leads.sound
      | this _ holds =>
          exact lookUp_safe sound mirrors fun distance same => Option.some.inj same ▸ holds
      | super _ superHolds thisHolds => exact superMethod_safe sound mirrors superHolds thisHolds

theorem exec_safe (host : Host) (room : Nat) : ExecutesSafely survey (exec host room) := by
  intro world context address s sound mirrors laid
  have come := come_safe sound mirrors laid.laid
  cases laid with
  | mk _ parts =>
    cases room with
    | zero => exact Safe.bind come fun _ later leads _ => Safe.throw leads.sound nofun
    | succ room =>
      apply Safe.bind come
      intro _ later leads _
      have sound := leads.sound
      have mirrors := leads.mirrors mirrors
      cases parts with
      | expression value =>
          apply Safe.bind (eval_safe host room sound mirrors value)
          intro _ last leads _
          have mirrors := leads.mirrors mirrors
          exact Safe.pure leads.sound (After.normal mirrors rfl)
      | print value =>
          apply Safe.bind (eval_safe host room sound mirrors value)
          intro value second leads _
          have mirrors := leads.mirrors mirrors
          apply Safe.bind (emit_safe leads.sound)
          intro _ last leads _
          have mirrors := leads.mirrors mirrors
          exact Safe.pure leads.sound (After.normal mirrors rfl)
      | @var _ _ name initializer admitted _ notSuper value =>
          cases initializer with
          | none => exact defineHere_normal sound mirrors rfl admitted notSuper trivial
          | some initializer =>
              apply Safe.bind (eval_safe host room sound (mirrors.declare _) (value _ rfl))
              intro value second leads valueSound
              have mirrors := leads.mirrors mirrors
              exact defineHere_normal leads.sound mirrors rfl admitted notSuper
                (valueSound.mono (World.Follows.define _ _ _))
      | @block _ _ body number bodyLaid =>
          apply Safe.bind (here_safe sound)
          rintro frame world _ ⟨rfl, rfl⟩
          apply Safe.bind (childOf_safe sound mirrors number)
          intro inner second leads innerMirrors
          have mirrors := leads.mirrors mirrors
          have entered : second.Follows (second.enter inner) := .enter inner
          have bodySafe := execEach_safe (exec_safe host room) (leads.sound.enter inner)
            (innerMirrors.mono entered) bodyLaid
          have blockSafe := bodySafe.inFrame fun completion later after =>
            ⟨after.1.mono (.enter _), after.2⟩
          apply blockSafe.mono
          intro completion last leads after
          have mirrors := leads.mirrors mirrors
          exact ⟨after.1, after.2, fun _ => mirrors⟩
      | @conditional _ _ _ _ elseBranch condition thenLaid thenNone elseLaid elseNone =>
          apply Safe.bind (eval_safe host room sound mirrors condition)
          intro value second leads _
          have mirrors := leads.mirrors mirrors
          apply Safe.ite
          · intro _
            have branchSafe := exec_safe host room second _ _ _ leads.sound mirrors thenLaid
            exact branchSafe.mono fun _ _ _ after => after.outward thenNone rfl
          · intro _
            cases elseBranch with
            | none => exact Safe.pure leads.sound (After.normal mirrors rfl)
            | some branch =>
                have branchSafe :=
                  exec_safe host room second _ _ _ leads.sound mirrors (elseLaid branch rfl)
                exact branchSafe.mono fun _ _ _ after => after.outward (elseNone branch rfl) rfl
      | loop condition bodyLaid bodyNone =>
          apply iterate_safe sound mirrors
          · exact fun later sound mirrors =>
              (eval_safe host room sound mirrors condition).mono fun _ _ _ _ => trivial
          · intro later sound mirrors
            have bodySafe := exec_safe host room later _ _ _ sound mirrors bodyLaid
            exact bodySafe.mono fun _ _ _ after => after.outward bodyNone rfl
          · exact fun later mirrors => After.normal mirrors rfl
      | @function _ _ decl admitted _ notSuper declLaid =>
          apply Safe.bind (here_safe sound)
          rintro frame world _ ⟨rfl, rfl⟩
          apply Safe.bind (makeClosure_safe sound address decl world.machine.current false)
          intro closure second leads made
          have closureSound := made.sound leads mirrors declLaid
          have mirrors := leads.mirrors mirrors
          exact defineHere_normal leads.sound mirrors rfl admitted notSuper closureSound
      | @«return» _ _ keyword value inFunction valueLaid =>
          cases value with
          | none =>
              exact Safe.pure sound ⟨trivial, fun outside => absurd outside inFunction, nofun⟩
          | some value =>
              apply Safe.bind (eval_safe host room sound mirrors (valueLaid value rfl))
              intro value last leads valueSound
              exact Safe.pure leads.sound
                ⟨valueSound, fun outside => absurd outside inFunction, nofun⟩
      | plainClass admitted lacks notSuper known methodsLaid =>
          apply Safe.bind (declareClass_safe sound mirrors
            (.plainClass admitted lacks notSuper known methodsLaid))
          exact fun _ last leads mirrors =>
            Safe.pure leads.sound ⟨trivial, fun _ => rfl, fun _ => mirrors⟩
      | derivedClass admitted lacks notSuper parentVisited holds outerKnown known methodsLaid =>
          apply Safe.bind (declareClass_safe sound mirrors (.derivedClass admitted lacks notSuper
            parentVisited holds outerKnown known methodsLaid))
          exact fun _ last leads mirrors =>
            Safe.pure leads.sound ⟨trivial, fun _ => rfl, fun _ => mirrors⟩

end

/-- The statements of a program are executed safely, as far as any point between them, where the
others are still laid out well. -/
theorem program_safe (host : Host) {root : Address} {index : Nat}
    {before rest : List (Stmt Site)} (sound : world.Sound survey)
    (mirrors : world.Mirrors world.machine.current context) (outside : context.function = .none)
    (laid : Stmt.ListScoped survey context root index (before ++ rest)) :
    Safe survey world (program host root index before) fun _ later =>
      ∃ reached : Context, reached.function = .none ∧
        later.Mirrors later.machine.current reached ∧
        Stmt.ListScoped survey reached root (index + before.length) rest := by
  induction before generalizing world context index with
  | nil => exact Safe.pure sound ⟨context, outside, mirrors, laid⟩
  | cons first others induction =>
      cases laid with
      | cons firstLaid othersLaid =>
          apply Safe.bind (exec_safe host host.room world context _ first sound mirrors firstLaid)
          intro completion later leads after
          obtain ⟨_, normal, continues⟩ := after
          have stillOutside : (context.after first).function = .none := by
            rw [Context.function_after, outside]
          apply (induction leads.sound (continues (normal outside)) stillOutside othersLaid).mono
          intro _ last _ remaining
          have lengths : index + (first :: others).length = index + 1 + others.length := by
            simp only [List.length_cons]
            omega
          rw [lengths]
          exact remaining

end Watching

end LoxLang
