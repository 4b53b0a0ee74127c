import LoxLang.Proofs.Run.Access
import LoxLang.Proofs.Run.Effects

/-!
# Calls in sound worlds

Functions are made, methods are bound to objects, and both are called.  A call
makes a copy of the scope of the parameters inside the frame of the function, in
which the body was laid out.
-/

namespace LoxLang

variable {survey : Survey} {world : World}

namespace Watching

open Watched (lift note consult)

theorem Safe.via {α : Type} {part rest : Watching α} {post : α → World → Prop} {later : World}
    (leads : world.Leads survey later) (safe : Safe survey later rest post)
    (same : part world.watched = rest later.watched) : Safe survey world part post := by
  unfold Safe at safe ⊢
  rw [same]
  cases outcome : rest later.watched with
  | ok result after =>
      rw [outcome] at safe
      obtain ⟨last, sameLast, lastLeads, holds⟩ := safe
      exact ⟨last, sameLast, leads.trans lastLeads, holds⟩
  | error stop after =>
      rw [outcome] at safe
      obtain ⟨harmless, last, sameLast, lastLeads⟩ := safe
      exact ⟨harmless, last, sameLast, leads.trans lastLeads⟩

/-- What is known of a function that has just been made. -/
structure Made (origin : Address) (decl : FunctionDecl Site) (frame : FrameId)
    (isInitializer : Bool) (closure : Closure) (world : World) : Prop where
  counted : closure.serial < world.machine.serial
  origin : world.history.origins closure.serial = origin
  decl : closure.decl = decl
  frame : closure.frame = frame
  isInitializer : closure.isInitializer = isInitializer

theorem makeClosure_safe (sound : world.Sound survey) (origin : Address)
    (decl : FunctionDecl Site) (frame : FrameId) (isInitializer : Bool) :
    Safe survey world (makeClosure origin decl frame isInitializer)
      (Made origin decl frame isInitializer) := by
  have kept : ∀ serial < world.machine.serial,
      (if serial = world.machine.serial then origin else world.history.origins serial) =
        world.history.origins serial :=
    fun serial older => if_neg (Nat.ne_of_lt older)
  have leads := sound.count kept
  have made : Made origin decl frame isInitializer
      ⟨world.machine.serial, decl, frame, isInitializer⟩
      (world.count fun serial =>
        if serial = world.machine.serial then origin else world.history.origins serial) :=
    ⟨Nat.lt_succ_self _, if_pos rfl, rfl, rfl, rfl⟩
  exact Safe.ok (world.count _) rfl leads made

/-- Binding a method to an object makes a function that can be called. -/
theorem bind_safe (sound : world.Sound survey) {method : Closure} {object : Value}
    (methodSound : method.MethodSound survey world) (objectSound : object.Sound survey world) :
    Safe survey world (bind method object) fun closure later =>
      closure.Sound survey later ∧ closure.decl = method.decl := by
  obtain ⟨context, number, mirrors, known, laid⟩ := methodSound.laid
  have childLeads := sound.child method.frame number
  have childMirrors := mirrors.child sound number
  have scopeEq : (world.child method.frame number).scopeOf world.forest.size = number := if_pos rfl
  have defineLeads := childLeads.sound.define world.forest.size "this"
    (fun _ => scopeEq.symm ▸ known)
    ((objectSound.mono childLeads.follows).mono (World.Follows.define _ _ _)) (by simp)
  have leads := childLeads.trans defineLeads
  apply Safe.via leads (makeClosure_safe leads.sound (world.history.origins method.serial)
    method.decl world.forest.size method.isInitializer |>.mono _) rfl
  intro closure later laterLeads made
  have bound := World.binds_define "this" object childMirrors.present
  have innerMirrors := (childMirrors.mono defineLeads.follows).define bound
  have laterMirrors := innerMirrors.mono laterLeads.follows
  refine ⟨⟨made.counted, ?_, ?_⟩, made.decl⟩
  · refine ⟨_, made.frame ▸ laterMirrors, ?_⟩
    rw [made.decl, made.origin]
    exact laid
  · intro _
    rw [made.frame]
    exact laterLeads.follows.binds _ innerMirrors.present _ bound

theorem defineParams_safe {frame : FrameId} {base : Context} {number : Nat} {scope : Scope}
    {params : List Token} {args : List Value} (sound : world.Sound survey)
    (mirrors : world.Mirrors frame (base.within number scope))
    (scopeEq : world.scopeOf frame = number)
    (known : ∀ param ∈ params, (number, param.lexeme) ∈ survey.put ∧ param.lexeme ≠ "super")
    (argsSound : ∀ arg ∈ args, arg.Sound survey world) (lengths : args.length = params.length) :
    Safe survey world (lift (Run.defineParams frame params args)) fun _ later =>
      later.Mirrors frame (base.within number
        (params.foldl (fun scope param =>
          (scope.insert param.lexeme false).insert param.lexeme true) scope)) := by
  induction params generalizing world scope args with
  | nil => exact Safe.ok world rfl (Safe.stay sound) mirrors
  | cons param params induction =>
      cases args with
      | nil => cases lengths
      | cons arg args =>
          obtain ⟨isPut, notSuper⟩ := known param List.mem_cons_self
          have follows : world.Follows (world.define frame param.lexeme arg) :=
            .define frame param.lexeme arg
          have leads := sound.define frame param.lexeme (fun _ => scopeEq.symm ▸ isPut)
            ((argsSound arg List.mem_cons_self).mono follows) fun isSuper => absurd isSuper notSuper
          have bound := World.binds_define param.lexeme arg mirrors.present
          have brought := (mirrors.mono follows).bring bound
          rw [Context.bring_within] at brought
          have remaining := induction leads.sound brought scopeEq
            (fun param member => known param (List.mem_cons_of_mem _ member))
            (fun arg member => (argsSound arg (List.mem_cons_of_mem _ member)).mono follows)
            (Nat.succ.inj lengths)
          exact remaining.via leads rfl

/-- What executing a statement in a context leads to.  Only inside of a function does it return. -/
def After (survey : Survey) (context : Context) (s : Stmt Site) (completion : Completion)
    (later : World) : Prop :=
  completion.Sound survey later ∧ (context.function = .none → completion = .normal) ∧
    (completion = .normal → later.Mirrors later.machine.current (context.after s))

/-- Statements that are laid out well are executed safely. -/
def ExecutesSafely (survey : Survey) (execute : Address → Stmt Site → Watching Completion) :
    Prop :=
  ∀ (world : World) (context : Context) (address : Address) (s : Stmt Site),
    world.Sound survey → world.Mirrors world.machine.current context →
    s.Scoped survey context address →
    Safe survey world (execute address s) (After survey context s)

theorem here_safe (sound : world.Sound survey) :
    Safe survey world (lift Run.here) fun frame later =>
      later = world ∧ frame = world.machine.current :=
  Safe.ok world rfl (Safe.stay sound) ⟨rfl, rfl⟩

theorem readClock_safe {host : Host} (sound : world.Sound survey) :
    Safe survey world (lift (Run.readClock host)) fun value later =>
      value.Sound survey later := by
  have leads : world.Leads survey (world.withMachine
      { world.machine with readings := world.machine.readings + 1 }) :=
    sound.withMachine _ rfl rfl rfl fun _ _ _ found => .inl found
  have numberSound : (Value.number (host.clock world.machine.readings)).Sound survey world :=
    trivial
  exact Safe.ok _ rfl leads (numberSound.mono leads.follows)

theorem field?_safe {id : Nat} {name : String} (sound : world.Sound survey) :
    Safe survey world (lift (Run.field? id name)) fun found later =>
      ∀ value ∈ found, value.Sound survey later :=
  Safe.ok world rfl (Safe.stay sound) fun value found => sound.fields id name value found

theorem callWith_safe {paren : Token} {arity : Nat} {args : List Value} {body : Watching Value}
    (sound : world.Sound survey)
    (bodySafe : args.length = arity →
      Safe survey world body fun value later => value.Sound survey later) :
    Safe survey world (callWith paren arity args body) fun value later =>
      value.Sound survey later :=
  Safe.ite (fun enough => (bodySafe enough).catchOverflow) fun _ => Safe.fault sound

theorem newObject_safe {cls : ClassValue} (sound : world.Sound survey)
    (classSound : cls.Sound survey world) :
    Safe survey world (lift (Run.newObject cls)) fun value later =>
      value.Sound survey later := by
  have leads : world.Leads survey (world.withMachine
      { world.machine with objects := world.machine.objects.push Table.empty }) := by
    refine sound.withMachine world.machine.created rfl rfl rfl ?_
    intro id name value found
    rw [Machine.fields_created] at found
    exact .inl found
  have objectSound : (Value.object world.machine.objects.size cls).Sound survey _ :=
    classSound.mono leads.follows
  exact Safe.ok _ rfl leads objectSound

section Calls

variable {execute : Address → Stmt Site → Watching Completion}
  (executes : ExecutesSafely survey execute)

include executes

theorem execEach_safe {context : Context} {address : Address} {index : Nat}
    {body : List (Stmt Site)} (sound : world.Sound survey)
    (mirrors : world.Mirrors world.machine.current context)
    (laid : Stmt.ListScoped survey context address index body) :
    Safe survey world (execEach (fun index => execute (address.child index)) index body)
      fun completion later => completion.Sound survey later ∧
        (context.function = .none → completion = .normal) := by
  induction body generalizing world context index with
  | nil => exact Safe.pure sound ⟨trivial, fun _ => rfl⟩
  | cons first rest induction =>
      cases laid with
      | cons firstLaid restLaid =>
          apply Safe.bind (executes world context _ first sound mirrors firstLaid)
          intro completion later leads after
          obtain ⟨completionSound, atTop, continues⟩ := after
          cases completion with
          | normal =>
              have remaining := induction leads.sound (continues rfl) restLaid
              rw [Context.function_after] at remaining
              exact remaining
          | returned value => exact Safe.pure leads.sound ⟨completionSound, atTop⟩

theorem callClosure_safe {closure : Closure} {args : List Value} (sound : world.Sound survey)
    (closureSound : closure.Sound survey world) (argsSound : ∀ arg ∈ args, arg.Sound survey world)
    (lengths : args.length = closure.arity) :
    Safe survey world (callClosure execute closure args) fun value later =>
      value.Sound survey later := by
  obtain ⟨context, mirrors, laid⟩ := closureSound.laid
  generalize declEq : closure.decl = decl at laid
  cases laid with
  | @mk _ _ name params body number kind known _ bodyLaid =>
      have childLeads := sound.child closure.frame number
      have childMirrors := mirrors.child sound number
      have scopeEq : (world.child closure.frame number).scopeOf world.forest.size = number :=
        if_pos rfl
      have sameLength : args.length = params.length := by
        rw [lengths]
        unfold Closure.arity
        rw [declEq]
        rfl
      have inside : Safe survey (world.child closure.frame number) (do
          lift (Run.defineParams world.forest.size params args)
          let completion ← inFrame world.forest.size (execEach
            (fun index => execute ((world.history.origins closure.serial).child index)) 0 body)
          answer closure completion) fun value later => value.Sound survey later := by
        apply Safe.bind (defineParams_safe childLeads.sound childMirrors scopeEq known
          (fun arg member => (argsSound arg member).mono childLeads.follows) sameLength)
        intro _ filled filledLeads filledMirrors
        have entered : filled.Follows (filled.enter world.forest.size) := .enter _
        have bodySafe := execEach_safe executes (filledLeads.sound.enter world.forest.size)
          ((filledMirrors.mono entered).inFunction kind) bodyLaid
        have returns := bodySafe.mono fun completion later _ after => after.1
        apply Safe.bind (returns.inFrame fun completion later completionSound =>
          completionSound.mono (World.Follows.enter _))
        intro completion later laterLeads completionSound
        apply Safe.ite
        · intro isInitializer
          have bound := closureSound.initializer isInitializer
          have follows := (childLeads.trans (filledLeads.trans laterLeads)).follows
          have stillBound := follows.binds _ mirrors.present _ bound
          have here : (later.forest.chain closure.frame)[0]? = some closure.frame := rfl
          exact (lookUpAt_safe laterLeads.sound here stillBound).mono
            fun value last _ found => found.1
        · intro _
          cases completion with
          | normal => exact Safe.pure laterLeads.sound trivial
          | returned value => exact Safe.pure laterLeads.sound completionSound
      unfold callClosure
      rw [declEq]
      exact inside.via childLeads rfl

/-- Making an object and letting the initializer work on it. -/
theorem callClass_safe {cls : ClassValue} {args : List Value} (sound : world.Sound survey)
    (classSound : cls.Sound survey world) (argsSound : ∀ arg ∈ args, arg.Sound survey world)
    (lengths : args.length = cls.arity) :
    Safe survey world (callClass execute cls args) fun value later =>
      value.Sound survey later := by
  apply Safe.bind (newObject_safe sound classSound)
  intro object later laterLeads objectSound
  cases found : cls.initializer? with
  | none => exact Safe.pure laterLeads.sound objectSound
  | some initializer =>
      have methodSound := (classSound.method? found).mono laterLeads.follows
      apply Safe.bind (bind_safe laterLeads.sound methodSound objectSound)
      intro bound last lastLeads boundSound
      have follows := laterLeads.follows.trans lastLeads.follows
      have arity : args.length = bound.arity := by
        unfold Closure.arity
        rw [boundSound.2, lengths]
        unfold ClassValue.arity
        rw [found]
        rfl
      have called := callClosure_safe executes lastLeads.sound boundSound.1
        (fun arg member => (argsSound arg member).mono follows) arity
      apply Safe.bind called
      intro _ final finalLeads _
      exact Safe.pure finalLeads.sound
        ((objectSound.mono lastLeads.follows).mono finalLeads.follows)

theorem callValue_safe {host : Host} {paren : Token} {callee : Value} {args : List Value}
    (sound : world.Sound survey) (calleeSound : callee.Sound survey world)
    (argsSound : ∀ arg ∈ args, arg.Sound survey world) :
    Safe survey world (callValue host execute paren callee args) fun value later =>
      value.Sound survey later := by
  cases callee with
  | primitive function => exact callWith_safe sound fun _ => readClock_safe sound
  | closure closure =>
      exact callWith_safe sound (callClosure_safe executes sound calleeSound argsSound)
  | «class» cls => exact callWith_safe sound (callClass_safe executes sound calleeSound argsSound)
  | _ => exact Safe.fault sound

end Calls

/-- A property is a field, or else a method bound to the object. -/
theorem property_safe {object : Value} {name : Token} (sound : world.Sound survey)
    (objectSound : object.Sound survey world) :
    Safe survey world (property object name) fun value later => value.Sound survey later := by
  cases object with
  | object id cls =>
      apply Safe.bind (field?_safe sound)
      intro found later leads foundSound
      have objectSound := objectSound.mono leads.follows
      cases found with
      | some value => exact Safe.pure leads.sound (foundSound value rfl)
      | none =>
          cases has : cls.method? name.lexeme with
          | none =>
              simp only
              exact Safe.fault leads.sound
          | some method =>
              simp only
              apply Safe.bind (bind_safe leads.sound (ClassValue.Sound.method? objectSound has)
                objectSound)
              intro bound last lastLeads boundSound
              exact Safe.pure lastLeads.sound boundSound.1
  | _ => exact Safe.fault sound

/-- Where `super` is usable, with `this` directly inside, its methods are found. -/
theorem superMethod_safe {context : Context} {method : Token} {distance : Nat}
    (sound : world.Sound survey) (mirrors : world.Mirrors world.machine.current context)
    (superHolds : context.Holds (distance + 1) "super")
    (thisHolds : context.Holds distance "this") :
    Safe survey world (superMethod method (some (distance + 1))) fun value later =>
      value.Sound survey later := by
  obtain ⟨superFrame, superThere, superBound⟩ := mirrors.bound _ _ superHolds
  obtain ⟨thisFrame, thisThere, thisBound⟩ := mirrors.bound _ _ thisHolds
  apply Safe.bind (here_safe sound)
  rintro frame world _ ⟨rfl, rfl⟩
  apply Safe.bind (lookUpAt_safe sound superThere superBound)
  rintro superclass world _ ⟨superSound, rfl, found⟩
  apply Safe.bind (lookUpAt_safe sound thisThere thisBound)
  rintro object world _ ⟨objectSound, rfl, _⟩
  obtain ⟨cls, isClass⟩ := sound.classes superFrame superclass found
  subst isClass
  cases has : cls.method? method.lexeme with
  | none =>
      simp only [has]
      exact Safe.fault sound
  | some methodFound =>
      simp only [has]
      apply Safe.bind (bind_safe sound (ClassValue.Sound.method? superSound has) objectSound)
      intro bound later leads boundSound
      exact Safe.pure leads.sound boundSound.1

end Watching

end LoxLang
