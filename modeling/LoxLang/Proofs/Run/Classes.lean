import LoxLang.Proofs.Run.Calls

/-!
# Classes in sound worlds

A class is declared in four steps: its superclass is looked up, its name is bound
to nothing, its methods are made in the frame that stands for the scope of
`super`, if there is one, and its name is bound to the class.
-/

namespace LoxLang

variable {survey : Survey} {world : World} {context : Context}

/-- The context in which the methods of a class lie, but for the scope of `this`. -/
def Context.Surrounds (survey : Survey) (context around : Context) : Option ClassValue → Prop
  | none => around = context
  | some _ => ∃ outer, (outer, "super") ∈ survey.put ∧
      around = context.within outer (Scope.only "super")

/-- All methods of the table can be called. -/
def MethodsSound (survey : Survey) (world : World) (table : Table Closure) : Prop :=
  ∀ name method, table.get? name = some method → method.MethodSound survey world

theorem MethodsSound.mono {later : World} {table : Table Closure}
    (sound : MethodsSound survey world table) (follows : world.Follows later) :
    MethodsSound survey later table :=
  fun name method found => (sound name method found).mono follows

theorem MethodsSound.insert {table : Table Closure} {name : String} {method : Closure}
    (sound : MethodsSound survey world table) (methodSound : method.MethodSound survey world) :
    MethodsSound survey world (table.insert name method) := by
  intro other found isFound
  rw [Table.get?_insert] at isFound
  split at isFound
  · cases isFound
    exact methodSound
  · exact sound other found isFound

namespace Watching

open Watched (lift)

theorem freshSerial_safe (sound : world.Sound survey) :
    Safe survey world (lift Run.freshSerial) fun _ _ => True := by
  have leads := sound.count (fun serial _ => Eq.refl (world.history.origins serial))
  exact Safe.ok (world.count world.history.origins) rfl leads trivial

theorem defineIn_safe {frame : FrameId} {name : String} {value : Value}
    (sound : world.Sound survey) (present : frame < world.forest.size)
    (known : frame ≠ globalFrame → (world.scopeOf frame, name) ∈ survey.put)
    (valueSound : value.Sound survey world)
    (isClass : name = "super" → ∃ cls, value = .class cls) :
    Safe survey world (lift (Run.defineIn frame name value)) fun _ later =>
      (later.forest.bindings frame).binds name := by
  have leads := sound.define frame name known
    (valueSound.mono (World.Follows.define frame name value)) isClass
  exact Safe.ok (world.define frame name value) rfl leads (World.binds_define name value present)

/-- The superclass is looked up before the class has its name. -/
theorem superclass?_safe {address : Address} {parent : Option (Superclass Site)}
    (seen : Context) (sound : world.Sound survey)
    (mirrors : world.Mirrors world.machine.current context)
    (numbers : seen.numbers = context.numbers) (scopes : seen.scopes.length = context.scopes.length)
    (visited : ∀ superclass ∈ parent,
      ⟨address, .expr (.variable superclass.name ()), seen⟩ ∈ survey.visits)
    (holds : ∀ superclass ∈ parent, ∀ distance ∈ superclass.site,
      seen.Finds distance superclass.name.lexeme ∧
        context.Holds distance superclass.name.lexeme) :
    Safe survey world (superclass? address parent) fun superclass later =>
      (∀ cls ∈ superclass, cls.Sound survey later) ∧ (superclass = none ↔ parent = none) := by
  cases parent with
  | none => exact Safe.pure sound ⟨nofun, by simp⟩
  | some parent =>
      have laid : Node.Laid survey context seen address
          (.expr (.variable parent.name parent.site)) :=
        .variable (visited parent rfl) numbers scopes (holds parent rfl)
      apply Safe.bind (come_safe sound mirrors laid)
      intro _ later leads _
      have laterMirrors := leads.mirrors mirrors
      apply Safe.bind (lookUp_safe leads.sound laterMirrors fun distance isSite =>
        (holds parent rfl distance isSite).2)
      intro value last lastLeads valueSound
      cases value with
      | «class» cls =>
          refine Safe.pure lastLeads.sound ⟨?_, by simp⟩
          intro found same
          cases same
          exact valueSound
      | _ => exact Safe.fault lastLeads.sound

/-- The frame of the methods is a copy of the scope of `super`, if the class has one. -/
theorem methodFrame_safe {frame : FrameId} {around : Context} {superclass : Option ClassValue}
    (sound : world.Sound survey) (mirrors : world.Mirrors frame context)
    (surrounds : context.Surrounds survey around superclass)
    (superclassSound : ∀ cls ∈ superclass, cls.Sound survey world) :
    Safe survey world (lift (Run.methodFrame frame superclass)) fun inner later =>
      later.Mirrors inner around := by
  cases superclass with
  | none =>
      cases surrounds
      exact Safe.ok world rfl (Safe.stay sound) mirrors
  | some cls =>
      obtain ⟨outer, known, same⟩ := surrounds
      subst same
      have childLeads := sound.child frame outer
      have childMirrors := mirrors.child sound outer
      have scopeEq : (world.child frame outer).scopeOf world.forest.size = outer := if_pos rfl
      have clsSound : (Value.class cls).Sound survey world := superclassSound cls rfl
      have bindSafe := defineIn_safe childLeads.sound childMirrors.present
        (fun _ => scopeEq.symm ▸ known) (clsSound.mono childLeads.follows) fun _ => ⟨cls, rfl⟩
      have inside : Safe survey (world.child frame outer) (do
          lift (Run.defineIn world.forest.size "super" (.class cls))
          return world.forest.size) fun inner later =>
            later.Mirrors inner (context.within outer (Scope.only "super")) := by
        apply Safe.bind bindSafe
        intro _ later leads bound
        exact Safe.pure leads.sound ((childMirrors.mono leads.follows).define bound)
      exact inside.via childLeads rfl

theorem methodTable_safe {frame : FrameId} {address : Address} {index number : Nat}
    {table : Table Closure} {methods : List (FunctionDecl Site)} (sound : world.Sound survey)
    (mirrors : world.Mirrors frame context) (known : (number, "this") ∈ survey.put)
    (tableSound : MethodsSound survey world table)
    (laid : ∀ (offset : Nat) (method : FunctionDecl Site), methods[offset]? = some method →
      method.Scoped survey (context.within number (Scope.only "this"))
        (address.child (index + offset))) :
    Safe survey world (methodTable address frame index table methods) fun table later =>
      MethodsSound survey later table := by
  induction methods generalizing world index table with
  | nil => exact Safe.pure sound tableSound
  | cons decl rest induction =>
      apply Safe.bind (makeClosure_safe sound _ decl frame _)
      intro method later leads made
      have laterMirrors := mirrors.mono leads.follows
      have methodSound : method.MethodSound survey later := by
        refine ⟨made.counted, context, number, made.frame ▸ laterMirrors, known, ?_⟩
        rw [made.decl, made.origin]
        exact laid 0 decl rfl
      apply induction leads.sound laterMirrors
      · exact (tableSound.mono leads.follows).insert methodSound
      · intro offset method there
        have further := laid (offset + 1) method there
        rwa [← Nat.add_assoc, Nat.add_right_comm] at further

theorem classRest_safe {address : Address} {name : Token} {superclass : Option ClassValue}
    {methods : List (FunctionDecl Site)} {around : Context} {number : Nat}
    (sound : world.Sound survey) (mirrors : world.Mirrors world.machine.current context)
    (admitted : context.Admits survey name.lexeme) (notSuper : name.lexeme ≠ "super")
    (superclassSound : ∀ cls ∈ superclass, cls.Sound survey world)
    (surrounds : (context.bring name.lexeme).Surrounds survey around superclass)
    (known : (number, "this") ∈ survey.put)
    (laid : ∀ (index : Nat) (method : FunctionDecl Site), methods[index]? = some method →
      method.Scoped survey (around.within number (Scope.only "this"))
        (address.child (index + 1))) :
    Safe survey world (classRest address name superclass methods) fun _ later =>
      later.Mirrors later.machine.current (context.bring name.lexeme) := by
  apply Safe.bind (here_safe sound)
  rintro frame world _ ⟨rfl, rfl⟩
  have nameKnown := mirrors.admits admitted
  have nilSound : Value.nil.Sound survey world := trivial
  apply Safe.bind (defineIn_safe sound mirrors.present nameKnown nilSound
    fun isSuper => absurd isSuper notSuper)
  intro _ named namedLeads bound
  have namedMirrors := (mirrors.mono namedLeads.follows).bring bound
  have namedSuperclass := fun cls member => (superclassSound cls member).mono namedLeads.follows
  apply Safe.bind (methodFrame_safe namedLeads.sound namedMirrors surrounds namedSuperclass)
  intro inner framed framedLeads innerMirrors
  have noMethods : MethodsSound survey framed Table.empty := by
    intro name method found
    cases found
  apply Safe.bind (methodTable_safe framedLeads.sound innerMirrors known noMethods
    fun offset method there => Nat.add_comm offset 1 ▸ laid offset method there)
  intro table made madeLeads tableSound
  apply Safe.bind (freshSerial_safe madeLeads.sound)
  intro serial counted countedLeads _
  have leads := (framedLeads.trans madeLeads).trans countedLeads
  have lastMirrors := namedMirrors.mono leads.follows
  have scopeEq := (namedLeads.trans leads).follows.scopeOf _ mirrors.present
  have ended (ancestors : List ClassEntry)
      (ancestorsSound : ∀ entry ∈ ancestors, MethodsSound survey counted entry.methods) :
      Safe survey counted (lift (Run.defineIn world.machine.current name.lexeme
        (.class ⟨⟨serial, name.lexeme, table⟩, ancestors⟩))) fun _ later =>
          later.Mirrors later.machine.current (context.bring name.lexeme) := by
    have classSound : (Value.class ⟨⟨serial, name.lexeme, table⟩, ancestors⟩).Sound survey
      counted :=
      List.forall_mem_cons.2 ⟨tableSound.mono countedLeads.follows, ancestorsSound⟩
    apply (defineIn_safe countedLeads.sound lastMirrors.present (scopeEq ▸ nameKnown) classSound
      fun isSuper => absurd isSuper notSuper).mono
    intro _ last lastLeads _
    have current := (namedLeads.trans (leads.trans lastLeads)).current
    exact current ▸ lastMirrors.mono lastLeads.follows
  cases superclass with
  | none => exact ended [] nofun
  | some cls => exact ended cls.chain ((namedSuperclass cls rfl).mono leads.follows)

theorem declareClass_safe {address : Address} {name : Token} {parent : Option (Superclass Site)}
    {methods : List (FunctionDecl Site)} (sound : world.Sound survey)
    (mirrors : world.Mirrors world.machine.current context)
    (laid : Stmt.PartsScoped survey context address (.class name parent methods)) :
    Safe survey world (declareClass address name parent methods) fun _ later =>
      later.Mirrors later.machine.current (context.bring name.lexeme) := by
  cases laid with
  | plainClass admitted _ notSuper known methodsLaid =>
      refine Safe.bind (superclass?_safe context sound mirrors rfl rfl nofun nofun) ?_
      rintro superclass later leads ⟨_, same⟩
      have same := same.2 rfl
      subst same
      have laterMirrors := (leads.mirrors mirrors).inClass .plain
      have declared := classRest_safe leads.sound laterMirrors admitted notSuper
        (fun cls member => absurd member (Option.not_mem_none cls)) rfl known methodsLaid
      exact declared.mono fun _ last _ lastMirrors => lastMirrors.inClass context.classKind
  | @derivedClass _ _ _ parent _ outer number admitted _ notSuper visited holds superKnown
      thisKnown methodsLaid =>
      let seen := (context.inClass .derived).bring name.lexeme
      have lengths : seen.scopes.length = context.scopes.length := by
        simp [seen, Context.bring, Context.declare, Context.define, Context.innermost,
          Context.inClass]
      refine Safe.bind (superclass?_safe seen sound mirrors rfl lengths
        (fun _ same => Option.some.inj same ▸ visited) fun _ same => Option.some.inj same ▸ holds)
        ?_
      rintro superclass later leads ⟨superclassSound, same⟩
      have laterMirrors := (leads.mirrors mirrors).inClass .derived
      cases superclass with
      | none => cases same.1 rfl
      | some cls =>
          have declared := classRest_safe leads.sound laterMirrors admitted notSuper
            superclassSound ⟨outer, superKnown, rfl⟩ thisKnown methodsLaid
          exact declared.mono fun _ last _ lastMirrors => lastMirrors.inClass context.classKind

end Watching

end LoxLang
