import LoxLang.Proofs.Run.Lineage
import LoxLang.Proofs.Scope.Descent
import LoxLang.Proofs.Scope.Distances
import LoxLang.Proofs.Session.Observance
import LoxLang.Proofs.Session.Soundness

/-!
# Static `super` and dynamic `this`

The superclass from which a method looks `super` up is fixed when its class is declared.
The object to which it binds what it finds is the one that the method itself has been
bound to.  Both are so for the functions declared in the method, too, whenever they are
called.
-/

namespace LoxLang

namespace Machine

/-- The machine keeps the value in a frame or in a field. -/
def Holds (machine : Machine) (value : Value) : Prop :=
  (∃ frame name, (machine.forest.bindings frame).get? name = some value) ∨
    ∃ id name, (machine.fields id).get? name = some value

/-- The class is kept somewhere, or is the class of an object that is, or a superclass of such a
class. -/
inductive Has (machine : Machine) : ClassValue → Prop where
  | held {cls : ClassValue} (held : machine.Holds (.class cls)) : Has machine cls
  | ofObject {cls : ClassValue} {id : Nat} (held : machine.Holds (.object id cls)) :
      Has machine cls
  | superclass {cls superclass : ClassValue} (has : Has machine cls)
      (isSuperclass : superclass.chain = cls.ancestors) : Has machine superclass

/-- The machine has the class, whose superclass is the second one, and the method is in its own
table. -/
structure Inherits (machine : Machine) (cls superclass : ClassValue) (method : Closure) : Prop where
  has : machine.Has cls
  isSuperclass : superclass.chain = cls.ancestors
  isOwn : ∃ name, cls.own.methods.get? name = some method

/-- The frame lies in one that binds `this` to the object, which lies directly in the home of a
method, and no nearer frame binds `super`.  Such are the frames of the calls of the method as a
method of the object, of the blocks in these, and of the functions declared there. -/
def InCall (machine : Machine) (home : FrameId) (object : Value) (frame : FrameId) : Prop :=
  ∃ inner bound outer, machine.forest.chain frame = inner ++ bound :: home :: outer ∧
    (machine.forest.bindings bound).get? "this" = some object ∧
    ∀ nearer ∈ inner ++ [bound], (machine.forest.bindings nearer).get? "super" = none

namespace Settled

variable {machine : Machine}

theorem holds (settled : machine.Settled) {value : Value} (holds : machine.Holds value) :
    value.Settled machine.forest := by
  rcases holds with ⟨frame, name, found⟩ | ⟨id, name, found⟩
  · exact (settled.values frame name value found).1
  · exact settled.fields id name value found

theorem has (settled : machine.Settled) {cls : ClassValue} (has : machine.Has cls) :
    cls.Settled machine.forest := by
  induction has with
  | held held => exact settled.holds held
  | ofObject held => exact settled.holds held
  | superclass _ isSuperclass induction =>
      intro entry ancestors suffix
      rw [isSuperclass] at suffix
      exact induction entry ancestors (suffix.trans (List.suffix_cons _ _))

/-- The methods of a class know its superclass. -/
theorem inherits (settled : machine.Settled) {cls superclass : ClassValue} {method : Closure}
    (inherits : machine.Inherits cls superclass method) :
    method.MethodSettled machine.forest superclass.chain := by
  obtain ⟨name, isOwn⟩ := inherits.isOwn
  rw [inherits.isSuperclass]
  exact settled.has inherits.has cls.own cls.ancestors (List.suffix_refl _) name method isOwn

end Settled

namespace InCall

variable {machine earlier later : Machine} {home frame : FrameId} {object : Value}

theorem present (inCall : machine.InCall home object frame) : frame < machine.forest.size := by
  obtain ⟨inner, bound, outer, chain, -⟩ := inCall
  by_contra outside
  have lengths := congrArg List.length chain
  simp [Forest.chain, Forest.outer_of_size_le (Nat.le_of_not_lt outside)] at lengths
  omega

/-- Whatever happens later, the frame stays in the call. -/
theorem mono (inCall : earlier.InCall home object frame) (settled : earlier.Settled)
    (precedes : earlier.forest.Precedes later.forest) : later.InCall home object frame := by
  have present := inCall.present
  obtain ⟨inner, bound, outer, chain, this, unbound⟩ := inCall
  have inside (other : FrameId) (member : other ∈ inner ++ [bound]) :
      other < earlier.forest.size := by
    apply settled.inside frame present other
    rw [chain, List.append_cons]
    exact List.mem_append_left _ member
  refine ⟨inner, bound, outer, (precedes.chain frame present).trans chain, ?_, ?_⟩
  · rw [precedes.kin bound (inside bound (by simp)) "this" fun isName => isName.1 rfl, this]
  · intro nearer member
    rw [precedes.kin nearer (inside nearer member) "super" fun isName => isName.2 rfl]
    exact unbound nearer member

/-- A frame that is made in one of the call, and does not bind `super`, is in the call. -/
theorem enter {inner : FrameId} (inCall : later.InCall home object frame)
    (chain : later.forest.chain inner = inner :: later.forest.chain frame)
    (unbound : (later.forest.bindings inner).get? "super" = none) :
    later.InCall home object inner := by
  obtain ⟨others, bound, outer, within, this, othersUnbound⟩ := inCall
  exact ⟨inner :: others, bound, outer, by rw [chain, within]; rfl, this,
    List.forall_mem_cons.2 ⟨unbound, othersUnbound⟩⟩

theorem child (inCall : machine.InCall home object frame) (settled : machine.Settled) :
    (machine.child frame).InCall home object machine.forest.size := by
  have leads := settled.child inCall.present
  refine (inCall.mono settled leads.follows).enter ?_ ?_
  · rw [leads.follows.chain frame inCall.present, forest_child, Forest.chain_child_self]
  · rw [forest_child, Forest.bindings_child_self, Table.get?_empty]

theorem entered {closure : Closure} {args : List Value}
    (inCall : machine.InCall home object closure.frame) (settled : machine.Settled)
    (names : ∀ param ∈ closure.decl.params, IsName param.lexeme) :
    (machine.entered closure args).InCall home object machine.forest.size := by
  have grown := settled.child inCall.present
  have follows : (machine.child closure.frame).forest.Precedes
      (machine.entered closure args).forest := .defineParams _ _ names
  exact (inCall.child settled).mono grown.ok follows

/-- Binding a method makes a frame in its home. -/
theorem tied (machine : Machine) (method : Closure) (object : Value) :
    (machine.tied method object).InCall method.frame object (machine.tie method).frame := by
  have bindings : (machine.tied method object).forest.bindings machine.forest.size =
      Table.empty.insert "this" object := Forest.bindings_define_child _ _ _ _
  refine ⟨[], machine.forest.size, machine.forest.outer method.frame, ?_, ?_, ?_⟩
  · exact (Forest.chain_define _ _ _ _ _).trans (Forest.chain_child_self _ _)
  · rw [bindings, Table.get?_insert_self]
  · intro nearer member
    cases List.mem_singleton.1 member
    rw [bindings, Table.get?_insert_of_ne _ _ (by decide), Table.get?_empty]

end InCall

section Super

variable {machine : Machine} {keyword method : Token} {site : Site}
  (carries : machine.forest.Carries machine.current (.expr (.super keyword method site)))

include carries

/-- The site of `super` holds the distance to the nearest frame that binds it, and the next frame on
the way there binds `this`. -/
theorem super_site : ∃ distance, site = some (distance + 1) ∧
    (machine.forest.chain machine.current).findIdx? (fun other =>
      (machine.forest.bindings other).binds "super") = some (distance + 1) ∧
    ∃ bound home, (machine.forest.chain machine.current)[distance]? = some bound ∧
      (machine.forest.bindings bound).binds "this" = true ∧
      (machine.forest.chain machine.current)[distance + 1]? = some home ∧
      (machine.forest.bindings home).binds "super" = true := by
  obtain ⟨around, surrounds, paired, settled⟩ := carries
  have isSuper : keyword.lexeme = "super" := settled.root.ordinary
  have located : site = Construct.distance? around keyword.lexeme :=
    settled.root.located _ _ _ rfl
  obtain ⟨distance, isSite⟩ := Option.isSome_iff_exists.1 (settled.root.known _ _ _ rfl)
  rw [isSuper, isSite] at located
  obtain ⟨⟨construct, there, holds⟩, -⟩ := Construct.distance?_eq_some.1 located.symm
  obtain ⟨nearer, layer, rfl, inner, this⟩ := paired distance construct there holds
  obtain ⟨bound, boundThere, bindsThis⟩ :=
    surrounds.binds (fun isName => isName.1 rfl) inner this
  obtain ⟨home, homeThere, bindsSuper⟩ :=
    surrounds.binds (fun isName => isName.2 rfl) there holds
  exact ⟨nearer, isSite, surrounds.distance.symm.trans located.symm, bound, home, boundThere,
    bindsThis, homeThere, bindsSuper⟩

/-- `super` is evaluated only in calls of methods. -/
theorem super_inCall (settled : machine.Settled) : ∃ home superclass id cls,
    (machine.forest.bindings home).get? "super" = some (.class superclass) ∧
      machine.InCall home (.object id cls) machine.current := by
  obtain ⟨distance, -, nearest, bound, home, boundThere, bindsThis, homeThere, bindsSuper⟩ :=
    super_site carries
  obtain ⟨object, this⟩ := Option.isSome_iff_exists.1 bindsThis
  obtain ⟨parent, super⟩ := Option.isSome_iff_exists.1 bindsSuper
  obtain ⟨id, cls, rfl⟩ := (settled.values _ _ _ this).2.this rfl
  obtain ⟨superclass, rfl⟩ := (settled.values _ _ _ super).2.super rfl
  obtain ⟨homeInside, rfl⟩ := List.getElem?_eq_some_iff.1 homeThere
  obtain ⟨boundInside, rfl⟩ := List.getElem?_eq_some_iff.1 boundThere
  obtain ⟨_, _, unbound⟩ := List.findIdx?_eq_some_iff_getElem.1 nearest
  refine ⟨_, superclass, id, cls, super, (machine.forest.chain machine.current).take distance, _,
    (machine.forest.chain machine.current).drop (distance + 2), ?_, this, ?_⟩
  · rw [← List.drop_eq_getElem_cons homeInside, ← List.drop_eq_getElem_cons boundInside,
      List.take_append_drop]
  · -- What is nearer than the home has been passed by on the way to it.
    intro nearer member
    rw [← List.take_succ_eq_append_getElem boundInside] at member
    obtain ⟨index, isInside, rfl⟩ := List.getElem_of_mem member
    have isNearer : index < distance + 1 :=
      Nat.lt_of_lt_of_le isInside (List.length_take_le _ _)
    rw [List.getElem_take]
    simpa [Table.binds] using unbound index isNearer

/-- In a call of a method a method is looked up by `super` from the class to which its home binds
`super`, and what is found is bound to the object. -/
theorem eval_super {home : FrameId} {superclass : ClassValue} {object : Value} (host : Host)
    (room : Nat)
    (super : (machine.forest.bindings home).get? "super" = some (.class superclass))
    (inCall : machine.InCall home object machine.current) :
    Run.eval host (room + 1) (.super keyword method site) machine =
      match superclass.method? method.lexeme with
      | some found => .ok (.closure (machine.tie found)) (machine.tied found object)
      | none => .error (.error ⟨method, .undefinedProperty method.lexeme⟩) machine := by
  obtain ⟨distance, rfl, nearest, -⟩ := super_site carries
  obtain ⟨inner, bound, outer, chain, this, unbound⟩ := inCall
  -- The home is the nearest frame to bind `super`, and so the one that the site leads to.
  have same : distance = inner.length := by
    have nowhere : (inner ++ [bound]).findIdx? (fun other =>
        (machine.forest.bindings other).binds "super") = none := by
      rw [List.findIdx?_eq_none_iff]
      intro nearer member
      rw [Table.binds, unbound nearer member]
      rfl
    have here : (machine.forest.bindings home).binds "super" = true := by
      rw [Table.binds, super]
      rfl
    rw [chain, List.append_cons, List.findIdx?_append, nowhere, List.findIdx?_cons, here]
      at nearest
    simpa using nearest.symm
  subst same
  have superFound : Run.lookUpAt machine.current (inner.length + 1) "super" machine =
      .ok (.class superclass) machine := by
    have there : (machine.forest.chain machine.current)[inner.length + 1]? = some home := by
      simp [chain]
    rw [Run.lookUpAt, Forest.getAt_eq_ok there super]
  have thisFound : Run.lookUpAt machine.current inner.length "this" machine =
      .ok object machine := by
    have there : (machine.forest.chain machine.current)[inner.length]? = some bound := by
      simp [chain]
    rw [Run.lookUpAt, Forest.getAt_eq_ok there this]
  show Run.superMethod method (some (inner.length + 1)) machine = _
  unfold Run.superMethod
  refine (bind_of_ok rfl).trans ((bind_of_ok superFound).trans ((bind_of_ok thisFound).trans ?_))
  dsimp only
  cases superclass.method? method.lexeme <;> rfl

end Super

end Machine

/-- Nothing is bound on the fresh machine but a primitive function. -/
theorem Machine.Settled.start : Machine.fresh.Settled := by
  have bare : Machine.Settled { Machine.fresh with forest := Forest.root } := by
    refine ⟨⟨by decide, fun word _ => rfl⟩, by decide, ?_, ?_⟩
    · intro frame name value found
      have found : ((Forest.root : Forest Value).bindings frame).get? name = some value := found
      rw [Forest.bindings_root] at found
      cases found
    · intro id name value found
      cases found
  have isName : IsName Primitive.clock.name := by decide
  have clockSettled : (Value.primitive .clock).Settled Forest.root := trivial
  exact (bare.define globalFrame isName clockSettled).ok

/-- What is accepted has a site wherever it has `super`. -/
theorem Accepted.known {host : Host} {text : String} {statements : List (Stmt Site)}
    {trees : List (Stmt Unit)} {state : ScopeState}
    (accepted : Accepted host text statements trees state) :
    (Part.program statements).Everywhere fun part => ∀ keyword method site,
      part = .expr (.super keyword method site) → site.isSome = true := by
  obtain ⟨notes, surveyed, -⟩ := Chronicle.accept_eq (Chronicle.fresh false) accepted
  have endsWell : Surveying.EndsWell ⟨state, notes⟩ ⟨state, notes⟩ :=
    ⟨⟨List.suffix_refl _, List.suffix_refl _, List.suffix_refl _⟩, accepted.harmless⟩
  have laid := (Surveying.program_accepted accepted.grammatical accepted.worded rfl surveyed
    endsWell).2
  have isScoped : (Part.program statements).IsScoped notes := Part.scoped_of_list laid
  intro path inner leads keyword method site isSuper
  have innerScoped := isScoped.everywhere path inner leads
  rw [isSuper] at innerScoped
  exact innerScoped.super_isSome

/-- What is accepted is settled at the top level. -/
theorem Accepted.settled {host : Host} {text : String} {statements : List (Stmt Site)}
    {trees : List (Stmt Unit)} {state : ScopeState}
    (accepted : Accepted host text statements trees state) :
    ∀ s ∈ statements, (Part.stmt s).Settled [] := by
  have treesOrdinary := parseWithin_ordinary accepted.read
  have placed := Scoping.program_placed treesOrdinary accepted.resolved
  have ordinary : (Part.program statements).Ordinary := by
    rw [← Part.ordinary_bare, placed.bare]
    exact .of trivial (by simpa [Part.children] using treesOrdinary)
  have settled : (Part.program statements).Settled [] := fun path inner leads =>
    ⟨placed.located path inner leads, accepted.known path inner leads,
      ordinary path inner leads⟩
  intro s member
  obtain ⟨index, there⟩ := List.getElem?_of_mem member
  exact settled.inside index (by simp [Part.children, there])

theorem kinship_welcomes : kinship.Welcomes where
  fresh := .start
  accepted accepted settled s member :=
    ⟨[], settled.top, .nil, accepted.settled s member⟩

/-- The class that a value is. -/
def Value.class? : Value → Option ClassValue
  | .class cls => some cls
  | _ => none

theorem Value.class?_eq_some {value : Value} {cls : ClassValue} :
    value.class? = some cls ↔ value = .class cls := by
  cases value <;> simp [class?]

/-- The keyword, the name of the method and the site, if a node is one of `super`. -/
def Node.super? : Node Site → Option (Token × Token × Site)
  | .expr (.super keyword method site) => some (keyword, method, site)
  | _ => none

theorem Node.super?_eq_some {node : Node Site} {keyword method : Token} {site : Site} :
    node.super? = some (keyword, method, site) ↔ node = .expr (.super keyword method site) := by
  unfold super?
  split
  · simp
  · rename_i other
    simpa using other keyword method site

/-- The calls of a method as a method of an object begin when it is bound to the object, and last:
the later machine keeps the frames that were in such a call on the earlier one, and what is made in
one of them, for a block or for the call of a function, is in the call. -/
structure Machine.KeepsCalls (earlier later : Machine) (method : Closure) (object : Value) :
    Prop where
  binds : Run.bind method object later = .ok (later.tie method) (later.tied method object)
  begins : (later.tied method object).InCall method.frame object (later.tie method).frame
  lasts : ∀ frame, earlier.InCall method.frame object frame →
    later.InCall method.frame object frame
  child : ∀ frame, later.InCall method.frame object frame →
    (later.child frame).InCall method.frame object later.forest.size
  entered : ∀ closure args, later.InCall method.frame object closure.frame →
    (∀ param ∈ closure.decl.params, IsName param.lexeme) →
      (later.entered closure args).InCall method.frame object later.forest.size

/-- `super` is static, and `this` is dynamic.  In every session, as soon as there is a class with a
superclass, the homes of its own methods bind `super` to that superclass, whatever becomes of the
names of the two.  Each time that `super` is evaluated, this is in the call of a method as a method
of some object; in such a call, the method that is wanted is looked up from the class to which the
home binds `super`.  If one is found it is bound to the object, and else this is an error that
changes nothing. -/
theorem super_is_static (host : Host) (verbose : Bool) (taken : List Session.Step) :
    let chronicle := (Chronicle.fresh verbose).after host taken
    chronicle.session = (Session.fresh verbose).after host taken ∧
      (∀ earlier later, chronicle.Becomes earlier later →
        ∀ cls superclass own, earlier.Inherits cls superclass own →
          (later.forest.bindings own.frame).get? "super" = some (.class superclass) ∧
            ∀ object, earlier.KeepsCalls later own object) ∧
      ∀ moment ∈ chronicle.history.moments, ∀ keyword method site,
        moment.node = .expr (.super keyword method site) →
          (∃ home superclass id cls,
            (moment.machine.forest.bindings home).get? "super" = some (.class superclass) ∧
              moment.machine.InCall home (.object id cls) moment.machine.current) ∧
          ∀ home superclass object,
            (moment.machine.forest.bindings home).get? "super" = some (.class superclass) →
            moment.machine.InCall home object moment.machine.current →
              ∀ room, Run.eval host (room + 1) (.super keyword method site) moment.machine =
                match superclass.method? method.lexeme with
                | some found =>
                    .ok (.closure (moment.machine.tie found)) (moment.machine.tied found object)
                | none =>
                    .error (.error ⟨method, .undefinedProperty method.lexeme⟩) moment.machine := by
  intro chronicle
  have observes : chronicle.Observes kinship :=
    (Chronicle.Observes.fresh kinship_welcomes verbose).after kinship_welcomes host taken
  refine ⟨Chronicle.session_after taken, ?_, ?_⟩
  · intro earlier later becomes cls superclass own inherits
    obtain ⟨earlierSettled, follows, laterSettled⟩ := observes.becomes becomes
    have ownSettled : own.MethodSettled later.forest superclass.chain :=
      (Machine.Settled.inherits earlierSettled inherits).mono follows
    refine ⟨ownSettled.super superclass rfl, fun object => ⟨rfl, ?_, ?_, ?_, ?_⟩⟩
    · exact Machine.InCall.tied later own object
    · exact fun frame inCall => inCall.mono earlierSettled follows
    · exact fun frame inCall => inCall.child laterSettled
    · exact fun closure args inCall names => inCall.entered laterSettled names
  · intro moment member keyword method site isSuper
    obtain ⟨settled, carries⟩ := observes.inOrder.suits moment member
    rw [isSuper] at carries
    refine ⟨Machine.super_inCall carries settled, ?_⟩
    intro home superclass object super inCall room
    exact Machine.eval_super carries host room super inCall

/-- `super` in a function that a method of `B` has declared, which is called when `A` and `B` stand
for nothing any more.  The method was called on an object of a class that has a method of the same
name, as has `B`; but the one of `A` is found. -/
theorem super_is_static_afterwards :
    let host := Host.standard fun _ => 0
    let text :=
      "class A \x7b m() \x7b\x7d \x7d class B < A \x7b m() \x7b\x7d late() \x7b " ++
      "fun inner() \x7b return super.m; \x7d return inner; \x7d \x7d " ++
      "class C < B \x7b m() \x7b\x7d \x7d var f = C().late(); A = B = nil; f();"
    let chronicle := (Chronicle.fresh false).after host [⟨.run text, true⟩]
    ∃ earlier later, chronicle.Becomes earlier later ∧
      ∃ cls superclass own object, earlier.Inherits cls superclass own ∧ cls.name = "B" ∧
        superclass.name = "A" ∧ object.shown = "C instance" ∧
        later.InCall own.frame object later.current ∧
        (∀ name ∈ ["A", "B"],
          ((later.forest.bindings globalFrame).get? name).any (!·.isTruthy) = true) ∧
        ∃ moment ∈ chronicle.history.moments, moment.machine = later ∧
          ∃ keyword method site found, moment.node = .expr (.super keyword method site) ∧
            superclass.own.methods.get? "m" = some found ∧
            ∀ room, Run.eval host (room + 1) (.super keyword method site) later =
              .ok (.closure (later.tie found)) (later.tied found object) := by
  intro host text chronicle
  have facts : (chronicle.machines[8]?.any fun earlier =>
      chronicle.history.moments[0]?.any fun moment =>
        (((earlier.forest.bindings globalFrame).get? "B").bind Value.class?).any fun cls =>
          cls.ancestors.head?.any fun parent => (cls.own.methods.get? "late").any fun late =>
            moment.node.super?.any fun use =>
              ((moment.machine.forest.bindings 3).get? "this").any fun object =>
                (parent.methods.get? "m").isSome && use.2.1.lexeme == "m" &&
                cls.name == "B" && parent.name == "A" && object.shown == "C instance" &&
                moment.machine.forest.chain moment.machine.current ==
                  [5, 4] ++ 3 :: late.frame :: [0] &&
                [5, 4, 3].all (fun frame =>
                  ((moment.machine.forest.bindings frame).get? "super").isNone) &&
                ["A", "B"].all fun name =>
                  ((moment.machine.forest.bindings globalFrame).get? name).any (!·.isTruthy)) =
      true := by
    decide +kernel
  simp only [Option.any_eq_true, Option.bind_eq_some_iff, Bool.and_eq_true, beq_iff_eq,
    List.all_eq_true, Option.isNone_iff_eq_none, Option.isSome_iff_exists] at facts
  obtain ⟨earlier, isEarlier, moment, isMoment, cls, ⟨value, isB, isClass⟩, parent, isParent, late,
    isOwn, ⟨keyword, method, site⟩, isSuper, object, isThis, facts⟩ := facts
  obtain ⟨⟨⟨⟨⟨⟨⟨⟨found, isFound⟩, isM⟩, clsName⟩, parentName⟩, shown⟩, chain⟩, unbound⟩, rebound⟩ :=
    facts
  rw [Value.class?_eq_some.1 isClass] at isB
  rw [Node.super?_eq_some] at isSuper
  obtain ⟨others, ancestors⟩ := List.head?_eq_some_iff.1 isParent
  have becomes : chronicle.Becomes earlier moment.machine :=
    ⟨1, 8, by decide, Chronicle.machines_succ isMoment, isEarlier⟩
  have inherits : earlier.Inherits cls ⟨parent, others⟩ late :=
    ⟨.held (.inl ⟨_, _, isB⟩), ancestors.symm, "late", isOwn⟩
  have inCall : moment.machine.InCall late.frame object moment.machine.current :=
    ⟨[5, 4], 3, [0], chain, isThis, unbound⟩
  have member : moment ∈ chronicle.history.moments := List.mem_of_getElem? isMoment
  obtain ⟨-, static, dynamic⟩ := super_is_static host false [⟨.run text, true⟩]
  have super := (static earlier moment.machine becomes _ _ late inherits).1
  have evaluates :=
    (dynamic moment member keyword method site isSuper).2 _ _ object super inCall
  have isMethod : (⟨parent, others⟩ : ClassValue).method? method.lexeme = some found := by
    rw [isM]
    simp [ClassValue.method?, ClassValue.chain, isFound]
  rw [isMethod] at evaluates
  exact ⟨earlier, moment.machine, becomes, _, _, late, object, inherits, clsName, parentName,
    shown, inCall, fun name named => (Option.any_eq_true _ _).2 (rebound name named), moment, member,
    rfl, keyword, method, site, found, isSuper, isFound, evaluates⟩

end LoxLang
