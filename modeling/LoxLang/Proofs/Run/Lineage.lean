import LoxLang.Proofs.Run.Kinship

/-!
# Runs keep classes and their superclasses

Each step of a run leaves settled what was settled, and settles what it makes: the
bodies of functions in the frames that are made for them, functions in the frame where
they are declared, and methods in the frame that is made for them if there is a
superclass.
-/

namespace LoxLang

namespace Machine.Settled

variable {machine later : Machine}

/-- Only what is new has to be looked at. -/
theorem step (settled : machine.Settled) (precedes : machine.forest.Precedes later.forest)
    (inside : ∀ frame < later.forest.size, frame < machine.forest.size ∨
      ∀ other ∈ later.forest.chain frame, other < later.forest.size)
    (values : ∀ frame name value, (later.forest.bindings frame).get? name = some value →
      (machine.forest.bindings frame).get? name = some value ∨
        (value.Settled later.forest ∧ value.Serves name))
    (fields : ∀ id name value, (later.fields id).get? name = some value →
      (machine.fields id).get? name = some value ∨ value.Settled later.forest) :
    kin.Leads machine later := by
  refine ⟨precedes, settled.top.mono precedes, ?_, ?_, ?_⟩
  · intro frame present
    rcases inside frame present with older | known
    · intro other member
      rw [precedes.chain frame older] at member
      exact Nat.lt_of_lt_of_le (settled.inside frame older other member) precedes.size
    · exact known
  · intro frame name value found
    rcases values frame name value found with before | isSettled
    · obtain ⟨isSettled, serves⟩ := settled.values frame name value before
      exact ⟨isSettled.mono precedes, serves⟩
    · exact isSettled
  · intro id name value found
    rcases fields id name value found with before | isSettled
    · exact (settled.fields id name value before).mono precedes
    · exact isSettled

theorem rest (settled : machine.Settled) (sameForest : later.forest = machine.forest)
    (sameObjects : later.objects = machine.objects) : kin.Leads machine later := by
  have precedes : machine.forest.Precedes later.forest := sameForest ▸ .refl _
  refine settled.step precedes ?_ ?_ ?_
  · exact fun frame present => .inl (sameForest ▸ present)
  · exact fun frame name value found => .inl (sameForest ▸ found)
  · exact fun id name value found => .inl (Machine.fields_eq sameObjects id ▸ found)

/-- A name that is a name may be bound to a settled value. -/
theorem define (settled : machine.Settled) (frame : FrameId) {name : String} {value : Value}
    (isName : IsName name) (good : value.Settled machine.forest) :
    kin.Leads machine (machine.define frame name value) := by
  have precedes := Forest.Precedes.define machine.forest frame value isName
  refine settled.step precedes ?_ ?_ ?_
  · intro other present
    have sameSize := Forest.size_define machine.forest frame name value
    exact .inl (sameSize ▸ present)
  · intro other key found there
    rcases Forest.get?_define there with before | ⟨-, rfl, rfl⟩
    · exact .inl before
    · exact .inr ⟨good.mono precedes, .of_isName isName _⟩
  · exact fun id key found there => .inl there

theorem child (settled : machine.Settled) {parent : FrameId}
    (present : parent < machine.forest.size) : kin.Leads machine (machine.child parent) := by
  have precedes := Forest.Precedes.child machine.forest parent
  refine settled.step precedes ?_ ?_ fun id key found there => .inl there
  · intro frame isPresent
    rcases Nat.lt_succ_iff_lt_or_eq.1 (Forest.size_child _ parent ▸ isPresent) with older | rfl
    · exact .inl older
    · refine .inr ?_
      rw [Machine.forest_child, Forest.chain_child_self]
      refine List.forall_mem_cons.2 ⟨isPresent, ?_⟩
      exact fun other member =>
        Nat.lt_of_lt_of_le (settled.inside parent present other member) precedes.size
  · exact fun frame key found there => .inl (Machine.get?_child there)

/-- Whatever is bound first in a new frame. -/
theorem fresh (settled : machine.Settled) {parent : FrameId}
    (present : parent < machine.forest.size) (name : String) {value : Value}
    (good : value.Settled machine.forest) (serves : value.Serves name) :
    kin.Leads machine ((machine.child parent).define machine.forest.size name value) := by
  have precedes := Forest.Precedes.fresh machine.forest parent name value
  have grown := settled.child present
  refine settled.step precedes ?_ ?_ fun id key found there => .inl there
  · intro frame isPresent
    rw [Machine.forest_define, Forest.size_define] at isPresent ⊢
    rw [Forest.chain_define]
    exact .inr (grown.ok.inside frame isPresent)
  · intro frame key found there
    rcases Forest.get?_define there with before | ⟨-, rfl, rfl⟩
    · exact .inl (Machine.get?_child before)
    · exact .inr ⟨good.mono precedes, serves⟩

theorem defineParams (settled : machine.Settled) (frame : FrameId) {params : List Token}
    {args : List Value} (names : ∀ param ∈ params, IsName param.lexeme)
    (good : ∀ arg ∈ args, arg.Settled machine.forest) :
    kin.Leads machine
      { machine with forest := machine.forest.defineParams frame params args } := by
  induction params generalizing machine args with
  | nil => exact settled.rest rfl rfl
  | cons param params induction =>
      cases args with
      | nil => exact settled.rest rfl rfl
      | cons arg args =>
          obtain ⟨isName, otherNames⟩ := List.forall_mem_cons.1 names
          obtain ⟨argGood, othersGood⟩ := List.forall_mem_cons.1 good
          have defined := settled.define frame isName argGood
          have others := induction defined.ok otherNames
            fun other member => (othersGood other member).mono defined.follows
          exact ⟨defined.follows.trans others.follows, others.ok⟩

theorem block (settled : machine.Settled) {body : List (Stmt Site)}
    (carries : machine.forest.Carries machine.current (.stmt (.block body))) :
    kin.Leads machine (machine.child machine.current) ∧ ∀ s ∈ body,
      (machine.child machine.current).forest.Carries machine.forest.size (.stmt s) := by
  obtain ⟨around, surrounds, paired, isSettled⟩ := carries
  have leads := settled.child surrounds.present
  refine ⟨leads, surrounds.body paired leads.follows (by simp) (by simp [Forest.chain_child_self])
    (fun _ _ => by simp [Forest.bindings_child_self]) [] nofun ?_⟩
  intro index s there
  exact isSettled.inside index (by simp [Part.children, there])

theorem call (settled : machine.Settled) {closure : Closure} {args : List Value}
    (closureSettled : closure.Settled machine.forest)
    (argsSettled : ∀ arg ∈ args, arg.Settled machine.forest) :
    kin.Leads machine (machine.entered closure args) ∧ ∀ s ∈ closure.decl.body,
      (machine.entered closure args).forest.Carries machine.forest.size (.stmt s) := by
  obtain ⟨around, surrounds, paired, isSettled⟩ := closureSettled
  have names := isSettled.root.ordinary.2
  have grown := settled.child surrounds.present
  have filled : kin.Leads (machine.child closure.frame) (machine.entered closure args) :=
    grown.ok.defineParams machine.forest.size names
      fun arg member => (argsSettled arg member).mono grown.follows
  have isNew : machine.forest.size < (machine.child closure.frame).forest.size := by simp
  have follows := grown.follows.trans filled.follows
  refine ⟨⟨follows, filled.ok⟩, surrounds.body paired follows
    (Nat.lt_of_lt_of_le isNew filled.follows.size) ?_ ?_ closure.decl.params names ?_⟩
  · rw [filled.follows.chain _ isNew, Machine.forest_child, Forest.chain_child_self]
  · intro word noName
    rw [filled.follows.kin _ isNew word noName, Machine.forest_child, Forest.bindings_child_self,
      Table.get?_empty]
  · intro index s there
    exact isSettled.inside index (by simp [Part.children, there])

theorem function (settled : machine.Settled) {decl : FunctionDecl Site}
    (carries : machine.forest.Carries machine.current (.stmt (.function decl))) :
    kin.Leads machine (machine.withFunction decl) := by
  obtain ⟨around, surrounds, paired, isSettled⟩ := carries
  have counted : kin.Leads machine { machine with serial := machine.serial + 1 } :=
    settled.rest rfl rfl
  have good : (Value.closure ⟨machine.serial, decl, machine.current, false⟩).Settled
      machine.forest := ⟨around, surrounds, paired, isSettled.ofFunction⟩
  have defined := counted.ok.define machine.current isSettled.root.ordinary.1 good
  exact ⟨counted.follows.trans defined.follows, defined.ok⟩

theorem tie (settled : machine.Settled) {cls : ClassValue} {name : String} {method : Closure}
    {object : Value} (classSettled : cls.Settled machine.forest)
    (found : cls.method? name = some method) (objectSettled : object.Settled machine.forest)
    (receiver : machine.IsReceiver object) :
    kin.Leads machine (machine.tied method object) ∧
      (machine.tie method).Settled (machine.tied method object).forest := by
  obtain ⟨entry, ancestors, suffix, inEntry⟩ := ClassValue.suffix_of_method? found
  obtain ⟨around, surrounds, paired, isSettled⟩ :=
    (classSettled entry ancestors suffix name method inEntry).carried
  have serves : object.Serves "this" := by
    refine ⟨fun _ => ?_, fun isSuper => absurd isSuper (by decide)⟩
    rcases receiver with isObject | ⟨frame, bound⟩
    · exact isObject
    · exact (settled.values frame "this" object bound).2.this rfl
  have made := settled.fresh surrounds.present "this" objectSettled serves
  have counted : kin.Leads _ (machine.tied method object) := made.ok.rest rfl rfl
  exact ⟨⟨made.follows.trans counted.follows, counted.ok⟩, _, surrounds.fresh "this" object, paired,
    isSettled⟩

/-- The frame around the methods of a class carries them inside a layer for `this`, and binds
`super` to the superclass if there is one. -/
theorem aroundMethods (settled : machine.Settled) {name : Token} {parent : Option (Superclass Site)}
    {methods : List (FunctionDecl Site)} {superclass : Option ClassValue}
    (carries : machine.forest.Carries machine.current (.stmt (.class name parent methods)))
    (sameKind : superclass.isSome = parent.isSome)
    (good : ∀ cls ∈ superclass, cls.Settled machine.forest) :
    kin.Leads machine (machine.aroundMethods superclass) ∧
      (∃ around,
        (machine.aroundMethods superclass).forest.Surrounds (machine.methodFrame superclass)
          around ∧
        Construct.Paired (["this"] :: around) ∧
        ∀ decl ∈ methods, (Part.method decl).Settled (["this"] :: around)) ∧
      ∀ cls ∈ superclass, ((machine.aroundMethods superclass).forest.bindings
        (machine.methodFrame superclass)).get? "super" = some (.class cls) := by
  obtain ⟨around, surrounds, paired, isSettled⟩ := carries
  cases superclass with
  | none =>
      cases parent with
      | some parent => cases sameKind
      | none =>
          refine ⟨settled.rest rfl rfl, ⟨around, surrounds, paired.cons (by decide), ?_⟩, nofun⟩
          intro decl member
          obtain ⟨index, there⟩ := List.getElem?_of_mem member
          exact isSettled.inside index (by simp [Part.children, there])
  | some cls =>
      cases parent with
      | none => cases sameKind
      | some parent =>
          have classGood : (Value.class cls).Settled machine.forest := good cls rfl
          have serves : (Value.class cls).Serves "super" :=
            ⟨fun isThis => absurd isThis (by decide), fun _ => ⟨cls, rfl⟩⟩
          have made := settled.fresh surrounds.present "super" classGood serves
          refine ⟨made, ⟨_, surrounds.fresh "super" (.class cls), paired.derived, ?_⟩, ?_⟩
          · intro decl member
            obtain ⟨index, there⟩ := List.getElem?_of_mem member
            exact isSettled.inside (index + 1) (by simp [Part.children, there])
          · rintro found ⟨⟩
            have bindings : (machine.aroundMethods (some cls)).forest.bindings
                machine.forest.size = Table.empty.insert "super" (.class cls) :=
              Forest.bindings_define_child _ _ _ _
            rw [Machine.methodFrame, bindings, Table.get?_insert_self]

/-- A class that is declared is settled where the frame around its methods is as it should be. -/
theorem newClass {forest : Forest Value} {name : Token} {superclass : Option ClassValue}
    {methods : List (FunctionDecl Site)} {around : List Construct}
    (surrounds : forest.Surrounds (machine.methodFrame superclass) around)
    (paired : Construct.Paired (["this"] :: around))
    (isSettled : ∀ decl ∈ methods, (Part.method decl).Settled (["this"] :: around))
    (binds : ∀ cls ∈ superclass,
      (forest.bindings (machine.methodFrame superclass)).get? "super" = some (.class cls))
    (good : ∀ cls ∈ superclass, cls.Settled forest) :
    (machine.newClass name superclass methods).Settled forest := by
  intro entry ancestors suffix methodName method found
  rcases List.suffix_cons_iff.1 suffix with isOwn | inherited
  · obtain ⟨rfl, rfl⟩ := List.cons.inj isOwn
    rcases Machine.of_methodsFrom found with impossible | ⟨sameFrame, member⟩
    · cases impossible
    · refine ⟨⟨around, sameFrame ▸ surrounds, paired, isSettled _ member⟩, ?_⟩
      intro parent isParent
      cases superclass with
      | none => cases isParent
      | some cls =>
          have same : parent = cls := ClassValue.eq_of_chain_eq isParent
          rw [sameFrame, same]
          exact binds cls rfl
  · -- The superclass and its own superclasses have been settled before.
    cases superclass with
    | none => simp [Machine.newClass] at inherited
    | some cls => exact good cls rfl entry ancestors inherited methodName method found

theorem withClass (settled : machine.Settled) {name : Token} {parent : Option (Superclass Site)}
    {methods : List (FunctionDecl Site)} {superclass : Option ClassValue}
    (carries : machine.forest.Carries machine.current (.stmt (.class name parent methods)))
    (sameKind : superclass.isSome = parent.isSome)
    (good : ∀ cls ∈ superclass, cls.Settled machine.forest) :
    kin.Leads machine (machine.withClass name superclass methods) := by
  have isName : IsName name.lexeme := by
    obtain ⟨_, _, _, isSettled⟩ := carries
    exact isSettled.root.ordinary
  have nilSettled : Value.nil.Settled machine.forest := trivial
  have named := settled.define machine.current isName nilSettled
  obtain ⟨around, ⟨layers, surrounds, paired, methodsSettled⟩, binds⟩ := named.ok.aroundMethods
    (carries.mono named.follows) sameKind fun cls member => (good cls member).mono named.follows
  have counted : kin.Leads ((machine.define machine.current name.lexeme .nil).aroundMethods
      superclass) { (machine.define machine.current name.lexeme .nil).aroundMethods superclass with
        serial := machine.serial + methods.length + 1 } := around.ok.rest rfl rfl
  rw [Machine.methodFrame_define] at surrounds binds
  have classSettled : (Value.class (machine.newClass name superclass methods)).Settled _ :=
    newClass surrounds paired methodsSettled binds fun cls member =>
      (good cls member).mono (named.follows.trans around.follows)
  have defined := counted.ok.define machine.current isName classSettled
  exact ⟨named.follows.trans (around.follows.trans (counted.follows.trans defined.follows)),
    defined.ok⟩

theorem create (settled : machine.Settled) {cls : ClassValue}
    (classSettled : cls.Settled machine.forest) :
    kin.Leads machine machine.created ∧
      (Value.object machine.objects.size cls).Settled machine.created.forest := by
  refine ⟨settled.step (.refl _) (fun _ present => .inl present)
    (fun _ _ _ there => .inl there) ?_, classSettled⟩
  intro id name value found
  rw [Machine.fields_created] at found
  exact .inl found

theorem set (settled : machine.Settled) {id : Nat} {name : String} {value : Value}
    (good : value.Settled machine.forest) :
    kin.Leads machine (machine.withField id name value) := by
  refine settled.step (.refl _) (fun _ present => .inl present)
    (fun _ _ _ there => .inl there) ?_
  intro other key found there
  rcases Machine.get?_withField there with before | rfl
  · exact .inl before
  · exact .inr good

end Machine.Settled

/-- Runs keep `super` and `this` as the text and the classes have them. -/
def kinship : Discipline where
  toJudgement := kin
  refl machine := .refl machine.forest
  trans one other := Forest.Precedes.trans one other
  good_later follows good := Value.Settled.mono follows good
  fits_later follows fits := Forest.Carries.mono follows fits
  rest settled sameForest sameObjects _ := settled.rest sameForest sameObjects
  plain := by
    intro value machine isPlain
    cases value <;> trivial
  bound settled found := (settled.values _ _ _ found).1
  field settled found := settled.fields _ _ _ found
  inside := by
    rintro machine frame part index child ⟨around, surrounds, paired, settled⟩ there noOpen
    have childSettled := settled.inside index there
    rw [noOpen, List.nil_append] at childSettled
    exact ⟨around, surrounds, paired, childSettled⟩
  superclass := by
    rintro machine frame parent ⟨around, surrounds, paired, settled⟩
    have root : Part.IsSettled around (.expr (.variable parent.name parent.site)) := by
      refine ⟨settled.root.located, ?_, settled.root.ordinary⟩
      intro keyword method site isSuper
      cases isSuper
    exact ⟨around, surrounds, paired, Part.throughout_iff.2 ⟨root, nofun⟩⟩
  block settled fits := settled.block fits
  call settled good argsGood _ := settled.call good argsGood
  declareVar := by
    rintro machine name initializer value settled ⟨around, -, -, varSettled⟩ good
    exact settled.define machine.current varSettled.root.ordinary good
  assign := by
    rintro machine name site source value frame settled ⟨around, -, -, assignSettled⟩ good -
    exact settled.define frame assignSettled.root.ordinary good
  declareFunction settled fits := settled.function fits
  declareClass settled fits sameKind good := settled.withClass fits sameKind good
  classOf good := good
  tie settled classGood found objectGood receiver :=
    settled.tie classGood found objectGood receiver
  create settled good := settled.create good
  set settled _ good := settled.set good

end LoxLang
