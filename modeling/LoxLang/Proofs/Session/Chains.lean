import LoxLang.Proofs.Session.Reaching

/-!
# Chains end

Each frame is made in an older one, and each class below an older one.  So from every
frame the links outwards lead to that of the top level, and from every class the links
to superclasses come to an end, and on the way there is nothing twice.  This is so even
if the names of classes are declared again and again in terms of each other, as each
declaration makes a new class.
-/

namespace LoxLang

/-- The links lead from the class to ever older classes, so to none twice.  Each has been made by a
class statement, and has the last method of a name that is declared there. -/
structure ClassValue.Grounded (cls : ClassValue) (running : Running) : Prop where
  links : Links superclass? cls cls.lineage
  older : cls.lineage.Pairwise fun lower upper => upper.own.serial < lower.own.serial
  once : (cls.lineage.map fun other => other.own.serial).Nodup
  declared : ∀ other ∈ cls.lineage, ∃ moment methods, running.MakesClass moment methods other ∧
    ∀ name, (other.own.methods.get? name).map Closure.decl =
      methods.reverse.find? fun decl => decl.name.lexeme = name

/-- The superclass of a class that is declared is the class that its statement names. -/
theorem Machine.superclass?_newClass (machine : Machine) (name : Token)
    (superclass : Option ClassValue) (methods : List (FunctionDecl Site)) :
    (machine.newClass name superclass methods).superclass? = superclass := by
  cases superclass <;> rfl

namespace Watched.MakesClass

variable {running : Running} {moment : Moment} {methods : List (FunctionDecl Site)}
  {cls : ClassValue}

theorem older (makes : running.MakesClass moment methods cls) {above : ClassValue}
    (isSuperclass : cls.superclass? = some above) : above.own.serial < cls.own.serial := by
  obtain ⟨name, parent, superclass, -, -, rfl, isOlder⟩ := makes.made
  rw [Machine.superclass?_newClass] at isSuperclass
  exact Nat.lt_of_lt_of_le (isOlder above isSuperclass) (Nat.le_add_right _ _)

theorem decl_eq (makes : running.MakesClass moment methods cls) (name : String) :
    (cls.own.methods.get? name).map Closure.decl =
      methods.reverse.find? fun decl => decl.name.lexeme = name := by
  obtain ⟨className, parent, superclass, -, -, rfl, -⟩ := makes.made
  exact Machine.decl_of_newClass _ _ _ _ _

end Watched.MakesClass

theorem ClassValue.Derives.grounded {cls : ClassValue} {running : Running}
    (derives : cls.Derives running) : cls.Grounded running := by
  have declared (other : ClassValue) (member : other ∈ cls.lineage) :
      ∃ moment methods, running.MakesClass moment methods other :=
    derives other (suffix_of_mem_line member)
  have older : cls.lineage.Pairwise fun lower upper => upper.own.serial < lower.own.serial := by
    refine cls.links_lineage.older (fun other => other.own.serial) ?_
    intro other member above isSuperclass
    obtain ⟨moment, methods, makes⟩ := declared other member
    exact makes.older isSuperclass
  refine ⟨cls.links_lineage, older, ?_, ?_⟩
  · exact List.pairwise_map.2 (older.imp fun less => Nat.ne_of_gt less)
  · intro other member
    obtain ⟨moment, methods, makes⟩ := declared other member
    exact ⟨moment, methods, makes, makes.decl_eq⟩

/-- All searches along chains come to an end.  Wherever a session comes to, from all frames that
there are, among them those of the machine and of all functions, bound methods and methods of
classes that are known, the links outwards lead without repetition to the frame of the top level,
and looking names up and assigning to them are finite searches along them.  From all classes that
are known the links to superclasses end without repetition, each of these classes has the methods
that its statement declares last, and finding a method is a finite search for the nearest class
that has one of the name. -/
theorem chains_are_finite (host : Host) (verbose : Bool) (taken : List Session.Step) :
    let chronicle := (Chronicle.fresh verbose).after host taken
    chronicle.session = (Session.fresh verbose).after host taken ∧
      ∀ running atHand, chronicle.Reaches host running atHand →
        running.state.current < running.state.forest.size ∧
        (∀ frame < running.state.forest.size,
          running.state.forest.Grounded frame ∧ running.state.forest.Searchable frame) ∧
        (∀ closure, running.state.Knows atHand (.closure closure) →
          closure.frame < running.state.forest.size) ∧
        ∀ cls, running.state.Knows atHand (.class cls) →
          cls.Grounded running ∧ cls.Searchable ∧
            ∀ name method, cls.method? name = some method →
              method.frame < running.state.forest.size := by
  intro chronicle
  refine ⟨Chronicle.session_after taken, fun running atHand reaches => ?_⟩
  obtain ⟨derived, present, good⟩ :=
    reaches.derived (Chronicle.heeds_derivation host verbose taken)
  refine ⟨present, fun frame inside => ?_, fun closure knows => ?_, fun cls knows => ?_⟩
  · have grounded := derived.frames.grounded inside
    exact ⟨grounded, grounded.searchable⟩
  · have settled : closure.Settled running.state.forest := (knows.good derived good).1
    exact settled.present
  · have derives : cls.Derives running := (knows.good derived good).2
    refine ⟨derives.grounded, cls.searchable, fun name method found => ?_⟩
    obtain ⟨entry, ancestors, suffix, inEntry⟩ := ClassValue.suffix_of_method? found
    obtain ⟨moment, methods, makes⟩ := derives ⟨entry, ancestors⟩ suffix
    exact (makes.unbound name method inEntry).present

/-- Two classes are declared anew, each to inherit from what the other name stands for.  The lineage
of the last one has four classes, and of the two methods `k` in its body it has the second. -/
theorem chains_are_finite_redeclared :
    let host := Host.standard fun _ => 0
    let chronicle := (Chronicle.fresh false).after host
      [⟨.run "class A \x7b m() \x7b\x7d \x7d class B < A \x7b\x7d", true⟩,
        ⟨.run "class A < B \x7b\x7d class B < A \x7b k() \x7b\x7d k(x) \x7b\x7d \x7d", true⟩]
    ∃ cls, chronicle.session.machine.Knows [] (.class cls) ∧
      cls.lineage.map ClassValue.name = ["B", "A", "B", "A"] ∧
      (cls.lineage.map fun other => other.own.serial).Nodup ∧
      (cls.method? "k").map Closure.arity = some 1 ∧ (cls.method? "m").isSome = true ∧
      Finds ClassValue.superclass? (fun other => other.own.methods.get? "m") cls 4
        (cls.method? "m") := by
  intro host chronicle
  have facts : (((chronicle.session.machine.forest.bindings globalFrame).get? "B").bind
      Value.class?).any (fun cls =>
        cls.lineage.map ClassValue.name == ["B", "A", "B", "A"] &&
          (cls.method? "k").map Closure.arity == some 1 && (cls.method? "m").isSome) = true := by
    decide +kernel
  simp only [Option.any_eq_true, Option.bind_eq_some_iff, Bool.and_eq_true, beq_iff_eq] at facts
  obtain ⟨cls, ⟨value, bound, isClass⟩, ⟨names, arity⟩, inherited⟩ := facts
  rw [Value.class?_eq_some.1 isClass] at bound
  have knows : chronicle.session.machine.Knows [] (.class cls) := .held (.inl ⟨_, _, bound⟩)
  obtain ⟨-, finite⟩ := chains_are_finite host false
    [⟨.run "class A \x7b m() \x7b\x7d \x7d class B < A \x7b\x7d", true⟩,
      ⟨.run "class A < B \x7b\x7d class B < A \x7b k() \x7b\x7d k(x) \x7b\x7d \x7d", true⟩]
  obtain ⟨grounded, searchable, -⟩ := (finite _ _ .between).2.2.2 cls knows
  have length : cls.lineage.length = 4 := by
    simpa using congrArg List.length names
  exact ⟨cls, knows, names, grounded.once, arity, inherited, length ▸ searchable.finds "m"⟩

end LoxLang
