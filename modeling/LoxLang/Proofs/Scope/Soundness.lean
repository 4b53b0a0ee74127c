import LoxLang.Proofs.Scope.Layout

/-!
# Sound contexts

What is true of the scopes around every place that the pass comes to: all names
in them are usable, but for the one whose initializer is being visited; the
survey knows of all names; a scope for `super` has the scope of `this` directly
inside it; and in a class there are the scopes that `this` and `super` need.
-/

namespace LoxLang

namespace Context

variable {context : Context} {survey : Survey} {pending : Option String}

theorem bring_within (number : Nat) (scope : Scope) (name : String) :
    (context.within number scope).bring name =
      context.within number ((scope.insert name false).insert name true) := rfl

/-- A change of the innermost scope leaves the scopes further out. -/
theorem getElem?_scopes_innermost (update : Scope → Scope) (distance : Nat) :
    (context.innermost update).scopes[distance]? =
      if distance = 0 then context.scopes[0]?.map update else context.scopes[distance]? := by
  unfold innermost
  cases context.scopes with
  | nil => simp
  | cons scope outer => cases distance <;> simp

theorem innermost_insert_get? {name other : String} {usable found : Bool} {distance : Nat}
    {scope : Scope}
    (there : (context.innermost (·.insert name usable)).scopes[distance]? = some scope)
    (bound : scope.get? other = some found) :
    (distance = 0 ∧ other = name ∧ found = usable) ∨
      ∃ before, context.scopes[distance]? = some before ∧ before.get? other = some found ∧
        (distance = 0 → other ≠ name) := by
  rw [getElem?_scopes_innermost] at there
  split at there
  · rename_i first
    subst first
    obtain ⟨before, here, inserted⟩ := Option.map_eq_some_iff.1 there
    subst inserted
    rw [Table.get?_insert] at bound
    split at bound
    · rename_i same
      exact .inl ⟨rfl, same.symm, (Option.some.inj bound).symm⟩
    · rename_i distinct
      exact .inr ⟨before, here, bound, fun _ => Ne.symm distinct⟩
  · rename_i further
    exact .inr ⟨scope, there, bound, fun first => absurd first further⟩

/-- What the innermost scope has stays when another name is bound there. -/
theorem Holds.innermost_insert {name other : String} {usable : Bool} {distance : Nat}
    (holds : context.Holds distance other) (kept : usable = true ∨ other ≠ name) :
    (context.innermost (·.insert name usable)).Holds distance other := by
  obtain ⟨scope, there, bound⟩ := holds
  cases distance with
  | zero =>
      refine ⟨scope.insert name usable, ?_, ?_⟩
      · rw [getElem?_scopes_innermost]
        simp [there]
      · rw [Table.get?_insert]
        rcases kept with isUsable | distinct
        · subst isUsable
          simp [bound]
        · simp [bound, Ne.symm distinct]
  | succ outer =>
      refine ⟨scope, ?_, bound⟩
      rw [getElem?_scopes_innermost]
      simp [there]

theorem Holds.within {distance : Nat} {name : String} (number : Nat) (scope : Scope)
    (holds : context.Holds distance name) :
    (context.within number scope).Holds (distance + 1) name := holds

/-- What is usable after a name is declared was usable before. -/
theorem Holds.of_declare {distance : Nat} {name other : String}
    (holds : (context.declare name).Holds distance other) :
    context.Holds distance other ∧ (distance = 0 → other ≠ name) := by
  obtain ⟨scope, there, bound⟩ := holds
  rcases innermost_insert_get? there bound with ⟨_, _, contradictory⟩ | ⟨before, here, found, kept⟩
  · cases contradictory
  · exact ⟨⟨before, here, found⟩, kept⟩

/-- What is usable after a name is made usable was so before, unless it is that name. -/
theorem Holds.of_bring {distance : Nat} {name other : String}
    (holds : (context.bring name).Holds distance other) :
    (distance = 0 ∧ other = name) ∨ context.Holds distance other := by
  obtain ⟨scope, there, bound⟩ := holds
  rcases innermost_insert_get? there bound with ⟨first, same, _⟩ | ⟨before, here, found, _⟩
  · exact .inl ⟨first, same⟩
  · exact .inr (Holds.of_declare ⟨before, here, found⟩).1

/-- What is known of the scopes around a place, where one name may be pending. -/
structure Sound (survey : Survey) (pending : Option String) (context : Context) : Prop where
  lengths : context.numbers.length = context.scopes.length
  defined : ∀ (distance : Nat) (scope : Scope) (name : String),
    context.scopes[distance]? = some scope →
    scope.get? name = some false → distance = 0 ∧ pending = some name
  recorded : ∀ (distance : Nat) (scope : Scope) (number : Nat) (name : String),
    context.scopes[distance]? = some scope → context.numbers[distance]? = some number →
      scope.binds name → (number, name) ∈ survey.put
  aroundThis : ∀ (distance : Nat) (scope : Scope), context.scopes[distance]? = some scope →
    scope.binds "super" → ∃ inner, distance = inner + 1 ∧ context.Holds inner "this"
  ofClass : context.classKind ≠ .none → ∃ distance, context.Holds distance "this"
  ofDerived : context.classKind = .derived → ∃ distance, context.Holds distance "super"
  ordinary : ∀ name ∈ pending, name ≠ "this" ∧ name ≠ "super"

namespace Sound

theorem top : Sound survey none ⟨[], [], .none, .none⟩ where
  lengths := rfl
  defined := by simp
  recorded := by simp
  aroundThis := by simp
  ofClass := by simp
  ofDerived := by simp
  ordinary := by simp

/-- A scope that binds a name that is not pending has it usable. -/
theorem holds_of_binds (sound : Sound survey pending context) {distance : Nat} {scope : Scope}
    {name : String} (there : context.scopes[distance]? = some scope) (bound : scope.binds name)
    (usable : pending ≠ some name) : context.Holds distance name := by
  obtain ⟨flag, found⟩ := Option.isSome_iff_exists.1 bound
  cases flag with
  | true => exact ⟨scope, there, found⟩
  | false => exact absurd (sound.defined _ _ _ there found).2 usable

/-- A scope that binds a name has it usable, or else it is the innermost one. -/
theorem usable_or_awaits (sound : Sound survey pending context) {distance : Nat} {scope : Scope}
    {name : String} (there : context.scopes[distance]? = some scope) (bound : scope.binds name) :
    context.Holds distance name ∨ distance = 0 ∧ context.Awaits name := by
  obtain ⟨flag, found⟩ := Option.isSome_iff_exists.1 bound
  cases flag with
  | true => exact .inl ⟨scope, there, found⟩
  | false =>
      obtain ⟨innermost, _⟩ := sound.defined _ _ _ there found
      exact .inr ⟨innermost, scope, innermost ▸ there, found⟩

theorem inFunction (sound : Sound survey pending context) (kind : FunctionKind) :
    Sound survey pending (context.inFunction kind) :=
  ⟨sound.lengths, sound.defined, sound.recorded, sound.aroundThis, sound.ofClass,
    sound.ofDerived, sound.ordinary⟩

/-- A new name is declared, and pending for now. -/
theorem declare (sound : Sound survey none context) {name : String}
    (admitted : context.Admits survey name) (notThis : name ≠ "this")
    (notSuper : name ≠ "super") : Sound survey (some name) (context.declare name) where
  lengths := by
    simpa [Context.declare, innermost] using sound.lengths
  defined := by
    intro distance scope other there pendingThere
    rcases innermost_insert_get? there pendingThere with ⟨first, same, _⟩ | ⟨before, here, found, _⟩
    · exact ⟨first, by rw [same]⟩
    · have impossible := (sound.defined _ _ _ here found).2
      cases impossible
  recorded := by
    intro distance scope number other there numbered bound
    obtain ⟨flag, found⟩ := Option.isSome_iff_exists.1 bound
    rcases innermost_insert_get? there found with ⟨first, same, _⟩ | ⟨before, here, known, _⟩
    · subst first same
      exact admitted number (List.head?_eq_getElem? ▸ numbered)
    · have boundBefore : before.binds other := by simp [Table.binds, known]
      exact sound.recorded _ _ _ _ here numbered boundBefore
  aroundThis := by
    intro distance scope there bound
    obtain ⟨flag, found⟩ := Option.isSome_iff_exists.1 bound
    rcases innermost_insert_get? there found with ⟨_, same, _⟩ | ⟨before, here, known, _⟩
    · exact absurd same (Ne.symm notSuper)
    · have boundBefore : before.binds "super" := by simp [Table.binds, known]
      obtain ⟨inner, next, holds⟩ := sound.aroundThis _ _ here boundBefore
      exact ⟨inner, next, holds.innermost_insert (.inr (Ne.symm notThis))⟩
  ofClass := by
    intro inClass
    obtain ⟨distance, holds⟩ := sound.ofClass inClass
    exact ⟨distance, holds.innermost_insert (.inr (Ne.symm notThis))⟩
  ofDerived := by
    intro derived
    obtain ⟨distance, holds⟩ := sound.ofDerived derived
    exact ⟨distance, holds.innermost_insert (.inr (Ne.symm notSuper))⟩
  ordinary := by
    intro other same
    cases same
    exact ⟨notThis, notSuper⟩

/-- The pending name is made usable. -/
theorem define {name : String} (sound : Sound survey (some name) context)
    (admitted : context.Admits survey name) : Sound survey none (context.define name) where
  lengths := by
    simpa [Context.define, innermost] using sound.lengths
  defined := by
    intro distance scope other there pendingThere
    rcases innermost_insert_get? there pendingThere with
      ⟨_, _, contradictory⟩ | ⟨before, here, found, kept⟩
    · cases contradictory
    · obtain ⟨first, same⟩ := sound.defined _ _ _ here found
      exact absurd (Option.some.inj same).symm (kept first)
  recorded := by
    intro distance scope number other there numbered bound
    obtain ⟨flag, found⟩ := Option.isSome_iff_exists.1 bound
    rcases innermost_insert_get? there found with ⟨first, same, _⟩ | ⟨before, here, known, _⟩
    · subst first same
      exact admitted number (List.head?_eq_getElem? ▸ numbered)
    · have boundBefore : before.binds other := by simp [Table.binds, known]
      exact sound.recorded _ _ _ _ here numbered boundBefore
  aroundThis := by
    intro distance scope there bound
    obtain ⟨flag, found⟩ := Option.isSome_iff_exists.1 bound
    rcases innermost_insert_get? there found with ⟨_, same, _⟩ | ⟨before, here, known, _⟩
    · exact absurd same (Ne.symm (sound.ordinary name rfl).2)
    · have boundBefore : before.binds "super" := by simp [Table.binds, known]
      obtain ⟨inner, next, holds⟩ := sound.aroundThis _ _ here boundBefore
      exact ⟨inner, next, holds.innermost_insert (.inl rfl)⟩
  ofClass := by
    intro inClass
    obtain ⟨distance, holds⟩ := sound.ofClass inClass
    exact ⟨distance, holds.innermost_insert (.inl rfl)⟩
  ofDerived := by
    intro derived
    obtain ⟨distance, holds⟩ := sound.ofDerived derived
    exact ⟨distance, holds.innermost_insert (.inl rfl)⟩
  ordinary := by simp

theorem bring (sound : Sound survey none context) {name : String}
    (admitted : context.Admits survey name) (notThis : name ≠ "this")
    (notSuper : name ≠ "super") : Sound survey none (context.bring name) :=
  (sound.declare admitted notThis notSuper).define admitted

/-- A scope is opened whose names are usable and known to the survey. -/
theorem within (sound : Sound survey none context) {number : Nat} {scope : Scope}
    (usable : ∀ name, scope.get? name ≠ some false)
    (known : ∀ name, scope.binds name → (number, name) ∈ survey.put)
    (notSuper : scope.binds "super" = false) :
    Sound survey none (context.within number scope) where
  lengths := congrArg (· + 1) sound.lengths
  defined := by
    intro distance inner name there pendingThere
    cases distance with
    | zero =>
        cases there
        exact absurd pendingThere (usable name)
    | succ outer =>
        have impossible := (sound.defined outer inner name there pendingThere).2
        cases impossible
  recorded := by
    intro distance inner found name there numbered bound
    cases distance with
    | zero =>
        cases there
        cases numbered
        exact known name bound
    | succ outer => exact sound.recorded outer inner found name there numbered bound
  aroundThis := by
    intro distance inner there bound
    cases distance with
    | zero =>
        cases there
        rw [notSuper] at bound
        cases bound
    | succ outer =>
        obtain ⟨further, next, holds⟩ := sound.aroundThis outer inner there bound
        subst next
        exact ⟨further + 1, rfl, holds.within number scope⟩
  ofClass := by
    intro inClass
    obtain ⟨distance, holds⟩ := sound.ofClass inClass
    exact ⟨distance + 1, holds.within number scope⟩
  ofDerived := by
    intro derived
    obtain ⟨distance, holds⟩ := sound.ofDerived derived
    exact ⟨distance + 1, holds.within number scope⟩
  ordinary := by simp

end Sound

theorem get?_only (name other : String) :
    (Scope.only name).get? other = if name = other then some true else none :=
  Table.get?_insert _ _ _ _

theorem get?_only_ne_false (name other : String) : (Scope.only name).get? other ≠ some false := by
  rw [get?_only]
  split <;> simp

theorem binds_only (name other : String) : (Scope.only name).binds other ↔ name = other := by
  simp [Table.binds, get?_only]

theorem Sound.plainMethods (sound : Sound survey none context) {number : Nat}
    (known : (number, "this") ∈ survey.put) :
    Sound survey none ((context.inClass .plain).within number (Scope.only "this")) := by
  have around : Sound survey none (context.within number (Scope.only "this")) := by
    apply sound.within
    · exact get?_only_ne_false "this"
    · intro name bound
      exact (binds_only _ _).1 bound ▸ known
    · simp [Table.binds, get?_only]
  refine ⟨around.lengths, around.defined, around.recorded, around.aroundThis, ?_, ?_, ?_⟩
  · intro _
    exact ⟨0, Scope.only "this", rfl, rfl⟩
  · intro derived
    cases derived
  · simp

theorem Sound.derivedMethods (sound : Sound survey none context) {outer number : Nat}
    (knownSuper : (outer, "super") ∈ survey.put) (knownThis : (number, "this") ∈ survey.put) :
    Sound survey none (((context.inClass .derived).within outer (Scope.only "super")).within number
      (Scope.only "this")) where
  lengths := congrArg (· + 2) sound.lengths
  defined := by
    intro distance scope name there pendingThere
    match distance with
    | 0 =>
        cases there
        exact absurd pendingThere (get?_only_ne_false _ _)
    | 1 =>
        cases there
        exact absurd pendingThere (get?_only_ne_false _ _)
    | further + 2 =>
        have impossible := (sound.defined further scope name there pendingThere).2
        cases impossible
  recorded := by
    intro distance scope found name there numbered bound
    match distance with
    | 0 =>
        cases there
        cases numbered
        exact (binds_only _ _).1 bound ▸ knownThis
    | 1 =>
        cases there
        cases numbered
        exact (binds_only _ _).1 bound ▸ knownSuper
    | further + 2 => exact sound.recorded further scope found name there numbered bound
  aroundThis := by
    intro distance scope there bound
    match distance with
    | 0 =>
        cases there
        have different := (binds_only _ _).1 bound
        simp at different
    | 1 => exact ⟨0, rfl, Scope.only "this", rfl, rfl⟩
    | further + 2 =>
        obtain ⟨inner, next, holds⟩ := sound.aroundThis further scope there bound
        subst next
        exact ⟨inner + 2, rfl, holds⟩
  ofClass _ := ⟨0, Scope.only "this", rfl, rfl⟩
  ofDerived _ := ⟨1, Scope.only "super", rfl, rfl⟩
  ordinary := by simp

end Context

end LoxLang
