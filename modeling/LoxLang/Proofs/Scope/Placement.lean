import LoxLang.Proofs.Scope.Parts

/-!
# References in their places

A tree with sites is as it should be if each of its references holds the distance to
the innermost construct around it that holds its name; and a list of references tells
of a tree if it has each reference with a distance once.  Both are put together for a
part from the parts directly inside it.
-/

namespace LoxLang

/-- The references are all those that are somewhere, each as often as there are paths to where it
is. -/
def Lists (isAt : List Nat → Reference → Prop) (told : List Reference) : Prop :=
  ∃ marked : List (List Nat × Reference), (marked.map Prod.fst).Nodup ∧
    (∀ path reference, (path, reference) ∈ marked ↔ isAt path reference) ∧
    told.Perm (marked.map Prod.snd)

namespace Lists

variable {isAt isFirst isLater : List Nat → Reference → Prop} {told later : List Reference}

theorem nil (nowhere : ∀ path reference, ¬ isAt path reference) : Lists isAt [] :=
  ⟨[], .nil, by simp [nowhere], .nil⟩

theorem single (path : List Nat) {reference : Reference}
    (there : ∀ other found, isAt other found ↔ other = path ∧ found = reference) :
    Lists isAt [reference] :=
  ⟨[(path, reference)], by simp, by simp [there], .refl _⟩

theorem append (first : Lists isFirst told) (second : Lists isLater later)
    (apart : ∀ path reference other, isFirst path reference → ¬ isLater path other)
    (either : ∀ path reference, isAt path reference ↔
      isFirst path reference ∨ isLater path reference) : Lists isAt (told ++ later) := by
  obtain ⟨marked, distinct, complete, same⟩ := first
  obtain ⟨others, othersDistinct, othersComplete, othersSame⟩ := second
  refine ⟨marked ++ others, ?_, ?_, ?_⟩
  · rw [List.map_append, List.nodup_append]
    refine ⟨distinct, othersDistinct, ?_⟩
    rintro path isMarked _ isOther rfl
    obtain ⟨⟨path, reference⟩, member, rfl⟩ := List.mem_map.1 isMarked
    obtain ⟨⟨_, other⟩, otherMember, rfl⟩ := List.mem_map.1 isOther
    exact apart _ _ _ ((complete _ _).1 member) ((othersComplete _ _).1 otherMember)
  · intro path reference
    rw [List.mem_append, complete, othersComplete, either]
  · rw [List.map_append]
    exact same.append othersSame

theorem map {move : List Nat → List Nat} (lists : Lists isFirst told)
    (injective : ∀ path other, move path = move other → path = other)
    (moved : ∀ path reference, isAt path reference ↔
      ∃ inner, move inner = path ∧ isFirst inner reference) : Lists isAt told := by
  obtain ⟨marked, distinct, complete, same⟩ := lists
  refine ⟨marked.map fun pair => (move pair.1, pair.2), ?_, ?_, ?_⟩
  · rw [List.map_map]
    have paths : Prod.fst ∘ (fun pair : List Nat × Reference => (move pair.1, pair.2)) =
        move ∘ Prod.fst := rfl
    rw [paths, ← List.map_map]
    exact List.Pairwise.map move
      (fun path other differ same => differ (injective path other same)) distinct
  · intro path reference
    rw [moved]
    simp only [List.mem_map, Prod.mk.injEq, Prod.exists]
    constructor
    · rintro ⟨inner, _, member, rfl, rfl⟩
      exact ⟨inner, rfl, (complete _ _).1 member⟩
    · rintro ⟨inner, rfl, there⟩
      exact ⟨inner, reference, (complete _ _).2 there, rfl, rfl⟩
  · rw [List.map_map]
    exact same

theorem perm (lists : Lists isAt told) (reordered : later.Perm told) : Lists isAt later := by
  obtain ⟨marked, distinct, complete, same⟩ := lists
  exact ⟨marked, distinct, complete, reordered.trans same⟩

theorem congr (lists : Lists isFirst told)
    (same : ∀ path reference, isAt path reference ↔ isFirst path reference) :
    Lists isAt told := by
  obtain ⟨marked, distinct, complete, reordered⟩ := lists
  exact ⟨marked, distinct, fun path reference =>
    (complete path reference).trans (same path reference).symm, reordered⟩

end Lists

namespace Part

/-- At the end of the path the part refers to the name, and the construct at the distance is the
innermost one around that holds it there. -/
def IsBoundAt (part : Part Unit) (path : List Nat) (reference : Reference) : Prop :=
  (part.at? path).bind reference? = some (reference.kind, reference.token, ()) ∧
    Construct.Innermost (part.constructs path) reference.token.lexeme reference.distance

/-- There is a reference at the end of the path, and its site holds the distance. -/
def Refers (part : Part Site) (path : List Nat) (reference : Reference) : Prop :=
  (part.at? path).bind reference? =
    some (reference.kind, reference.token, some reference.distance)

/-- The path begins with the index of a part and goes on to a reference in it. -/
def EachRefers (parts : List (Part Site)) (path : List Nat) (reference : Reference) : Prop :=
  ∃ index inner part, path = index :: inner ∧ parts[index]? = some part ∧
    part.Refers inner reference

theorem refers_cons {part : Part Site} {index : Nat} {path : List Nat} {reference : Reference} :
    part.Refers (index :: path) reference ↔
      EachRefers part.children (index :: path) reference := by
  constructor
  · intro refers
    obtain ⟨inner, leads, isReference⟩ := Option.bind_eq_some_iff.1 refers
    obtain ⟨child, there, leads⟩ := at?_cons.1 leads
    exact ⟨index, path, child, rfl, there, Option.bind_eq_some_iff.2 ⟨inner, leads, isReference⟩⟩
  · rintro ⟨_, _, child, ⟨rfl, rfl⟩, there, refers⟩
    obtain ⟨inner, leads, isReference⟩ := Option.bind_eq_some_iff.1 refers
    exact Option.bind_eq_some_iff.2 ⟨inner, at?_cons.2 ⟨child, there, leads⟩, isReference⟩

theorem lists_nil : Lists (EachRefers []) [] := by
  apply Lists.nil
  rintro path reference ⟨index, inner, part, -, there, -⟩
  simp at there

theorem lists_cons {part : Part Site} {parts : List (Part Site)} {told later : List Reference}
    (first : Lists part.Refers told) (rest : Lists (EachRefers parts) later) :
    Lists (EachRefers (part :: parts)) (told ++ later) := by
  have firstMoved : Lists (fun path reference => ∃ inner, 0 :: inner = path ∧
      part.Refers inner reference) told :=
    first.map (fun _ _ same => (List.cons.inj same).2) fun _ _ => Iff.rfl
  have restMoved : Lists (fun path reference => ∃ inner, List.modifyHead (· + 1) inner = path ∧
      EachRefers parts inner reference) later := by
    refine rest.map ?_ fun _ _ => Iff.rfl
    intro path other same
    cases path <;> cases other <;> simp_all
  refine firstMoved.append restMoved ?_ ?_
  · rintro _ _ _ ⟨inner, rfl, -⟩ ⟨_, moved, index, other, _, rfl, -, -⟩
    simp at moved
  · intro path reference
    constructor
    · rintro ⟨index, inner, found, rfl, there, refers⟩
      cases index with
      | zero =>
          cases there
          exact .inl ⟨inner, rfl, refers⟩
      | succ index => exact .inr ⟨index :: inner, rfl, index, inner, found, rfl, there, refers⟩
    · rintro (⟨inner, rfl, refers⟩ | ⟨_, rfl, index, inner, found, rfl, there, refers⟩)
      · exact ⟨0, inner, part, rfl, rfl, refers⟩
      · exact ⟨index + 1, inner, found, rfl, there, refers⟩

/-- The references in a part are those in the parts inside it, and the part itself. -/
theorem lists_of_children {part : Part Site} {told own : List Reference}
    (inside : Lists (EachRefers part.children) told)
    (root : Lists (fun path reference => path = [] ∧ part.Refers [] reference) own) :
    Lists part.Refers (told ++ own) := by
  refine inside.append root ?_ ?_
  · rintro _ _ _ ⟨index, inner, found, rfl, -, -⟩ ⟨impossible, -⟩
    cases impossible
  · intro path reference
    cases path with
    | nil => simp [EachRefers]
    | cons index path => simp [refers_cons]

/-- The site of a reference holds the distance to the innermost construct that holds the name. -/
def IsLocated (constructs : List Construct) (part : Part Site) : Prop :=
  ∀ kind name site, part.reference? = some (kind, name, site) →
    site = Construct.distance? constructs name.lexeme

/-- The part comes from one without sites; its references, which are these, are located. -/
structure Placed (around : List Construct) (source : Part Unit) (part : Part Site)
    (told : List Reference) : Prop where
  bare : part.bare = source
  located : part.Throughout IsLocated around
  lists : Lists part.Refers told

/-- Parts, each with the constructs around it, come from such without sites; the references in all
of them, which are these, are located. -/
structure EachPlaced (around : Nat → List Construct) (sources : List (Part Unit))
    (parts : List (Part Site)) (told : List Reference) : Prop where
  bare : parts.map Part.bare = sources
  located : ∀ (index : Nat) (part : Part Site), parts[index]? = some part →
    part.Throughout IsLocated (around index)
  lists : Lists (EachRefers parts) told

theorem Placed.perm {around : List Construct} {source : Part Unit} {part : Part Site}
    {told later : List Reference} (placed : Placed around source part told)
    (reordered : later.Perm told) : Placed around source part later :=
  ⟨placed.bare, placed.located, placed.lists.perm reordered⟩

theorem EachPlaced.nil {around : Nat → List Construct} : EachPlaced around [] [] [] :=
  ⟨rfl, by simp, lists_nil⟩

theorem EachPlaced.cons {around : Nat → List Construct} {source : Part Unit}
    {sources : List (Part Unit)} {part : Part Site} {parts : List (Part Site)}
    {told later : List Reference} (first : Placed (around 0) source part told)
    (rest : EachPlaced (fun index => around (index + 1)) sources parts later) :
    EachPlaced around (source :: sources) (part :: parts) (told ++ later) where
  bare := by rw [List.map_cons, first.bare, rest.bare]
  located := by
    intro index found there
    cases index with
    | zero =>
        cases there
        exact first.located
    | succ index => exact rest.located index found there
  lists := lists_cons first.lists rest.lists

theorem EachPlaced.single {around : Nat → List Construct} {source : Part Unit} {part : Part Site}
    {told : List Reference} (only : Placed (around 0) source part told) :
    EachPlaced around [source] [part] told := by
  have each := EachPlaced.cons only .nil
  rwa [List.append_nil] at each

section Node

variable {around : List Construct} {source : Part Unit} {part : Part Site}
  {told : List Reference}

theorem EachPlaced.inside (bare : part.bare = source)
    (each : EachPlaced (fun index => source.opens index ++ around) source.children part.children
      told) {index : Nat} {child : Part Site} (there : part.children[index]? = some child) :
    child.Throughout IsLocated (part.opens index ++ around) := by
  subst bare
  rw [← opens_bare]
  exact each.located index child there

/-- A part that is no reference itself is placed if the parts inside it are. -/
theorem Placed.node (noReference : part.reference? = none)
    (each : EachPlaced (fun index => source.opens index ++ around) source.children part.children
      told) (same : part.children.map Part.bare = source.children → part.bare = source) :
    Placed around source part told where
  bare := same each.bare
  located := throughout_iff.2
    ⟨fun kind name site isReference => by simp [noReference] at isReference,
      fun _ _ there => each.inside (same each.bare) there⟩
  lists := by
    have root : Lists (fun path reference => path = [] ∧ part.Refers [] reference) [] :=
      .nil fun path reference there => by simp [Refers, at?, noReference] at there
    have all := lists_of_children each.lists root
    rwa [List.append_nil] at all

/-- A reference is placed if its site holds the distance to the innermost construct. -/
theorem Placed.reference {kind : ReferenceKind} {name : Token} {site : Site}
    (isReference : part.reference? = some (kind, name, site))
    (located : site = Construct.distance? around name.lexeme)
    (each : EachPlaced (fun index => source.opens index ++ around) source.children part.children
      told) (same : part.children.map Part.bare = source.children → part.bare = source) :
    Placed around source part (told ++ site.toList.map (Reference.mk kind name)) where
  bare := same each.bare
  located := by
    refine throughout_iff.2 ⟨?_, fun _ _ there => each.inside (same each.bare) there⟩
    intro otherKind otherName otherSite isOther
    rw [isReference] at isOther
    cases isOther
    exact located
  lists := by
    refine lists_of_children each.lists ?_
    cases site with
    | none => exact .nil fun path reference there => by simp [Refers, at?, isReference] at there
    | some distance =>
        refine .single [] fun path found => ?_
        obtain ⟨foundKind, token, foundDistance⟩ := found
        simp only [Refers, at?, Option.bind_some, isReference, Option.some.injEq, Prod.mk.injEq,
          Reference.mk.injEq]
        constructor
        · rintro ⟨rfl, rfl, rfl, rfl⟩
          exact ⟨rfl, rfl, rfl, rfl⟩
        · rintro ⟨rfl, rfl, rfl, rfl⟩
          exact ⟨rfl, rfl, rfl, rfl⟩

/-- A reference with no parts inside it. -/
theorem Placed.leaf {kind : ReferenceKind} {name : Token} {site : Site}
    (isReference : part.reference? = some (kind, name, site))
    (located : site = Construct.distance? around name.lexeme) (noParts : source.children = [])
    (same : part.bare = source) :
    Placed around source part (site.toList.map (Reference.mk kind name)) := by
  have noChildren : part.children = [] := by
    rw [← same, children_bare] at noParts
    exact List.map_eq_nil_iff.1 noParts
  have each : EachPlaced (fun index => source.opens index ++ around) source.children
      part.children [] := by
    rw [noParts, noChildren]
    exact .nil
  exact .reference isReference located each fun _ => same

end Node

/-- In a part with nothing around it the references with a distance are those that are bound. -/
theorem Placed.refers_iff {source : Part Unit} {part : Part Site} {told : List Reference}
    (placed : Placed [] source part told) {path : List Nat} {reference : Reference} :
    part.Refers path reference ↔ source.IsBoundAt path reference := by
  obtain ⟨rfl, located, -⟩ := placed
  unfold Refers IsBoundAt
  rw [at?_bare, constructs_bare]
  cases leads : part.at? path with
  | none => simp
  | some found =>
      have isLocated := located path found leads
      rw [List.append_nil] at isLocated
      simp only [Option.bind_some, Option.map_some, reference?_bare]
      constructor
      · intro isReference
        have distance := isLocated _ _ _ isReference
        exact ⟨by simp [isReference], Construct.distance?_eq_some.1 distance.symm⟩
      · rintro ⟨isBare, innermost⟩
        obtain ⟨⟨kind, token, site⟩, isReference, same⟩ := Option.map_eq_some_iff.1 isBare
        simp only [Prod.mk.injEq, and_true] at same
        obtain ⟨rfl, rfl⟩ := same
        rw [isReference, isLocated _ _ _ isReference, Construct.distance?_eq_some.2 innermost]

end Part

end LoxLang
