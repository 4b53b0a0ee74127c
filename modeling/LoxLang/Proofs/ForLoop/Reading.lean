import LoxLang.Proofs.ForLoop.Rounds
import LoxLang.Proofs.ForLoop.Unique
import LoxLang.Proofs.Scope.Distances
import LoxLang.Proofs.Scope.Room

/-!
# Reading loops with `for`

Where the pass through scopes makes a tree of a loop as it is written, it can as well go
through the loop itself.  What it makes of that agrees with the tree: in the tree an
increment shares a scope with the body that the loop does not have, and in which nothing
is declared.
-/

namespace LoxLang

section Shapes

variable {S : Type}

theorem Stmt.loop_of_bare {s : Stmt S} {condition : Expr Unit} {body : Stmt Unit}
    (same : s.bare = .loop condition body) :
    ∃ test inner, s = .loop test inner ∧ test.bare = condition ∧ inner.bare = body := by
  cases s <;> simp_all [Stmt.map, Stmt.map_conditional]

theorem Stmt.pair_of_bare {s : Stmt S} {first second : Stmt Unit}
    (same : s.bare = .block [first, second]) :
    ∃ one other, s = .block [one, other] ∧ one.bare = first ∧ other.bare = second := by
  cases s with
  | block body =>
      simp only [Stmt.map, Stmt.mapAll_eq_map, Stmt.block.injEq] at same
      obtain ⟨one, rest, rfl, rfl, last⟩ := List.map_eq_cons_iff.1 same
      obtain ⟨other, rfl, rfl⟩ := List.map_eq_singleton_iff.1 last
      exact ⟨one, other, rfl, rfl, rfl⟩
  | _ => simp [Stmt.map, Stmt.map_conditional] at same

theorem Stmt.expression_of_bare {s : Stmt S} {value : Expr Unit}
    (same : s.bare = .expression value) : ∃ inner, s = .expression inner ∧ inner.bare = value := by
  cases s <;> simp_all [Stmt.map, Stmt.map_conditional]

end Shapes

/-- What two statements in a block hold, of which the second declares nothing. -/
theorem Construct.heldAt_pair {S : Type} {first second : Stmt S} (none : second.brought = [])
    (index : Nat) : heldAt [] [first, second] index = first.brought := by
  cases index <;> simp [heldAt, none]

theorem Part.Settled.pair {around : List Construct} {first second : Stmt Site}
    (settled : (Part.stmt (.block [first, second])).Settled around) (none : second.brought = []) :
    (Part.stmt first).Settled (first.brought :: around) ∧
      (Part.stmt second).Settled (first.brought :: around) := by
  have one : (Part.stmt first).Settled (Construct.heldAt [] [first, second] 0 :: around) :=
    settled.inside 0 rfl
  have other : (Part.stmt second).Settled (Construct.heldAt [] [first, second] 1 :: around) :=
    settled.inside 1 rfl
  rw [Construct.heldAt_pair none] at one other
  exact ⟨one, other⟩

namespace ForLoop

/-- In the same scopes, which are that many, the pass makes the tree of the loop as it is written,
and the second loop of the loop itself. -/
def ReadsAs (scopes : Nat) (loop : ForLoop Unit) (tree : Stmt Site) (direct : ForLoop Site) :
    Prop :=
  ∃ room start treeAfter directAfter, start.scopes.length = scopes ∧
    Scoping.stmt room loop.written start = .ok tree treeAfter ∧
      loop.visit room start = .ok direct directAfter

/-- The sites can be forgotten before or after the loop is written. -/
theorem written_bare {S : Type} (loop : ForLoop S) : loop.written.bare = loop.bare.written := by
  obtain ⟨first, condition, increment, body⟩ := loop
  cases first <;> cases condition <;> cases increment <;>
    simp [written, bare, Stmt.forLoop, Stmt.repeated, Stmt.map, Stmt.mapAll_eq_map, Expr.map]

/-- What looks like a loop as it is written is one. -/
theorem written_of_bare {S : Type} {loop : ForLoop Unit} {tree : Stmt S}
    (same : tree.bare = loop.written) :
    ∃ found : ForLoop S, tree = found.written ∧ found.bare = loop := by
  obtain ⟨initializer, condition, increment, body⟩ := loop
  have test (e : Expr S) (isTest : e.bare = condition.getD (.literal (.bool true))) :
      ∃ found : Option (Expr S), e = found.getD (.literal (.bool true)) ∧
        found.map Expr.bare = condition := by
    cases condition with
    | none => exact ⟨none, by cases e <;> simp_all [Expr.map], rfl⟩
    | some condition => exact ⟨some e, rfl, congrArg some isTest⟩
  have repeated (s : Stmt S) (isRepeated : s.bare = .repeated increment body) :
      ∃ (step : Option (Expr S)) (inner : Stmt S), s = .repeated step inner ∧
        step.map Expr.bare = increment ∧ inner.bare = body := by
    cases increment with
    | none => exact ⟨none, s, rfl, rfl, isRepeated⟩
    | some increment =>
        obtain ⟨inner, last, rfl, isBody, isStep⟩ := Stmt.pair_of_bare isRepeated
        obtain ⟨step, rfl, isIncrement⟩ := Stmt.expression_of_bare isStep
        exact ⟨some step, inner, rfl, congrArg some isIncrement, isBody⟩
  have whole (s : Stmt S) (isLoop : s.bare = .loop (condition.getD (.literal (.bool true)))
      (.repeated increment body)) : ∃ found : ForLoop S, found.initializer = none ∧
        s = found.written ∧ found.bare = ⟨none, condition, increment, body⟩ := by
    obtain ⟨e, inner, rfl, isTest, isRepeated⟩ := Stmt.loop_of_bare isLoop
    obtain ⟨found, rfl, rfl⟩ := test e isTest
    obtain ⟨step, last, rfl, rfl, rfl⟩ := repeated inner isRepeated
    exact ⟨⟨none, found, step, last⟩, rfl, rfl, rfl⟩
  cases initializer with
  | none =>
      obtain ⟨found, -, isFound⟩ := whole tree same
      exact ⟨found, isFound⟩
  | some first =>
      obtain ⟨one, rest, rfl, rfl, isLoop⟩ := Stmt.pair_of_bare same
      obtain ⟨⟨_, found, step, last⟩, rfl, rfl, isBare⟩ := whole rest isLoop
      cases isBare
      exact ⟨⟨some one, found, step, last⟩, rfl, rfl⟩

/-- The parts of the loop are ordinary, and its body declares nothing. -/
structure Ordinary (loop : ForLoop Unit) : Prop where
  initializer : ∀ first ∈ loop.initializer, first.Ordinary
  condition : ∀ test ∈ loop.condition, test.Ordinary
  increment : ∀ step ∈ loop.increment, step.Ordinary
  body : loop.body.OrdinaryBranch

/-- The constructs around the parts of the loop. -/
def around {S : Type} (loop : ForLoop S) (outer : List Construct) : List Construct :=
  loop.initializer.elim outer fun first => first.brought :: outer

/-- The parts of the second loop come from those of the first one, and are located in the
constructs. -/
structure Located (around : List Construct) (loop : ForLoop Unit) (direct : ForLoop Site) :
    Prop where
  initializer : Option.Rel (fun source first => first.bare = source ∧
    (Part.stmt first).Throughout Part.IsLocated around) loop.initializer direct.initializer
  condition : Option.Rel (fun source e => e.bare = source ∧
    (Part.expr e).Throughout Part.IsLocated around) loop.condition direct.condition
  increment : Option.Rel (fun source e => e.bare = source ∧
    (Part.expr e).Throughout Part.IsLocated around) loop.increment direct.increment
  body : direct.body.bare = loop.body ∧
    (Part.stmt direct.body).Throughout Part.IsLocated around

section Scoping

open Scoping

variable {around : List Construct} {classAround : Prop} {room : Nat}

theorem optional_goes {value : Option (Expr Unit)} (ordinary : ∀ found ∈ value, found.Ordinary) :
    Goes classAround around around (optional (expr room) value) fun result _ =>
      Option.Rel (fun source e => e.bare = source ∧
        (Part.expr e).Throughout Part.IsLocated around) value result := by
  cases value with
  | none => exact .pure .none
  | some value =>
      refine .wrap (expr_goes value (ordinary value rfl)) fun result told placed => ?_
      exact .some ⟨Part.expr.inj placed.bare, placed.located⟩

/-- What runs first brings its names into the scope of the loop. -/
theorem initializer_goes {first : Stmt Unit} (ordinary : first.Ordinary) :
    Goes classAround ([] :: around) (first.brought :: around) (optional (stmt room) (some first))
      fun result _ => Option.Rel (fun source found => found.bare = source ∧
        (Part.stmt found).Throughout Part.IsLocated (first.brought :: around)) (some first)
        result := by
  have goes := stmt_visits_placed room ([] :: around) first ordinary
  refine .wrap goes.anywhere fun result told placed => ?_
  exact .some ⟨Part.stmt.inj placed.bare, placed.located⟩

/-- The parts of a loop after what runs first. -/
theorem rest_goes {loop : ForLoop Unit} (ordinary : loop.Ordinary) {first : Option (Stmt Site)}
    (isFirst : Option.Rel (fun source first => first.bare = source ∧
      (Part.stmt first).Throughout Part.IsLocated around) loop.initializer first) :
    Goes classAround around around
      (do
        let condition ← optional (expr room) loop.condition
        let increment ← optional (expr room) loop.increment
        let body ← stmt room loop.body
        return (⟨first, condition, increment, body⟩ : ForLoop Site))
      fun direct _ => loop.Located around direct := by
  refine .bind (optional_goes ordinary.condition) fun condition _ isCondition => ?_
  refine .bind (optional_goes ordinary.increment) fun increment _ isIncrement => ?_
  refine .wrap ((stmt_visits_placed room).branch ordinary.body.1 ordinary.body.2) ?_
  intro body told placed
  exact ⟨isFirst, isCondition, isIncrement, Part.stmt.inj placed.bare, placed.located⟩

/-- What the pass makes of the loop itself is located in the constructs around its parts. -/
theorem visit_goes {loop : ForLoop Unit} (ordinary : loop.Ordinary) :
    Goes classAround around around (loop.visit room) fun direct _ =>
      loop.Located (loop.around around) direct := by
  obtain ⟨first, condition, increment, body⟩ := loop
  cases first with
  | none => exact .bind (.pure .none) fun found _ isFound => rest_goes ordinary isFound
  | some first =>
      have inside : Goes classAround ([] :: around) (first.brought :: around)
          (visitParts room ⟨some first, condition, increment, body⟩) fun direct _ =>
            Located (first.brought :: around) ⟨some first, condition, increment, body⟩ direct := by
        refine .bind (initializer_goes (ordinary.initializer first rfl)) fun found _ isFound => ?_
        exact rest_goes ordinary isFound
      exact .inScope .empty (by simp) inside

/-- The pass through a loop is not cut off where there is room for the loop as it is written. -/
theorem visit_ends {loop : ForLoop Unit} (small : loop.written.nodes ≤ room) :
    Ends (loop.visit room) := by
  obtain ⟨first, condition, increment, body⟩ := loop
  have nodes : (first.elim 0 Stmt.nodes) + Expr.nodesOfOptional condition +
      Expr.nodesOfOptional increment + body.nodes ≤ room := by
    refine Nat.le_trans ?_ small
    cases first <;> cases condition <;> cases increment <;>
      simp [written, Stmt.forLoop, Stmt.repeated, Stmt.nodes, Stmt.nodesOfAll,
        Expr.nodesOfOptional, Expr.nodes] <;> omega
  have firstEnds : Ends (optional (stmt room) first) := by
    cases first with
    | none => exact .pure none
    | some first =>
        rw [Option.elim_some] at nodes
        exact (stmt_ends first (by omega)).wrap some
  have parts : Ends (visitParts room ⟨first, condition, increment, body⟩) := by
    refine firstEnds.bind fun first => ?_
    refine (optional_ends condition (by omega)).bind fun condition => ?_
    refine (optional_ends increment (by omega)).bind fun increment => ?_
    exact (stmt_ends body (by omega)).wrap (ForLoop.mk first condition increment)
  cases first with
  | none => exact parts
  | some first => exact parts.inScope Table.empty

end Scoping

section Agreement

variable {outer : List Construct} {loop direct : ForLoop Site}

/-- The parts of the loop are settled in the tree.  An increment shares a scope with the body. -/
structure Settled (outer : List Construct) (loop : ForLoop Site) : Prop where
  initializer : ∀ first ∈ loop.initializer, (Part.stmt first).Settled (loop.around outer)
  condition : ∀ test ∈ loop.condition, (Part.expr test).Settled (loop.around outer)
  increment : ∀ step ∈ loop.increment, (Part.expr step).Settled ([] :: loop.around outer)
  body : (Part.stmt loop.body).Settled
    (if loop.increment.isSome then [] :: loop.around outer else loop.around outer)

theorem Settled.of_written (settled : (Part.stmt loop.written).Settled outer)
    (none : loop.body.brought = []) : loop.Settled outer := by
  obtain ⟨first, condition, increment, body⟩ := loop
  have whole {around : List Construct} (isLoop : (Part.stmt (.loop
      (condition.getD (.literal (.bool true))) (.repeated increment body))).Settled around) :
      (∀ test ∈ condition, (Part.expr test).Settled around) ∧
      (∀ step ∈ increment, (Part.expr step).Settled ([] :: around)) ∧
      (Part.stmt body).Settled (if increment.isSome then [] :: around else around) := by
    refine ⟨?_, ?_⟩
    · rintro test ⟨⟩
      exact isLoop.inside 0 rfl
    · cases increment with
      | none => exact ⟨nofun, isLoop.inside 1 rfl⟩
      | some step =>
          have inBlock : (Part.stmt (.block [body, .expression step])).Settled around :=
            isLoop.inside 1 rfl
          obtain ⟨bodyInside, stepInside⟩ := inBlock.pair rfl
          rw [none] at bodyInside stepInside
          refine ⟨?_, bodyInside⟩
          rintro _ ⟨⟩
          exact stepInside.inside 0 rfl
  cases first with
  | none =>
      obtain ⟨conditionIs, incrementIs, bodyIs⟩ := whole settled
      exact ⟨nofun, conditionIs, incrementIs, bodyIs⟩
  | some first =>
      have bringsNothing : (Stmt.repeated increment body).brought = [] :=
        (settled.inside 1 rfl).root.ordinary
      obtain ⟨firstInside, loopInside⟩ := Part.Settled.pair settled bringsNothing
      obtain ⟨conditionIs, incrementIs, bodyIs⟩ := whole loopInside
      refine ⟨?_, conditionIs, incrementIs, bodyIs⟩
      rintro _ ⟨⟩
      exact firstInside

theorem Settled.ordinary (settled : loop.Settled outer) (none : loop.body.brought = []) :
    loop.bare.Ordinary := by
  have plain {around : List Construct} {part : Part Site} (isSettled : part.Settled around) :
      part.bare.Ordinary :=
    Part.ordinary_bare.2 fun path inner leads => (isSettled path inner leads).ordinary
  refine ⟨?_, ?_, ?_, plain settled.body, (Stmt.brought_bare _).trans none⟩
  · intro first isFirst
    obtain ⟨found, member, rfl⟩ := Option.map_eq_some_iff.1 isFirst
    exact plain (settled.initializer found member)
  · intro test isTest
    obtain ⟨found, member, rfl⟩ := Option.map_eq_some_iff.1 isTest
    exact plain (settled.condition found member)
  · intro step isStep
    obtain ⟨found, member, rfl⟩ := Option.map_eq_some_iff.1 isStep
    exact plain (settled.increment found member)

/-- Where something may be missing, it is missing on both sides or agrees. -/
theorem agree_optional {kept : List Bool} {around : List Construct}
    {value twin : Option (Expr Site)}
    (vacant : Construct.Vacant kept around) (paired : Construct.Paired around)
    (settled : ∀ e ∈ value, (Part.expr e).Settled around)
    (located : Option.Rel (fun source e => e.bare = source ∧
      (Part.expr e).Throughout Part.IsLocated (keep kept around)) (value.map Expr.bare) twin) :
    Option.Rel (fun e twin => (Part.expr e).Agrees kept (.expr twin)) value twin := by
  cases value with
  | none =>
      cases located
      exact .none
  | some value =>
      cases located with
      | some isTwin =>
          exact .some ⟨congrArg Part.expr isTwin.1, ⟨around, vacant, paired, settled value rfl,
            isTwin.2⟩, fun brings => absurd rfl brings⟩

theorem around_bare (loop : ForLoop Site) (outer : List Construct) :
    loop.bare.around outer = loop.around outer := by
  obtain ⟨first, condition, increment, body⟩ := loop
  cases first with
  | none => rfl
  | some first => exact congrArg (· :: outer) (Stmt.brought_bare first)

theorem Settled.paired_around (settled : loop.Settled outer) (paired : Construct.Paired outer) :
    Construct.Paired (loop.around outer) := by
  obtain ⟨first, condition, increment, body⟩ := loop
  cases first with
  | none => exact paired
  | some first =>
      have firstSettled := settled.initializer first rfl
      exact paired.cons fun holds => (firstSettled.root.ordinary.brought "super" holds).2 rfl

/-- The scope of the loop is kept. -/
theorem scope_kept (loop : ForLoop Site) : ∀ mark ∈ loop.scope ++ [], mark = true := by
  unfold scope
  split <;> simp

/-- The loop in the tree agrees with what the pass makes of the loop itself. -/
theorem agrees_of_located (paired : Construct.Paired outer) (settled : loop.Settled outer)
    (none : loop.body.brought = [])
    (located : loop.bare.Located (loop.bare.around outer) direct) : loop.Agrees [] direct := by
  rw [around_bare] at located
  have layers := settled.paired_around paired
  have vacant : Construct.Vacant (loop.scope ++ []) (loop.around outer) :=
    .all (scope_kept loop) _
  have same : keep (loop.scope ++ []) (loop.around outer) = loop.around outer :=
    keep_all (scope_kept loop) _
  -- the scope that an increment shares with the body
  have innerVacant : Construct.Vacant (false :: (loop.scope ++ [])) ([] :: loop.around outer) :=
    ⟨fun _ => rfl, vacant⟩
  have innerPaired : Construct.Paired ([] :: loop.around outer) := layers.cons (by simp)
  obtain ⟨isFirst, isCondition, isIncrement, isBody, bodyLocated⟩ := located
  rw [← same] at isFirst isCondition isIncrement bodyLocated
  refine ⟨?_, agree_optional vacant layers settled.condition isCondition,
    agree_optional innerVacant innerPaired settled.increment isIncrement, ?_⟩
  · obtain ⟨first, condition, increment, body⟩ := loop
    obtain ⟨firstTwin, conditionTwin, incrementTwin, bodyTwin⟩ := direct
    cases first with
    | none =>
        cases isFirst
        exact .none
    | some first =>
        cases isFirst with
        | some isFirst =>
            exact .some ⟨congrArg Part.stmt isFirst.1, ⟨_, vacant, layers,
              settled.initializer first rfl, isFirst.2⟩, fun _ => rfl⟩
  · refine ⟨congrArg Part.stmt isBody, ?_, fun brings => absurd none brings⟩
    have body := settled.body
    split
    · rename_i hasStep
      rw [if_pos hasStep] at body
      exact ⟨_, innerVacant, innerPaired, body, bodyLocated⟩
    · rename_i noStep
      rw [if_neg noStep] at body
      exact ⟨_, vacant, layers, body, bodyLocated⟩

end Agreement

/-- The scopes of a place inside a class, whose names can all be used. -/
def scopesAt (around : List Construct) : ScopeState where
  scopes := around.map fun construct =>
    construct.foldl (fun scope name => scope.insert name true) Table.empty
  function := .none
  classKind := .derived
  complaints := []
  references := []

theorem keeps_scopesAt (around : List Construct) : Scoping.Keeps around (scopesAt around) := by
  refine ⟨?_, nofun⟩
  have filled (construct before : Construct) (scope : Scope) (isMatch : before.Matches scope) :
      Construct.Matches (before ++ construct)
        (construct.foldl (fun scope name => scope.insert name true) scope) := by
    induction construct generalizing before scope with
    | nil => simpa using isMatch
    | cons first rest induction =>
        simpa using
          induction (before ++ [first]) (scope.insert first true) (isMatch.insert first true)
  refine List.forall₂_map_right_iff.2 (List.forall₂_same.2 fun construct _ => ?_)
  exact filled construct [] Table.empty .empty

/-- What a loop as it is written has become in a tree agrees with the loop itself. -/
theorem exists_readsAs {outer : List Construct} {loop : ForLoop Unit} {tree : Stmt Site}
    (paired : Construct.Paired outer) (settled : (Part.stmt tree).Settled outer)
    (same : tree.bare = loop.written) (none : loop.body.brought = []) :
    ∃ direct found : ForLoop Site, loop.ReadsAs outer.length tree direct ∧ tree = found.written ∧
      found.Agrees [] direct := by
  obtain ⟨found, rfl, rfl⟩ := written_of_bare same
  have foundNone : found.body.brought = [] := (Stmt.brought_bare _).symm.trans none
  have parts := Settled.of_written settled foundNone
  have ordinary := parts.ordinary foundNone
  have keeps := keeps_scopesAt outer
  obtain ⟨tree, treeAfter, visited⟩ :=
    Scoping.stmt_ends found.bare.written (Nat.le_refl _) (scopesAt outer)
  obtain ⟨direct, directAfter, directVisited⟩ :=
    visit_ends (Nat.le_refl found.bare.written.nodes) (scopesAt outer)
  obtain ⟨_, located, _⟩ := visit_goes ordinary _ _ _ keeps False.elim directVisited
  have isBranch : found.bare.written.OrdinaryBranch :=
    .forLoop ordinary.initializer ordinary.condition ordinary.increment ordinary.body
  obtain ⟨_, placed, _⟩ := (Scoping.stmt_visits_placed _).branch isBranch.1 isBranch.2
    _ _ _ keeps False.elim visited
  -- the tree is what the pass makes there of the loop as it is written
  have agrees : (Part.stmt found.written).Agrees [] (.stmt tree) :=
    ⟨placed.bare.trans (congrArg Part.stmt same.symm), ⟨outer, trivial, paired, settled,
      placed.located⟩, fun _ => rfl⟩
  have all : ∀ mark ∈ ([] : List Bool), mark = true := by simp
  obtain rfl := Stmt.eq_of_agrees all found.written agrees
  exact ⟨direct, found, ⟨_, _, treeAfter, directAfter, by simp [scopesAt], visited, directVisited⟩,
    rfl, agrees_of_located paired parts foundNone located⟩

end ForLoop

end LoxLang
