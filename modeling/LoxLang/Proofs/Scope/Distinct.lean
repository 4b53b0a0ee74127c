import LoxLang.Proofs.Scope.Layout
import Mathlib.Data.List.Pairwise

/-!
# Names declared once

No scope has two declarations of the same name, be it that of a variable, a
function, a class or a parameter.
-/

namespace LoxLang

variable {survey : Survey} {context : Context} {address : Address} {index : Nat} {scope : Scope}
  {outer : List Scope} {body : List (Stmt Site)}

/-- What a statement declares is new in its scope. -/
theorem Stmt.Scoped.lacks {s : Stmt Site} (laid : s.Scoped survey context address) {name : String}
    (declares : s.declares = some name) : context.Lacks name := by
  cases laid with
  | mk _ parts =>
      cases parts with
      | var _ lacks | function _ lacks | plainClass _ lacks | derivedClass _ lacks =>
          cases declares
          exact lacks
      | _ => cases declares

/-- The scope in which a statement stands has every name after it that it had before, and the one
that the statement declares. -/
theorem Context.after_scopes (here : context.scopes = scope :: outer) (s : Stmt Site) :
    ∃ grown, (context.after s).scopes = grown :: outer ∧
      (∀ name, grown.binds name = false → scope.binds name = false) ∧
      ∀ name, s.declares = some name → grown.binds name = true := by
  unfold Context.after
  cases declares : s.declares with
  | none => exact ⟨scope, here, fun _ absent => absent, nofun⟩
  | some brought =>
      refine ⟨(scope.insert brought false).insert brought true, ?_, ?_, ?_⟩
      · simp [Context.bring, Context.declare, Context.define, Context.innermost, here]
      · intro name absent
        simp only [Table.binds_insert, Bool.or_eq_false_iff] at absent
        exact absent.2.2
      · intro name same
        cases same
        simp [Table.binds_insert]

/-- Statements that stand in a scope one after the other declare different names, and none that the
scope had before them. -/
theorem Stmt.ListScoped.distinct (laid : Stmt.ListScoped survey context address index body)
    (here : context.scopes = scope :: outer) :
    (∀ s ∈ body, ∀ name, s.declares = some name → scope.binds name = false) ∧
      body.Pairwise fun earlier later =>
        ∀ name, earlier.declares = some name → later.declares ≠ some name := by
  induction body generalizing context scope index with
  | nil => simp
  | cons first rest induction =>
      cases laid with
      | cons firstScoped restScoped =>
          obtain ⟨grown, grownHere, grows, declared⟩ := Context.after_scopes here first
          obtain ⟨restNew, restDistinct⟩ := induction restScoped grownHere
          constructor
          · intro s member name declares
            rcases List.mem_cons.1 member with same | later
            · subst same
              exact firstScoped.lacks declares scope (by rw [here]; rfl)
            · exact grows name (restNew s later name declares)
          · rw [List.pairwise_cons]
            refine ⟨?_, restDistinct⟩
            intro s later name declares again
            have absent := restNew s later name again
            rw [declared name declares] at absent
            cases absent

/-- Of the statements in a scope only one declares a name. -/
theorem Stmt.ListScoped.sole (laid : Stmt.ListScoped survey context address index body)
    (here : context.scopes = scope :: outer) {s other : Stmt Site} {name : String}
    (member : s ∈ body)
    (otherMember : other ∈ body) (declares : s.declares = some name)
    (otherDeclares : other.declares = some name) : s = other := by
  by_cases same : s = other
  · exact same
  · have symmetric : Std.Symm fun earlier later : Stmt Site =>
        ∀ name, earlier.declares = some name → later.declares ≠ some name :=
      ⟨fun _ _ apart name declares again => apart name again declares⟩
    have apart := (laid.distinct here).2.forall member otherMember same
    exact absurd otherDeclares (apart name declares)

theorem Scope.binds_ofParams {params : List Token} {param : Token} (member : param ∈ params) :
    (Scope.ofParams params).binds param.lexeme = true := by
  have kept (rest : List Token) (scope : Scope)
      (known : scope.binds param.lexeme = true ∨ param ∈ rest) :
      Table.binds (rest.foldl (fun scope param =>
        (scope.insert param.lexeme false).insert param.lexeme true) scope) param.lexeme = true := by
    induction rest generalizing scope with
    | nil => simpa using known
    | cons first rest induction =>
        apply induction
        simp only [Table.binds_insert, Bool.or_eq_true, decide_eq_true_eq]
        rcases known with bound | later
        · exact .inl (.inr (.inr bound))
        · rcases List.mem_cons.1 later with same | later
          · exact .inl (.inl (congrArg Token.lexeme same.symm))
          · exact .inr later
  exact kept params Table.empty (.inr member)

end LoxLang
