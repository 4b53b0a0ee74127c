import LoxLang.Proofs.Renaming.Namings
import LoxLang.Proofs.Renaming.Relation
import LoxLang.Proofs.Scope.Distinct
import Mathlib.Data.List.Nodup

/-!
# Renaming a variable

The tokens of a tree are rewritten: those that name one variable get a new lexeme,
and all others keep theirs.  If the scopes of the tree are laid out well and the new
lexeme is none of the tree's, then the rewritten tree is a renamed one, among scopes
of which only the home of the variable is marked.
-/

namespace LoxLang

/-- The marks of the scopes around a place from which the variable has this home. -/
def Fits (marks : List Bool) (home : Site) : Prop :=
  ∀ site, markedAt marks site = true ↔ home.isSome ∧ site = home

namespace Fits

variable {marks : List Bool} {home : Site}

theorem top : Fits [] none := by
  intro site
  cases site <;> simp [markedAt]

theorem enter (fits : Fits marks home) (declared : Bool) :
    Fits ((home.enter declared == some 0) :: marks) (home.enter declared) := by
  have further (distance : Nat) (mark : Bool) :
      markedAt (mark :: marks) (some (distance + 1)) = markedAt marks (some distance) := rfl
  intro site
  cases home with
  | none =>
      rcases site with _ | _ | distance
      · cases declared <;> simp [markedAt, Site.enter]
      · cases declared <;> simp [markedAt, Site.enter]
      · rw [further, fits]
        cases declared <;> simp [Site.enter]
  | some found =>
      rcases site with _ | _ | distance
      · simp [markedAt, Site.enter]
      · simp [markedAt, Site.enter]
      · rw [further, fits]
        simp [Site.enter]

/-- A scope that does not declare the variable is not marked. -/
theorem pass (fits : Fits marks home) : Fits (false :: marks) (home.enter false) := by
  have unmarked : (home.enter false == some 0) = false := by cases home <;> simp [Site.enter]
  have entered := fits.enter false
  rwa [unmarked] at entered

theorem here (fits : Fits marks home) : markedAt marks (some 0) = true ↔ home = some 0 := by
  rw [fits]
  cases home <;> simp [eq_comm]

end Fits

/-- Of these tokens, which are all different, exactly the picked ones are chosen. -/
structure Picks (chosen tokens picked : List Token) : Prop where
  nodup : tokens.Nodup
  agrees : ∀ token ∈ tokens, token ∈ chosen ↔ token ∈ picked

namespace Picks

variable {chosen tokens others picked otherPicked : List Token} {binder token : Token}

theorem split (picks : Picks chosen (tokens ++ others) (picked ++ otherPicked))
    (among : Among binder picked tokens) (otherAmong : Among binder otherPicked others) :
    Picks chosen tokens picked ∧ Picks chosen others otherPicked := by
  obtain ⟨nodup, otherNodup, apart⟩ := List.nodup_append.1 picks.nodup
  refine ⟨⟨nodup, ?_⟩, ⟨otherNodup, ?_⟩⟩
  · intro token member
    rw [picks.agrees token (List.mem_append_left _ member), List.mem_append]
    refine ⟨?_, .inl⟩
    rintro (here | there)
    · exact here
    · exact absurd rfl (apart token member token (otherAmong.within.subset there))
  · intro token member
    rw [picks.agrees token (List.mem_append_right _ member), List.mem_append]
    refine ⟨?_, .inr⟩
    rintro (there | here)
    · exact absurd rfl (apart token (among.within.subset there) token member)
    · exact here

/-- A token of which nothing is picked is not chosen. -/
theorem spared (picks : Picks chosen [token] []) : token ∉ chosen := by
  rw [picks.agrees token (List.mem_singleton_self token)]
  exact List.not_mem_nil

theorem skip (picks : Picks chosen (token :: tokens) picked) (among : Among binder picked tokens) :
    token ∉ chosen ∧ Picks chosen tokens picked := by
  have parts : Picks chosen ([token] ++ tokens) ([] ++ picked) := picks
  obtain ⟨alone, rest⟩ := parts.split .nil among
  exact ⟨alone.spared, rest⟩

theorem skipLast (picks : Picks chosen (tokens ++ [token]) picked)
    (among : Among binder picked tokens) : Picks chosen tokens picked ∧ token ∉ chosen := by
  have parts : Picks chosen (tokens ++ [token]) (picked ++ []) := by rwa [List.append_nil]
  obtain ⟨rest, alone⟩ := parts.split among .nil
  exact ⟨rest, alone.spared⟩

end Picks

/-- The chosen tokens, and no others, are given the new name. -/
structure Rewrites (r : Renaming) (chosen : List Token) (rewrite : Token → Token) : Prop where
  near : ∀ token, r.near token (rewrite token)
  lexeme : ∀ token, (rewrite token).lexeme = if token ∈ chosen then r.new else token.lexeme

namespace Rewrites

variable {r : Renaming} {chosen : List Token} {rewrite : Token → Token} {marked : Bool}
  {marks : List Bool} {binder token : Token} {home site : Site}

theorem names (rewrites : Rewrites r chosen rewrite) (fresh : token.lexeme ≠ r.new)
    (agrees : token ∈ chosen ↔ marked = true ∧ token.lexeme = r.old) :
    r.Names marked token (rewrite token) where
  near := rewrites.near token
  lexeme := by
    rw [rewrites.lexeme]
    unfold Renaming.apply
    simp only [agrees]
  allowed := fun _ => fresh

theorem keeps (rewrites : Rewrites r chosen rewrite) (fresh : token.lexeme ≠ r.new)
    (spared : token ∉ chosen) : r.Keeps token (rewrite token) :=
  rewrites.names fresh (by simp [spared])

/-- A token at a site is rewritten if and only if its site leads to a marked scope and it has the
old name. -/
theorem reading (rewrites : Rewrites r chosen rewrite) (old : binder.lexeme = r.old)
    (fits : Fits marks home) (fresh : token.lexeme ≠ r.new)
    (picks : Picks chosen [token] (reading binder home site token)) :
    r.Names (markedAt marks site) token (rewrite token) := by
  apply rewrites.names fresh
  rw [picks.agrees token (List.mem_singleton_self token), fits, ← old]
  unfold LoxLang.reading
  split <;> simp_all

/-- A name that does not have the old lexeme where a scope is marked. -/
theorem declares (rewrites : Rewrites r chosen rewrite) (fits : Fits marks home)
    (fresh : token.lexeme ≠ r.new) (spared : token ∉ chosen)
    (other : home = some 0 → token.lexeme ≠ r.old) :
    r.Declares (markedAt marks (some 0)) token (rewrite token) where
  keeps := rewrites.keeps fresh spared
  names := by
    apply rewrites.names fresh
    rw [fits.here]
    simpa [spared] using other

/-- A name in the scope of the variable is rewritten if it is the binder; no other name there is
spelled like it. -/
theorem declaring {names : List Token} (rewrites : Rewrites r chosen rewrite)
    (old : binder.lexeme = r.old) (fits : Fits marks home) (fresh : token.lexeme ≠ r.new)
    (picks : Picks chosen names (declaring binder home names)) (member : token ∈ names)
    (sole : home = some 0 → token.lexeme = binder.lexeme → token = binder) :
    r.Names (markedAt marks (some 0)) token (rewrite token) := by
  apply rewrites.names fresh
  rw [picks.agrees token member, mem_declaring, fits.here, ← old]
  constructor
  · rintro ⟨here, _, same⟩
    exact ⟨here, congrArg Token.lexeme same⟩
  · rintro ⟨here, same⟩
    exact ⟨here, member, sole here same⟩

end Rewrites

section Trees

variable {r : Renaming} {chosen : List Token} {rewrite : Token → Token} {binder : Token}
  {survey : Survey}

section Expressions

variable {context : Context} {marks : List Bool} {home : Site}

mutual

theorem Expr.renamed (rewrites : Rewrites r chosen rewrite) (old : binder.lexeme = r.old)
    (fits : Fits marks home) {address : Address} :
    ∀ e : Expr Site, e.Scoped survey context address → (∀ token ∈ e.tokens, token.lexeme ≠ r.new) →
      Picks chosen e.tokens (e.namings binder home) → e.Renamed r marks (e.map rewrite id)
  | .literal value, _, _, _ => .literal
  | .grouping inner, ⟨_, .grouping innerLaid⟩, fresh, picks =>
      .grouping (Expr.renamed rewrites old fits inner innerLaid fresh picks)
  | .unary op operand, ⟨_, .unary operandLaid⟩, fresh, picks => by
      obtain ⟨opFresh, operandFresh⟩ := List.forall_mem_cons.1 fresh
      obtain ⟨spared, operandPicks⟩ := picks.skip operand.namings_among
      exact .unary (rewrites.keeps opFresh spared)
        (Expr.renamed rewrites old fits operand operandLaid operandFresh operandPicks)
  | .binary left op right, ⟨_, .binary _ leftLaid rightLaid⟩, fresh, picks => by
      obtain ⟨leftFresh, rest⟩ := List.forall_mem_append.1 fresh
      obtain ⟨opFresh, rightFresh⟩ := List.forall_mem_cons.1 rest
      obtain ⟨leftPicks, rest⟩ := picks.split left.namings_among (.cons right.namings_among)
      obtain ⟨spared, rightPicks⟩ := rest.skip right.namings_among
      exact .binary (rewrites.keeps opFresh spared)
        (Expr.renamed rewrites old fits left leftLaid leftFresh leftPicks)
        (Expr.renamed rewrites old fits right rightLaid rightFresh rightPicks)
  | .logical left op right, ⟨_, .logical leftLaid rightLaid⟩, fresh, picks => by
      obtain ⟨leftFresh, rest⟩ := List.forall_mem_append.1 fresh
      obtain ⟨opFresh, rightFresh⟩ := List.forall_mem_cons.1 rest
      obtain ⟨leftPicks, rest⟩ := picks.split left.namings_among (.cons right.namings_among)
      obtain ⟨spared, rightPicks⟩ := rest.skip right.namings_among
      exact .logical (rewrites.keeps opFresh spared)
        (Expr.renamed rewrites old fits left leftLaid leftFresh leftPicks)
        (Expr.renamed rewrites old fits right rightLaid rightFresh rightPicks)
  | .variable name site, _, fresh, picks =>
      .variable (rewrites.reading old fits (fresh name (List.mem_singleton_self name)) picks)
  | .assign name site value, ⟨_, .assign _ _ valueLaid⟩, fresh, picks => by
      obtain ⟨nameFresh, valueFresh⟩ := List.forall_mem_cons.1 fresh
      have parts : Picks chosen ([name] ++ value.tokens)
          (reading binder home site name ++ value.namings binder home) := picks
      obtain ⟨namePicks, valuePicks⟩ :=
        parts.split (reading_among site name) value.namings_among
      exact .assign (rewrites.reading old fits nameFresh namePicks)
        (Expr.renamed rewrites old fits value valueLaid valueFresh valuePicks)
  | .call callee paren args, ⟨_, .call calleeLaid argsLaid⟩, fresh, picks => by
      obtain ⟨calleeFresh, rest⟩ := List.forall_mem_append.1 fresh
      obtain ⟨argsFresh, parenFresh⟩ := List.forall_mem_append.1 rest
      obtain ⟨calleePicks, rest⟩ := picks.split callee.namings_among
        (.left (Expr.namingsOfEach_among args))
      obtain ⟨argsPicks, spared⟩ := rest.skipLast (Expr.namingsOfEach_among args)
      refine .call (rewrites.keeps (parenFresh paren (List.mem_singleton_self paren)) spared)
        (Expr.renamed rewrites old fits callee calleeLaid calleeFresh calleePicks)
        (Expr.allRenamed rewrites old fits args ?_ argsFresh argsPicks)
      intro arg member
      obtain ⟨index, there⟩ := List.mem_iff_getElem?.1 member
      exact ⟨_, argsLaid index arg there⟩
  | .get object name, ⟨_, .get objectLaid⟩, fresh, picks => by
      obtain ⟨objectFresh, nameFresh⟩ := List.forall_mem_append.1 fresh
      obtain ⟨objectPicks, spared⟩ := picks.skipLast object.namings_among
      exact .get (rewrites.keeps (nameFresh name (List.mem_singleton_self name)) spared)
        (Expr.renamed rewrites old fits object objectLaid objectFresh objectPicks)
  | .set object name value, ⟨_, .set objectLaid valueLaid⟩, fresh, picks => by
      obtain ⟨objectFresh, rest⟩ := List.forall_mem_append.1 fresh
      obtain ⟨nameFresh, valueFresh⟩ := List.forall_mem_cons.1 rest
      obtain ⟨objectPicks, rest⟩ :=
        picks.split object.namings_among (.cons value.namings_among)
      obtain ⟨spared, valuePicks⟩ := rest.skip value.namings_among
      exact .set (rewrites.keeps nameFresh spared)
        (Expr.renamed rewrites old fits object objectLaid objectFresh objectPicks)
        (Expr.renamed rewrites old fits value valueLaid valueFresh valuePicks)
  | .this keyword _, ⟨_, .this isThis _⟩, fresh, picks => by
      have spared := picks.spared
      apply Expr.Renamed.this
      apply rewrites.names (fresh keyword (List.mem_singleton_self keyword))
      simpa [spared, isThis] using fun _ => (r.ordinary "this" (by decide)).1
  | .super keyword method _, ⟨_, .super isSuper _ _⟩, fresh, picks => by
      obtain ⟨keywordFresh, methodFresh⟩ := List.forall_mem_cons.1 fresh
      obtain ⟨spared, rest⟩ := picks.skip (Among.nil : Among binder [] [method])
      refine Expr.Renamed.super ?_
        (rewrites.keeps (methodFresh method (List.mem_singleton_self method)) rest.spared)
      apply rewrites.names keywordFresh
      simpa [spared, isSuper] using fun _ => (r.ordinary "super" (by decide)).1

theorem Expr.allRenamed (rewrites : Rewrites r chosen rewrite) (old : binder.lexeme = r.old)
    (fits : Fits marks home) :
    ∀ args : List (Expr Site), (∀ arg ∈ args, ∃ address, arg.Scoped survey context address) →
      (∀ token ∈ Expr.tokensOfEach args, token.lexeme ≠ r.new) →
      Picks chosen (Expr.tokensOfEach args) (Expr.namingsOfEach binder home args) →
      Expr.AllRenamed r marks args (Expr.mapEach rewrite id args)
  | [], _, _, _ => .nil
  | first :: rest, laid, fresh, picks => by
      obtain ⟨firstFresh, restFresh⟩ := List.forall_mem_append.1 fresh
      obtain ⟨⟨address, firstLaid⟩, restLaid⟩ := List.forall_mem_cons.1 laid
      obtain ⟨firstPicks, restPicks⟩ :=
        picks.split first.namings_among (Expr.namingsOfEach_among rest)
      exact .cons (Expr.renamed rewrites old fits first firstLaid firstFresh firstPicks)
        (Expr.allRenamed rewrites old fits rest restLaid restFresh restPicks)

end

theorem Expr.optionRenamed (rewrites : Rewrites r chosen rewrite) (old : binder.lexeme = r.old)
    (fits : Fits marks home) {address : Address} {value : Option (Expr Site)}
    (laid : ∀ found ∈ value, found.Scoped survey context address)
    (fresh : ∀ token ∈ Expr.tokensOfOptional value, token.lexeme ≠ r.new)
    (picks : Picks chosen (Expr.tokensOfOptional value)
      (Expr.namingsOfOptional binder home value)) :
    Expr.OptionRenamed r marks value (value.map (Expr.map rewrite id)) := by
  cases value with
  | none => exact .none
  | some found => exact .some (Expr.renamed rewrites old fits found (laid found rfl) fresh picks)

end Expressions

/-- In the scope of the variable nothing but its binder declares its name. -/
def Stmt.Sole (binder : Token) (home : Site) (s : Stmt Site) : Prop :=
  home = some 0 → s.declares = some binder.lexeme → s.declaredVariable = some binder

/-- A function or a class has another name than the variables of its scope that are renamed. -/
theorem Stmt.Sole.other {home : Site} {s : Stmt Site} {name : String} (sole : s.Sole binder home)
    (old : binder.lexeme = r.old) (declares : s.declares = some name)
    (noVariable : s.declaredVariable = none) : home = some 0 → name ≠ r.old := by
  intro here same
  have isBinder := sole here (by rw [declares, same, old])
  rw [noVariable] at isBinder
  cases isBinder

/-- A binder that is a parameter, or declares a variable in the body, is the only one of its name
in the scope of a function. -/
theorem Stmt.ListScoped.sole_binder {context : Context} {number index : Nat} {address : Address}
    {body : List (Stmt Site)} {home : Site} (params : List Token)
    (distinct : (params.map Token.lexeme).Nodup)
    (laid : Stmt.ListScoped survey (context.within number (Scope.ofParams params)) address
      index body)
    (entered : home.enter (binder ∈ params ++ Stmt.variables body) = some 0) :
    (∀ param ∈ params, param.lexeme = binder.lexeme → param = binder) ∧
      ∀ s ∈ body, s.declares = some binder.lexeme → s.declaredVariable = some binder := by
  have isBinder : binder ∈ params ++ Stmt.variables body := by
    cases home with
    | none => simpa [Site.enter, or_iff_not_imp_left] using entered
    | some distance => simp [Site.enter] at entered
  have declaredNew := (laid.distinct rfl).1
  rcases List.mem_append.1 isBinder with isParam | isVariable
  · constructor
    · intro param member same
      exact List.inj_on_of_nodup_map distinct member isParam same
    · intro s member declares
      have absent := declaredNew s member binder.lexeme declares
      rw [Scope.binds_ofParams isParam] at absent
      cases absent
  · obtain ⟨declaration, inBody, isDeclared⟩ := List.mem_filterMap.1 isVariable
    have declares : declaration.declares = some binder.lexeme := by
      cases declaration with
      | var name initializer =>
          cases isDeclared
          rfl
      | _ => cases isDeclared
    constructor
    · intro param member same
      have absent := declaredNew declaration inBody binder.lexeme declares
      rw [← same, Scope.binds_ofParams member] at absent
      cases absent
    · intro s member again
      rw [laid.sole rfl member inBody again declares]
      exact isDeclared

/-- The name of a function is not one of its tokens that name a variable. -/
theorem Picks.name_spared {name : Token} {params : List Token} {body : List (Stmt Site)}
    {home : Site} (picks : Picks chosen (FunctionDecl.tokens ⟨name, params, body⟩)
      (FunctionDecl.namings binder home ⟨name, params, body⟩)) : name ∉ chosen := by
  exact (Picks.skip picks
    (.append (declaring_among params) (Stmt.namingsOfAll_among _ body))).1

mutual

theorem Stmt.renamed (rewrites : Rewrites r chosen rewrite) (old : binder.lexeme = r.old)
    {context : Context} {marks : List Bool} {home : Site} {address : Address}
    (fits : Fits marks home) :
    ∀ s : Stmt Site, s.Scoped survey context address → s.Sole binder home →
      (∀ token ∈ s.tokens, token.lexeme ≠ r.new) →
      Picks chosen s.tokens (s.namings binder home) → s.Renamed r marks (s.map rewrite id)
  | .expression value, ⟨_, .expression valueLaid⟩, _, fresh, picks =>
      .expression (value.renamed rewrites old fits valueLaid fresh picks)
  | .print value, ⟨_, .print valueLaid⟩, _, fresh, picks =>
      .print (value.renamed rewrites old fits valueLaid fresh picks)
  | .var name initializer, ⟨_, .var _ _ _ valueLaid⟩, sole, fresh, picks => by
      obtain ⟨nameFresh, valueFresh⟩ := List.forall_mem_cons.1 fresh
      have parts : Picks chosen ([name] ++ Expr.tokensOfOptional initializer)
          (declaring binder home [name] ++ Expr.namingsOfOptional binder home initializer) := picks
      obtain ⟨namePicks, valuePicks⟩ :=
        parts.split (declaring_among [name]) (Expr.namingsOfOptional_among initializer)
      refine .var (rewrites.declaring old fits nameFresh namePicks (List.mem_singleton_self name)
        ?_)
        (Expr.optionRenamed rewrites old fits valueLaid valueFresh valuePicks)
      intro here same
      exact Option.some.inj (sole here (congrArg some same))
  | .block body, ⟨_, .block bodyLaid⟩, _, fresh, picks => by
      refine .block _ (Stmt.allRenamed rewrites old (fits.enter _) body bodyLaid ?_ fresh picks)
      intro s member here
      exact (Stmt.ListScoped.sole_binder [] List.nodup_nil bodyLaid here).2 s member
  | .conditional condition branch none, ⟨_, .conditional conditionLaid branchLaid noName _ _⟩, _,
      fresh, picks => by
      obtain ⟨conditionFresh, branchFresh⟩ := List.forall_mem_append.1 fresh
      obtain ⟨conditionPicks, branchPicks⟩ :=
        picks.split condition.namings_among (branch.namings_among _)
      exact .conditional
        (condition.renamed rewrites old fits conditionLaid conditionFresh conditionPicks)
        (Stmt.renamed rewrites old fits branch branchLaid (by simp [Stmt.Sole, noName]) branchFresh
          branchPicks)
  | .conditional condition branch (some other),
      ⟨_, .conditional conditionLaid branchLaid noName otherLaid otherNoName⟩, _, fresh, picks => by
      obtain ⟨conditionFresh, rest⟩ := List.forall_mem_append.1 fresh
      obtain ⟨branchFresh, otherFresh⟩ := List.forall_mem_append.1 rest
      obtain ⟨conditionPicks, rest⟩ := picks.split condition.namings_among
        (.append (branch.namings_among _) (other.namings_among _))
      obtain ⟨branchPicks, otherPicks⟩ :=
        rest.split (branch.namings_among _) (other.namings_among _)
      exact .conditionalElse
        (condition.renamed rewrites old fits conditionLaid conditionFresh conditionPicks)
        (Stmt.renamed rewrites old fits branch branchLaid (by simp [Stmt.Sole, noName]) branchFresh
          branchPicks)
        (Stmt.renamed rewrites old fits other (otherLaid other rfl)
          (by simp [Stmt.Sole, otherNoName other rfl]) otherFresh otherPicks)
  | .loop condition body, ⟨_, .loop conditionLaid bodyLaid noName⟩, _, fresh, picks => by
      obtain ⟨conditionFresh, bodyFresh⟩ := List.forall_mem_append.1 fresh
      obtain ⟨conditionPicks, bodyPicks⟩ :=
        picks.split condition.namings_among (body.namings_among _)
      exact .loop (condition.renamed rewrites old fits conditionLaid conditionFresh conditionPicks)
        (Stmt.renamed rewrites old fits body bodyLaid (by simp [Stmt.Sole, noName]) bodyFresh
          bodyPicks)
  | .function (.mk name params body), ⟨_, .function _ _ _ declLaid⟩, sole, fresh, picks => by
      obtain ⟨nameFresh, _⟩ := List.forall_mem_cons.1 fresh
      exact .function
        (rewrites.declares fits nameFresh (Picks.name_spared picks) (sole.other old rfl rfl))
        (FunctionDecl.renamed rewrites old fits ⟨name, params, body⟩ declLaid fresh picks)
  | .return keyword value, ⟨_, .return _ valueLaid⟩, _, fresh, picks => by
      obtain ⟨keywordFresh, valueFresh⟩ := List.forall_mem_cons.1 fresh
      obtain ⟨spared, valuePicks⟩ := picks.skip (Expr.namingsOfOptional_among value)
      exact .return (rewrites.keeps keywordFresh spared)
        (Expr.optionRenamed rewrites old fits valueLaid valueFresh valuePicks)
  | .class name none methods, ⟨_, .plainClass _ _ _ _ methodsLaid⟩, sole, fresh, picks => by
      obtain ⟨nameFresh, methodsFresh⟩ := List.forall_mem_cons.1 fresh
      have parts : Picks chosen (name :: FunctionDecl.tokensOfAll methods)
          (FunctionDecl.namingsOfAll binder (home.enter false) methods) := picks
      obtain ⟨spared, methodsPicks⟩ := parts.skip (FunctionDecl.namingsOfAll_among _ methods)
      refine .plainClass (rewrites.declares fits nameFresh spared (sole.other old rfl rfl))
        (FunctionDecl.allRenamed rewrites old fits.pass methods ?_ methodsFresh methodsPicks)
      intro method member
      obtain ⟨index, there⟩ := List.mem_iff_getElem?.1 member
      exact ⟨_, _, methodsLaid index method there⟩
  | .class name (some parent) methods, ⟨_, .derivedClass _ _ _ _ _ _ _ methodsLaid⟩, sole, fresh,
      picks => by
      obtain ⟨nameFresh, rest⟩ := List.forall_mem_cons.1 fresh
      obtain ⟨parentFresh, methodsFresh⟩ := List.forall_mem_cons.1 rest
      have methodsAmong : Among binder
          (FunctionDecl.namingsOfAll binder ((home.enter false).enter false) methods)
          (FunctionDecl.tokensOfAll methods) := FunctionDecl.namingsOfAll_among _ methods
      have parts : Picks chosen (name :: ([parent.name] ++ FunctionDecl.tokensOfAll methods))
          (reading binder home parent.site parent.name ++
            FunctionDecl.namingsOfAll binder ((home.enter false).enter false) methods) := picks
      obtain ⟨spared, rest⟩ := parts.skip (.append (reading_among _ _) methodsAmong)
      obtain ⟨parentPicks, methodsPicks⟩ := rest.split (reading_among _ _) methodsAmong
      refine .derivedClass (rewrites.declares fits nameFresh spared (sole.other old rfl rfl))
        (rewrites.reading old fits parentFresh parentPicks)
        (FunctionDecl.allRenamed rewrites old fits.pass.pass methods ?_ methodsFresh methodsPicks)
      intro method member
      obtain ⟨index, there⟩ := List.mem_iff_getElem?.1 member
      exact ⟨_, _, methodsLaid index method there⟩

theorem Stmt.allRenamed (rewrites : Rewrites r chosen rewrite) (old : binder.lexeme = r.old)
    {context : Context} {marks : List Bool} {home : Site} {address : Address} {index : Nat}
    (fits : Fits marks home) :
    ∀ body : List (Stmt Site), Stmt.ListScoped survey context address index body →
      (∀ s ∈ body, s.Sole binder home) →
      (∀ token ∈ Stmt.tokensOfAll body, token.lexeme ≠ r.new) →
      Picks chosen (Stmt.tokensOfAll body) (Stmt.namingsOfAll binder home body) →
      Stmt.AllRenamed r marks body (Stmt.mapAll rewrite id body)
  | [], _, _, _, _ => .nil
  | first :: rest, .cons firstLaid restLaid, sole, fresh, picks => by
      obtain ⟨firstSole, restSole⟩ := List.forall_mem_cons.1 sole
      obtain ⟨firstFresh, restFresh⟩ := List.forall_mem_append.1 fresh
      obtain ⟨firstPicks, restPicks⟩ :=
        picks.split (first.namings_among _) (Stmt.namingsOfAll_among _ rest)
      exact .cons (Stmt.renamed rewrites old fits first firstLaid firstSole firstFresh firstPicks)
        (Stmt.allRenamed rewrites old fits rest restLaid restSole restFresh restPicks)

theorem FunctionDecl.renamed (rewrites : Rewrites r chosen rewrite) (old : binder.lexeme = r.old)
    {context : Context} {marks : List Bool} {home : Site} {address : Address}
    (fits : Fits marks home) :
    ∀ decl : FunctionDecl Site, decl.Scoped survey context address →
      (∀ token ∈ decl.tokens, token.lexeme ≠ r.new) →
      Picks chosen decl.tokens (decl.namings binder home) →
      decl.Renamed r marks (decl.map rewrite id)
  | .mk name params body, .mk _ distinct bodyLaid, fresh, picks => by
      obtain ⟨nameFresh, rest⟩ := List.forall_mem_cons.1 fresh
      obtain ⟨paramsFresh, bodyFresh⟩ := List.forall_mem_append.1 rest
      have bodyAmong : Among binder
          (Stmt.namingsOfAll binder (home.enter (binder ∈ params ++ Stmt.variables body)) body)
          (Stmt.tokensOfAll body) := Stmt.namingsOfAll_among _ body
      obtain ⟨spared, rest⟩ := picks.skip (.append (declaring_among params) bodyAmong)
      obtain ⟨paramsPicks, bodyPicks⟩ := rest.split (declaring_among params) bodyAmong
      have inside := fits.enter (binder ∈ params ++ Stmt.variables body)
      refine .mk _ (rewrites.keeps nameFresh spared) ?_
        (Stmt.allRenamed rewrites old inside body bodyLaid ?_ bodyFresh bodyPicks)
      · rw [List.forall₂_map_right_iff, List.forall₂_same]
        intro param member
        apply rewrites.declaring old inside (paramsFresh param member) paramsPicks member
        intro here
        exact (bodyLaid.sole_binder params distinct here).1 param member
      · intro s member here
        exact (bodyLaid.sole_binder params distinct here).2 s member

theorem FunctionDecl.allRenamed (rewrites : Rewrites r chosen rewrite)
    (old : binder.lexeme = r.old) {marks : List Bool} {home : Site} (fits : Fits marks home) :
    ∀ methods : List (FunctionDecl Site),
      (∀ method ∈ methods, ∃ context address, method.Scoped survey context address) →
      (∀ token ∈ FunctionDecl.tokensOfAll methods, token.lexeme ≠ r.new) →
      Picks chosen (FunctionDecl.tokensOfAll methods)
        (FunctionDecl.namingsOfAll binder home methods) →
      FunctionDecl.AllRenamed r marks methods (FunctionDecl.mapAll rewrite id methods)
  | [], _, _, _ => .nil
  | first :: rest, laid, fresh, picks => by
      obtain ⟨firstFresh, restFresh⟩ := List.forall_mem_append.1 fresh
      obtain ⟨⟨context, address, firstLaid⟩, restLaid⟩ := List.forall_mem_cons.1 laid
      obtain ⟨firstPicks, restPicks⟩ :=
        picks.split (first.namings_among _) (FunctionDecl.namingsOfAll_among _ rest)
      exact .cons (FunctionDecl.renamed rewrites old fits first firstLaid firstFresh firstPicks)
        (FunctionDecl.allRenamed rewrites old fits rest restLaid restFresh restPicks)

end

end Trees

end LoxLang
