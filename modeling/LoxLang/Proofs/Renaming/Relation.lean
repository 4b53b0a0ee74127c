import LoxLang.Proofs.TreeTokens
import LoxLang.Scope.Basic
import Mathlib.Data.List.Forall2

/-!
# Renamed trees

A new name takes the place of an old one, for the variables of some scopes only:
those are marked.  Two trees are related if they have the same shape and the same
sites, and each name in the second tree is the one in the first, or the new one if
the scope to which its site leads is marked and it is the old one there.
-/

namespace LoxLang

/-- One name takes the place of another.  The relation `near` says what two tokens have in common
besides their lexemes. -/
structure Renaming where
  old : String
  new : String
  near : Token → Token → Prop
  kind : ∀ {token twin}, near token twin → twin.kind = token.kind
  /-- Neither name is that of an object or a superclass. -/
  ordinary : ∀ name ∈ ["this", "super"], name ≠ old ∧ name ≠ new

/-- Whether the scope to which a site leads is marked.  The marks are those of the scopes around,
innermost first. -/
def markedAt (marks : List Bool) : Site → Bool
  | none => false
  | some distance => marks.getD distance false

/-- No scope is marked. -/
def Unmarked (marks : List Bool) : Prop := ∀ mark ∈ marks, mark = false

theorem Unmarked.markedAt {marks : List Bool} (unmarked : Unmarked marks) (site : Site) :
    markedAt marks site = false := by
  cases site with
  | none => rfl
  | some distance =>
      simp only [LoxLang.markedAt, List.getD_eq_getElem?_getD]
      cases found : marks[distance]? with
      | none => rfl
      | some mark => exact unmarked mark (List.mem_of_getElem? found)

theorem Unmarked.cons {marks : List Bool} (unmarked : Unmarked marks) :
    Unmarked (false :: marks) := by
  intro mark member
  rcases List.mem_cons.1 member with same | later
  · exact same
  · exact unmarked mark later

namespace Renaming

variable (r : Renaming) {marked : Bool} {name other : String} {token twin : Token}

/-- The name in a scope that is marked or not. -/
def apply (marked : Bool) (name : String) : String :=
  if marked = true ∧ name = r.old then r.new else name

@[simp] theorem apply_false (name : String) : r.apply false name = name := by
  simp [apply]

theorem apply_of_ne (distinct : name ≠ r.old) : r.apply marked name = name := by
  simp [apply, distinct]

theorem apply_this : r.apply marked "this" = "this" :=
  r.apply_of_ne (r.ordinary "this" (by decide)).1

theorem apply_super : r.apply marked "super" = "super" :=
  r.apply_of_ne (r.ordinary "super" (by decide)).1

/-- The name may stand in a scope: the new name is not in use where a scope is marked. -/
def Allows (marked : Bool) (name : String) : Prop := marked = true → name ≠ r.new

theorem allows_this : r.Allows marked "this" :=
  fun _ => (r.ordinary "this" (by decide)).2

theorem allows_super : r.Allows marked "super" :=
  fun _ => (r.ordinary "super" (by decide)).2

/-- Names that may stand in the same scope are not confused. -/
theorem apply_eq_iff (nameAllowed : r.Allows marked name) (otherAllowed : r.Allows marked other) :
    r.apply marked name = r.apply marked other ↔ name = other := by
  constructor
  · intro same
    unfold apply at same
    cases marked with
    | false => simpa using same
    | true =>
        have nameNotNew := nameAllowed rfl
        have otherNotNew := otherAllowed rfl
        split at same <;> split at same
        · rename_i first second
          exact first.2.trans second.2.symm
        · exact absurd same.symm otherNotNew
        · exact absurd same nameNotNew
        · exact same
  · intro same
    rw [same]

/-- The twin is the token, renamed if its scope is marked. -/
structure Names (marked : Bool) (token twin : Token) : Prop where
  near : r.near token twin
  lexeme : twin.lexeme = r.apply marked token.lexeme
  allowed : r.Allows marked token.lexeme

/-- The twin is not renamed. -/
abbrev Keeps (token twin : Token) : Prop := r.Names false token twin

/-- The twin is not renamed, nor would it have to be if its scope is marked. -/
structure Declares (marked : Bool) (token twin : Token) : Prop where
  keeps : r.Keeps token twin
  names : r.Names marked token twin

variable {r}

theorem Keeps.lexeme_eq (keeps : r.Keeps token twin) : twin.lexeme = token.lexeme :=
  keeps.lexeme.trans (r.apply_false _)

theorem keeps_iff : r.Keeps token twin ↔ r.near token twin ∧ twin.lexeme = token.lexeme := by
  constructor
  · intro keeps
    exact ⟨keeps.near, keeps.lexeme_eq⟩
  · rintro ⟨near, same⟩
    exact ⟨near, same.trans (r.apply_false _).symm, nofun⟩

end Renaming

mutual

/-- The second expression is the first one renamed, among scopes with these marks. -/
inductive Expr.Renamed (r : Renaming) (marks : List Bool) : Expr Site → Expr Site → Prop where
  | literal {value : Literal} : Expr.Renamed r marks (.literal value) (.literal value)
  | grouping {inner twin : Expr Site} : Expr.Renamed r marks inner twin →
      Expr.Renamed r marks (.grouping inner) (.grouping twin)
  | unary {op opTwin : Token} {operand twin : Expr Site} : r.Keeps op opTwin →
      Expr.Renamed r marks operand twin →
      Expr.Renamed r marks (.unary op operand) (.unary opTwin twin)
  | binary {left leftTwin right rightTwin : Expr Site} {op opTwin : Token} : r.Keeps op opTwin →
      Expr.Renamed r marks left leftTwin → Expr.Renamed r marks right rightTwin →
      Expr.Renamed r marks (.binary left op right) (.binary leftTwin opTwin rightTwin)
  | logical {left leftTwin right rightTwin : Expr Site} {op opTwin : Token} : r.Keeps op opTwin →
      Expr.Renamed r marks left leftTwin → Expr.Renamed r marks right rightTwin →
      Expr.Renamed r marks (.logical left op right) (.logical leftTwin opTwin rightTwin)
  | variable {name nameTwin : Token} {site : Site} :
      r.Names (markedAt marks site) name nameTwin →
      Expr.Renamed r marks (.variable name site) (.variable nameTwin site)
  | assign {name nameTwin : Token} {site : Site} {value twin : Expr Site} :
      r.Names (markedAt marks site) name nameTwin → Expr.Renamed r marks value twin →
      Expr.Renamed r marks (.assign name site value) (.assign nameTwin site twin)
  | call {callee calleeTwin : Expr Site} {paren parenTwin : Token}
      {args argsTwin : List (Expr Site)} : r.Keeps paren parenTwin →
      Expr.Renamed r marks callee calleeTwin → Expr.AllRenamed r marks args argsTwin →
      Expr.Renamed r marks (.call callee paren args) (.call calleeTwin parenTwin argsTwin)
  | get {object objectTwin : Expr Site} {name nameTwin : Token} : r.Keeps name nameTwin →
      Expr.Renamed r marks object objectTwin →
      Expr.Renamed r marks (.get object name) (.get objectTwin nameTwin)
  | set {object objectTwin value valueTwin : Expr Site} {name nameTwin : Token} :
      r.Keeps name nameTwin → Expr.Renamed r marks object objectTwin →
      Expr.Renamed r marks value valueTwin →
      Expr.Renamed r marks (.set object name value) (.set objectTwin nameTwin valueTwin)
  | this {keyword keywordTwin : Token} {site : Site} :
      r.Names (markedAt marks site) keyword keywordTwin →
      Expr.Renamed r marks (.this keyword site) (.this keywordTwin site)
  | super {keyword keywordTwin method methodTwin : Token} {site : Site} :
      r.Names (markedAt marks site) keyword keywordTwin → r.Keeps method methodTwin →
      Expr.Renamed r marks (.super keyword method site) (.super keywordTwin methodTwin site)

/-- The expressions of the second list are those of the first one renamed. -/
inductive Expr.AllRenamed (r : Renaming) (marks : List Bool) :
    List (Expr Site) → List (Expr Site) → Prop where
  | nil : Expr.AllRenamed r marks [] []
  | cons {first firstTwin : Expr Site} {rest restTwin : List (Expr Site)} :
      Expr.Renamed r marks first firstTwin → Expr.AllRenamed r marks rest restTwin →
      Expr.AllRenamed r marks (first :: rest) (firstTwin :: restTwin)

end

/-- The second expression is the first one renamed, or there is none on either side. -/
inductive Expr.OptionRenamed (r : Renaming) (marks : List Bool) :
    Option (Expr Site) → Option (Expr Site) → Prop where
  | none : Expr.OptionRenamed r marks none none
  | some {value twin : Expr Site} : Expr.Renamed r marks value twin →
      Expr.OptionRenamed r marks (some value) (some twin)

mutual

/-- The second statement is the first one renamed, among scopes with these marks. -/
inductive Stmt.Renamed (r : Renaming) : List Bool → Stmt Site → Stmt Site → Prop where
  | expression {marks : List Bool} {value twin : Expr Site} : value.Renamed r marks twin →
      Stmt.Renamed r marks (.expression value) (.expression twin)
  | print {marks : List Bool} {value twin : Expr Site} : value.Renamed r marks twin →
      Stmt.Renamed r marks (.print value) (.print twin)
  | var {marks : List Bool} {name nameTwin : Token} {initializer twin : Option (Expr Site)} :
      r.Names (markedAt marks (some 0)) name nameTwin →
      Expr.OptionRenamed r marks initializer twin →
      Stmt.Renamed r marks (.var name initializer) (.var nameTwin twin)
  | block {marks : List Bool} {body twin : List (Stmt Site)} (mark : Bool) :
      Stmt.AllRenamed r (mark :: marks) body twin →
      Stmt.Renamed r marks (.block body) (.block twin)
  | conditional {marks : List Bool} {condition conditionTwin : Expr Site}
      {branch branchTwin : Stmt Site} : condition.Renamed r marks conditionTwin →
      Stmt.Renamed r marks branch branchTwin →
      Stmt.Renamed r marks (.conditional condition branch none)
        (.conditional conditionTwin branchTwin none)
  | conditionalElse {marks : List Bool} {condition conditionTwin : Expr Site}
      {branch branchTwin other otherTwin : Stmt Site} :
      condition.Renamed r marks conditionTwin → Stmt.Renamed r marks branch branchTwin →
      Stmt.Renamed r marks other otherTwin →
      Stmt.Renamed r marks (.conditional condition branch (some other))
        (.conditional conditionTwin branchTwin (some otherTwin))
  | loop {marks : List Bool} {condition conditionTwin : Expr Site} {body twin : Stmt Site} :
      condition.Renamed r marks conditionTwin → Stmt.Renamed r marks body twin →
      Stmt.Renamed r marks (.loop condition body) (.loop conditionTwin twin)
  | function {marks : List Bool} {decl twin : FunctionDecl Site} :
      r.Declares (markedAt marks (some 0)) decl.name twin.name →
      FunctionDecl.Renamed r marks decl twin →
      Stmt.Renamed r marks (.function decl) (.function twin)
  | return {marks : List Bool} {keyword keywordTwin : Token} {value twin : Option (Expr Site)} :
      r.Keeps keyword keywordTwin → Expr.OptionRenamed r marks value twin →
      Stmt.Renamed r marks (.return keyword value) (.return keywordTwin twin)
  /-- The scope of `this` is never marked. -/
  | plainClass {marks : List Bool} {name nameTwin : Token}
      {methods methodsTwin : List (FunctionDecl Site)} :
      r.Declares (markedAt marks (some 0)) name nameTwin →
      FunctionDecl.AllRenamed r (false :: marks) methods methodsTwin →
      Stmt.Renamed r marks (.class name none methods) (.class nameTwin none methodsTwin)
  /-- Nor is that of `super`. -/
  | derivedClass {marks : List Bool} {name nameTwin parent parentTwin : Token} {site : Site}
      {methods methodsTwin : List (FunctionDecl Site)} :
      r.Declares (markedAt marks (some 0)) name nameTwin →
      r.Names (markedAt marks site) parent parentTwin →
      FunctionDecl.AllRenamed r (false :: false :: marks) methods methodsTwin →
      Stmt.Renamed r marks (.class name (some ⟨parent, site⟩) methods)
        (.class nameTwin (some ⟨parentTwin, site⟩) methodsTwin)
  | lost {marks : List Bool} : Stmt.Renamed r marks .lost .lost

/-- The statements of the second list are those of the first one renamed. -/
inductive Stmt.AllRenamed (r : Renaming) :
    List Bool → List (Stmt Site) → List (Stmt Site) → Prop where
  | nil {marks : List Bool} : Stmt.AllRenamed r marks [] []
  | cons {marks : List Bool} {first firstTwin : Stmt Site} {rest restTwin : List (Stmt Site)} :
      Stmt.Renamed r marks first firstTwin → Stmt.AllRenamed r marks rest restTwin →
      Stmt.AllRenamed r marks (first :: rest) (firstTwin :: restTwin)

/-- The second function is the first one renamed.  The parameters and the body share a scope. -/
inductive FunctionDecl.Renamed (r : Renaming) :
    List Bool → FunctionDecl Site → FunctionDecl Site → Prop where
  | mk {marks : List Bool} {name nameTwin : Token} {params paramsTwin : List Token}
      {body twin : List (Stmt Site)} (mark : Bool) : r.Keeps name nameTwin →
      List.Forall₂ (r.Names mark) params paramsTwin →
      Stmt.AllRenamed r (mark :: marks) body twin →
      FunctionDecl.Renamed r marks ⟨name, params, body⟩ ⟨nameTwin, paramsTwin, twin⟩

/-- The functions of the second list are those of the first one renamed. -/
inductive FunctionDecl.AllRenamed (r : Renaming) :
    List Bool → List (FunctionDecl Site) → List (FunctionDecl Site) → Prop where
  | nil {marks : List Bool} : FunctionDecl.AllRenamed r marks [] []
  | cons {marks : List Bool} {first firstTwin : FunctionDecl Site}
      {rest restTwin : List (FunctionDecl Site)} : FunctionDecl.Renamed r marks first firstTwin →
      FunctionDecl.AllRenamed r marks rest restTwin →
      FunctionDecl.AllRenamed r marks (first :: rest) (firstTwin :: restTwin)

end

theorem FunctionDecl.Renamed.name {r : Renaming} {marks : List Bool}
    {decl twin : FunctionDecl Site} (renamed : decl.Renamed r marks twin) :
    r.Keeps decl.name twin.name := by
  cases renamed with
  | mk mark keeps params body => exact keeps

theorem FunctionDecl.Renamed.params_length {r : Renaming} {marks : List Bool}
    {decl twin : FunctionDecl Site} (renamed : decl.Renamed r marks twin) :
    twin.params.length = decl.params.length := by
  cases renamed with
  | mk mark keeps params => exact params.length_eq.symm

/-! Where no scope is marked nothing is renamed, and the trees differ only in how near their tokens
are. -/

section Unmarked

variable {r : Renaming} {marks : List Bool} {rewrite : Token → Token} {token : Token}

/-- The token keeps its lexeme, and stays near. -/
abbrev Renaming.Spares (r : Renaming) (rewrite : Token → Token) (token : Token) : Prop :=
  r.Keeps token (rewrite token)

theorem Renaming.Spares.names (spares : r.Spares rewrite token) (unmarked : Unmarked marks)
    (site : Site) : r.Names (markedAt marks site) token (rewrite token) := by
  rw [unmarked.markedAt]
  exact spares

theorem Renaming.Spares.declares (spares : r.Spares rewrite token) (unmarked : Unmarked marks) :
    r.Declares (markedAt marks (some 0)) token (rewrite token) :=
  ⟨spares, spares.names unmarked _⟩

mutual

theorem Expr.Renamed.spared (unmarked : Unmarked marks) : ∀ e : Expr Site,
    (∀ token ∈ e.tokens, r.Spares rewrite token) → e.Renamed r marks (e.map rewrite id)
  | .literal _, _ => .literal
  | .grouping inner, spares => .grouping (.spared unmarked inner spares)
  | .unary op operand, spares => by
      obtain ⟨opSpared, operandSpared⟩ := List.forall_mem_cons.1 spares
      exact .unary opSpared (.spared unmarked operand operandSpared)
  | .binary left op right, spares => by
      obtain ⟨leftSpared, rest⟩ := List.forall_mem_append.1 spares
      obtain ⟨opSpared, rightSpared⟩ := List.forall_mem_cons.1 rest
      exact .binary opSpared (.spared unmarked left leftSpared)
        (.spared unmarked right rightSpared)
  | .logical left op right, spares => by
      obtain ⟨leftSpared, rest⟩ := List.forall_mem_append.1 spares
      obtain ⟨opSpared, rightSpared⟩ := List.forall_mem_cons.1 rest
      exact .logical opSpared (.spared unmarked left leftSpared)
        (.spared unmarked right rightSpared)
  | .variable name site, spares =>
      .variable ((spares name (List.mem_singleton_self name)).names unmarked site)
  | .assign name site value, spares => by
      obtain ⟨nameSpared, valueSpared⟩ := List.forall_mem_cons.1 spares
      exact .assign (nameSpared.names unmarked site) (.spared unmarked value valueSpared)
  | .call callee paren args, spares => by
      obtain ⟨calleeSpared, rest⟩ := List.forall_mem_append.1 spares
      obtain ⟨argsSpared, parenSpared⟩ := List.forall_mem_append.1 rest
      exact .call (parenSpared paren (List.mem_singleton_self paren))
        (.spared unmarked callee calleeSpared) (Expr.AllRenamed.spared unmarked args argsSpared)
  | .get object name, spares => by
      obtain ⟨objectSpared, nameSpared⟩ := List.forall_mem_append.1 spares
      exact .get (nameSpared name (List.mem_singleton_self name))
        (.spared unmarked object objectSpared)
  | .set object name value, spares => by
      obtain ⟨objectSpared, rest⟩ := List.forall_mem_append.1 spares
      obtain ⟨nameSpared, valueSpared⟩ := List.forall_mem_cons.1 rest
      exact .set nameSpared (.spared unmarked object objectSpared)
        (.spared unmarked value valueSpared)
  | .this keyword site, spares =>
      .this ((spares keyword (List.mem_singleton_self keyword)).names unmarked site)
  | .super keyword method site, spares => by
      obtain ⟨keywordSpared, rest⟩ := List.forall_mem_cons.1 spares
      exact .super (keywordSpared.names unmarked site)
        (rest method (List.mem_singleton_self method))

theorem Expr.AllRenamed.spared (unmarked : Unmarked marks) : ∀ args : List (Expr Site),
    (∀ token ∈ Expr.tokensOfEach args, r.Spares rewrite token) →
      Expr.AllRenamed r marks args (Expr.mapEach rewrite id args)
  | [], _ => .nil
  | first :: rest, spares => by
      obtain ⟨firstSpared, restSpared⟩ := List.forall_mem_append.1 spares
      exact .cons (Expr.Renamed.spared unmarked first firstSpared)
        (.spared unmarked rest restSpared)

end

theorem Expr.OptionRenamed.spared (unmarked : Unmarked marks) (value : Option (Expr Site))
    (spares : ∀ token ∈ Expr.tokensOfOptional value, r.Spares rewrite token) :
    Expr.OptionRenamed r marks value (value.map (Expr.map rewrite id)) := by
  cases value with
  | none => exact .none
  | some value => exact .some (Expr.Renamed.spared unmarked value spares)

mutual

theorem Stmt.Renamed.spared {marks : List Bool} (unmarked : Unmarked marks) : ∀ s : Stmt Site,
    (∀ token ∈ s.tokens, r.Spares rewrite token) → s.Renamed r marks (s.map rewrite id)
  | .expression value, spares => .expression (.spared unmarked value spares)
  | .print value, spares => .print (.spared unmarked value spares)
  | .var name initializer, spares => by
      obtain ⟨nameSpared, valueSpared⟩ := List.forall_mem_cons.1 spares
      exact .var (nameSpared.names unmarked _) (.spared unmarked initializer valueSpared)
  | .block body, spares => .block false (Stmt.AllRenamed.spared unmarked.cons body spares)
  | .conditional condition branch none, spares => by
      obtain ⟨conditionSpared, branchSpared⟩ := List.forall_mem_append.1 spares
      exact .conditional (.spared unmarked condition conditionSpared)
        (.spared unmarked branch branchSpared)
  | .conditional condition branch (some other), spares => by
      obtain ⟨conditionSpared, rest⟩ := List.forall_mem_append.1 spares
      obtain ⟨branchSpared, otherSpared⟩ := List.forall_mem_append.1 rest
      exact .conditionalElse (.spared unmarked condition conditionSpared)
        (.spared unmarked branch branchSpared) (.spared unmarked other otherSpared)
  | .loop condition body, spares => by
      obtain ⟨conditionSpared, bodySpared⟩ := List.forall_mem_append.1 spares
      exact .loop (.spared unmarked condition conditionSpared) (.spared unmarked body bodySpared)
  | .function (.mk name params body), spares =>
      .function ((spares name List.mem_cons_self).declares unmarked)
        (FunctionDecl.Renamed.spared unmarked ⟨name, params, body⟩ spares)
  | .return keyword value, spares => by
      obtain ⟨keywordSpared, valueSpared⟩ := List.forall_mem_cons.1 spares
      exact .return keywordSpared (.spared unmarked value valueSpared)
  | .class name none methods, spares => by
      obtain ⟨nameSpared, methodsSpared⟩ := List.forall_mem_cons.1 spares
      exact .plainClass (nameSpared.declares unmarked)
        (FunctionDecl.AllRenamed.spared unmarked.cons methods methodsSpared)
  | .class name (some ⟨parent, site⟩) methods, spares => by
      obtain ⟨nameSpared, rest⟩ := List.forall_mem_cons.1 spares
      obtain ⟨parentSpared, methodsSpared⟩ := List.forall_mem_cons.1 rest
      exact .derivedClass (nameSpared.declares unmarked) (parentSpared.names unmarked site)
        (FunctionDecl.AllRenamed.spared unmarked.cons.cons methods methodsSpared)
  | .lost, _ => .lost

theorem Stmt.AllRenamed.spared {marks : List Bool} (unmarked : Unmarked marks) :
    ∀ body : List (Stmt Site), (∀ token ∈ Stmt.tokensOfAll body, r.Spares rewrite token) →
      Stmt.AllRenamed r marks body (Stmt.mapAll rewrite id body)
  | [], _ => .nil
  | first :: rest, spares => by
      obtain ⟨firstSpared, restSpared⟩ := List.forall_mem_append.1 spares
      exact .cons (Stmt.Renamed.spared unmarked first firstSpared)
        (.spared unmarked rest restSpared)

theorem FunctionDecl.Renamed.spared {marks : List Bool} (unmarked : Unmarked marks) :
    ∀ decl : FunctionDecl Site, (∀ token ∈ decl.tokens, r.Spares rewrite token) →
      decl.Renamed r marks (decl.map rewrite id)
  | .mk name params body, spares => by
      obtain ⟨nameSpared, rest⟩ := List.forall_mem_cons.1 spares
      obtain ⟨paramsSpared, bodySpared⟩ := List.forall_mem_append.1 rest
      refine .mk false nameSpared ?_ (Stmt.AllRenamed.spared unmarked.cons body bodySpared)
      rw [List.forall₂_map_right_iff, List.forall₂_same]
      exact paramsSpared

theorem FunctionDecl.AllRenamed.spared {marks : List Bool} (unmarked : Unmarked marks) :
    ∀ methods : List (FunctionDecl Site),
      (∀ token ∈ FunctionDecl.tokensOfAll methods, r.Spares rewrite token) →
      FunctionDecl.AllRenamed r marks methods (FunctionDecl.mapAll rewrite id methods)
  | [], _ => .nil
  | first :: rest, spares => by
      obtain ⟨firstSpared, restSpared⟩ := List.forall_mem_append.1 spares
      exact .cons (FunctionDecl.Renamed.spared unmarked first firstSpared)
        (.spared unmarked rest restSpared)

end

end Unmarked

end LoxLang
