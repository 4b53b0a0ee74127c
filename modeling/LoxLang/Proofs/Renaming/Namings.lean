import LoxLang.Proofs.Grammar
import LoxLang.Proofs.TreeTokens
import LoxLang.Scope.Basic

/-!
# The tokens that name a variable

A variable is given by its *binder*, the token that declares it.  The *home* of the
variable is its scope as it is seen from a place: it is told like a site, by the
number of scopes between the place and the scope.  Outside of its scope a variable
has no home.  The tokens that name the variable are its binder and all tokens that
are spelled like the binder and have a site that leads home.
-/

namespace LoxLang

variable {S T : Type}

/-- The variable that a statement declares. -/
def Stmt.declaredVariable : Stmt S → Option Token
  | .var name _ => some name
  | _ => none

/-- The variables declared by some of these statements, but not inside of them. -/
def Stmt.variables (body : List (Stmt S)) : List Token := body.filterMap Stmt.declaredVariable

mutual

/-- The variables and parameters declared in scopes inside a statement. -/
def Stmt.locals : Stmt S → List Token
  | .block body => Stmt.variables body ++ Stmt.localsOfAll body
  | .conditional _ thenBranch none => thenBranch.locals
  | .conditional _ thenBranch (some elseBranch) => thenBranch.locals ++ elseBranch.locals
  | .loop _ body => body.locals
  | .function decl => decl.locals
  | .class _ _ methods => FunctionDecl.localsOfAll methods
  | _ => []

/-- The variables and parameters declared in scopes inside statements. -/
def Stmt.localsOfAll : List (Stmt S) → List Token
  | [] => []
  | first :: rest => first.locals ++ Stmt.localsOfAll rest

/-- The parameters of a function, and the variables declared in its body. -/
def FunctionDecl.locals : FunctionDecl S → List Token
  | .mk _ params body => params ++ (Stmt.variables body ++ Stmt.localsOfAll body)

/-- The variables and parameters declared in methods. -/
def FunctionDecl.localsOfAll : List (FunctionDecl S) → List Token
  | [] => []
  | first :: rest => first.locals ++ FunctionDecl.localsOfAll rest

end

/-- The home of a variable, seen from inside the next scope, which declares the variable or not. -/
def Site.enter (home : Site) (declared : Bool) : Site :=
  match home with
  | some distance => some (distance + 1)
  | none => if declared then some 0 else none

section Namings

variable (binder : Token) (home : Site)

/-- The token at a site, if it names the variable. -/
def reading (site : Site) (token : Token) : List Token :=
  if home.isSome ∧ site = home ∧ token.lexeme = binder.lexeme then [token] else []

/-- The binder, if the names are declared in its scope and it is one of them. -/
def declaring (names : List Token) : List Token :=
  if home = some 0 then names.filter (· = binder) else []

mutual

/-- The tokens in an expression that name the variable. -/
def Expr.namings : Expr Site → List Token
  | .literal _ => []
  | .grouping inner => inner.namings
  | .unary _ operand => operand.namings
  | .binary left _ right => left.namings ++ right.namings
  | .logical left _ right => left.namings ++ right.namings
  | .variable name site => reading binder home site name
  | .assign name site value => reading binder home site name ++ value.namings
  | .call callee _ args => callee.namings ++ Expr.namingsOfEach args
  | .get object _ => object.namings
  | .set object _ value => object.namings ++ value.namings
  | .this _ _ => []
  | .super _ _ _ => []

/-- The tokens in expressions that name the variable. -/
def Expr.namingsOfEach : List (Expr Site) → List Token
  | [] => []
  | first :: rest => first.namings ++ Expr.namingsOfEach rest

end

/-- The tokens that name the variable in an expression, if it is there. -/
def Expr.namingsOfOptional : Option (Expr Site) → List Token
  | none => []
  | some value => value.namings binder home

end Namings

mutual

/-- The tokens in a statement that name the variable. -/
def Stmt.namings (binder : Token) (home : Site) : Stmt Site → List Token
  | .expression value => value.namings binder home
  | .print value => value.namings binder home
  | .var name initializer =>
      declaring binder home [name] ++ Expr.namingsOfOptional binder home initializer
  | .block body => Stmt.namingsOfAll binder (home.enter (binder ∈ Stmt.variables body)) body
  | .conditional condition thenBranch none =>
      condition.namings binder home ++ thenBranch.namings binder home
  | .conditional condition thenBranch (some elseBranch) =>
      condition.namings binder home ++
        (thenBranch.namings binder home ++ elseBranch.namings binder home)
  | .loop condition body => condition.namings binder home ++ body.namings binder home
  | .function decl => decl.namings binder home
  | .return _ value => Expr.namingsOfOptional binder home value
  | .class _ none methods => FunctionDecl.namingsOfAll binder (home.enter false) methods
  | .class _ (some parent) methods =>
      reading binder home parent.site parent.name ++
        FunctionDecl.namingsOfAll binder ((home.enter false).enter false) methods
  | .lost => []

/-- The tokens in statements that name the variable. -/
def Stmt.namingsOfAll (binder : Token) (home : Site) : List (Stmt Site) → List Token
  | [] => []
  | first :: rest => first.namings binder home ++ Stmt.namingsOfAll binder home rest

/-- The tokens in a function that name the variable. -/
def FunctionDecl.namings (binder : Token) (home : Site) : FunctionDecl Site → List Token
  | .mk _ params body =>
      let inside := home.enter (binder ∈ params ++ Stmt.variables body)
      declaring binder inside params ++ Stmt.namingsOfAll binder inside body

/-- The tokens in methods that name the variable. -/
def FunctionDecl.namingsOfAll (binder : Token) (home : Site) : List (FunctionDecl Site) → List Token
  | [] => []
  | first :: rest => first.namings binder home ++ FunctionDecl.namingsOfAll binder home rest

end

/-- The picked ones are some of the tokens, in the same order, and spelled like the binder. -/
structure Among (binder : Token) (picked tokens : List Token) : Prop where
  within : picked.Sublist tokens
  lexeme : ∀ token ∈ picked, token.lexeme = binder.lexeme

namespace Among

variable {binder token : Token} {picked otherPicked tokens others : List Token}

theorem nil : Among binder [] tokens := ⟨List.nil_sublist _, by simp⟩

theorem cons (among : Among binder picked tokens) : Among binder picked (token :: tokens) :=
  ⟨.cons _ among.within, among.lexeme⟩

theorem left (among : Among binder picked tokens) : Among binder picked (tokens ++ others) :=
  ⟨List.sublist_append_of_sublist_left among.within, among.lexeme⟩

theorem append (among : Among binder picked tokens) (other : Among binder otherPicked others) :
    Among binder (picked ++ otherPicked) (tokens ++ others) :=
  ⟨.append among.within other.within, List.forall_mem_append.2 ⟨among.lexeme, other.lexeme⟩⟩

end Among

section Namings

variable {binder : Token} {home : Site}

theorem reading_among (site : Site) (token : Token) :
    Among binder (reading binder home site token) [token] := by
  unfold reading
  split
  · rename_i named
    exact ⟨List.Sublist.refl _, by simpa using named.2.2⟩
  · exact .nil

theorem declaring_among (names : List Token) :
    Among binder (declaring binder home names) names := by
  unfold declaring
  split
  · refine ⟨List.filter_sublist, ?_⟩
    intro token member
    have isBinder := of_decide_eq_true (List.mem_filter.1 member).2
    rw [isBinder]
  · exact .nil

mutual

theorem Expr.namings_among : ∀ e : Expr Site,
    Among binder (e.namings binder home) e.tokens
  | .literal _ => .nil
  | .grouping inner => Expr.namings_among inner
  | .unary _ operand => .cons (Expr.namings_among operand)
  | .binary left _ right | .logical left _ right =>
      .append (Expr.namings_among left)
        (.cons (Expr.namings_among right))
  | .variable name site => reading_among site name
  | .assign name site value =>
      .append (reading_among site name) (Expr.namings_among value)
  | .call callee _ args =>
      .append (Expr.namings_among callee)
        (.left (Expr.namingsOfEach_among args))
  | .get object _ => .left (Expr.namings_among object)
  | .set object _ value =>
      .append (Expr.namings_among object)
        (.cons (Expr.namings_among value))
  | .this _ _ => .nil
  | .super _ _ _ => .nil

theorem Expr.namingsOfEach_among : ∀ args : List (Expr Site),
    Among binder (Expr.namingsOfEach binder home args) (Expr.tokensOfEach args)
  | [] => .nil
  | first :: rest =>
      .append (Expr.namings_among first) (Expr.namingsOfEach_among rest)

end

theorem Expr.namingsOfOptional_among (value : Option (Expr Site)) :
    Among binder (Expr.namingsOfOptional binder home value) (Expr.tokensOfOptional value) := by
  cases value with
  | none => exact .nil
  | some value => exact value.namings_among

mutual

theorem Stmt.namings_among : ∀ (home : Site) (s : Stmt Site),
    Among binder (s.namings binder home) s.tokens
  | _, .expression value => value.namings_among
  | _, .print value => value.namings_among
  | _, .var name initializer =>
      .append (declaring_among [name])
        (Expr.namingsOfOptional_among initializer)
  | _, .block body => Stmt.namingsOfAll_among _ body
  | home, .conditional condition thenBranch none =>
      .append condition.namings_among (Stmt.namings_among home thenBranch)
  | home, .conditional condition thenBranch (some elseBranch) =>
      .append condition.namings_among
        (.append (Stmt.namings_among home thenBranch)
          (Stmt.namings_among home elseBranch))
  | home, .loop condition body =>
      .append condition.namings_among (Stmt.namings_among home body)
  | home, .function decl => FunctionDecl.namings_among home decl
  | _, .return _ value => .cons (Expr.namingsOfOptional_among value)
  | _, .class _ none methods =>
      .cons (FunctionDecl.namingsOfAll_among _ methods)
  | _, .class _ (some parent) methods =>
      .cons
        (.append (reading_among parent.site parent.name)
          (FunctionDecl.namingsOfAll_among _ methods))
  | _, .lost => .nil

theorem Stmt.namingsOfAll_among : ∀ (home : Site) (body : List (Stmt Site)),
    Among binder (Stmt.namingsOfAll binder home body) (Stmt.tokensOfAll body)
  | _, [] => .nil
  | home, first :: rest =>
      .append (Stmt.namings_among home first)
        (Stmt.namingsOfAll_among home rest)

theorem FunctionDecl.namings_among : ∀ (home : Site) (decl : FunctionDecl Site),
    Among binder (decl.namings binder home) decl.tokens
  | _, .mk _ params body =>
      .cons
        (.append (declaring_among params) (Stmt.namingsOfAll_among _ body))

theorem FunctionDecl.namingsOfAll_among : ∀ (home : Site) (methods : List (FunctionDecl Site)),
    Among binder (FunctionDecl.namingsOfAll binder home methods)
      (FunctionDecl.tokensOfAll methods)
  | _, [] => .nil
  | home, first :: rest =>
      .append (FunctionDecl.namings_among home first)
        (FunctionDecl.namingsOfAll_among home rest)

end

end Namings

/-! A variable that is declared in a scope is named there by its binder. -/

section Binders

variable {binder : Token}

theorem mem_declaring {home : Site} {names : List Token} {token : Token} :
    token ∈ declaring binder home names ↔ home = some 0 ∧ token ∈ names ∧ token = binder := by
  unfold declaring
  split <;> simp_all

theorem Stmt.mem_namingsOfAll_of_variables {body : List (Stmt Site)}
    (member : binder ∈ Stmt.variables body) : binder ∈ Stmt.namingsOfAll binder (some 0) body := by
  induction body with
  | nil => simp [Stmt.variables] at member
  | cons first rest induction =>
      rw [Stmt.namingsOfAll, List.mem_append]
      obtain ⟨s, inBody, isBinder⟩ := List.mem_filterMap.1 member
      rcases List.mem_cons.1 inBody with same | later
      · left
        subst same
        cases s with
        | var name initializer =>
            cases isBinder
            exact List.mem_append_left _ (mem_declaring.2 ⟨rfl, by simp⟩)
        | _ => cases isBinder
      · exact .inr (induction (List.mem_filterMap.2 ⟨s, later, isBinder⟩))

mutual

theorem Stmt.mem_namings_of_locals : ∀ s : Stmt Site,
    binder ∈ s.locals → binder ∈ s.namings binder none
  | .block body, member => by
      rw [Stmt.namings]
      by_cases declared : binder ∈ Stmt.variables body
      · simpa [Site.enter, declared] using Stmt.mem_namingsOfAll_of_variables declared
      · have inside : binder ∈ Stmt.localsOfAll body := by
          simpa [Stmt.locals, declared] using member
        simpa [Site.enter, declared] using Stmt.mem_namingsOfAll_of_locals body inside
  | .conditional _ thenBranch none, member => by
      rw [Stmt.namings]
      exact List.mem_append_right _ (Stmt.mem_namings_of_locals thenBranch member)
  | .conditional _ thenBranch (some elseBranch), member => by
      rw [Stmt.namings]
      apply List.mem_append_right
      rcases List.mem_append.1 member with first | second
      · exact List.mem_append_left _ (Stmt.mem_namings_of_locals thenBranch first)
      · exact List.mem_append_right _ (Stmt.mem_namings_of_locals elseBranch second)
  | .loop _ body, member => by
      rw [Stmt.namings]
      exact List.mem_append_right _ (Stmt.mem_namings_of_locals body member)
  | .function decl, member => FunctionDecl.mem_namings_of_locals decl member
  | .class _ none methods, member => FunctionDecl.mem_namingsOfAll_of_locals methods member
  | .class _ (some _) methods, member =>
      List.mem_append_right _ (FunctionDecl.mem_namingsOfAll_of_locals methods member)

theorem Stmt.mem_namingsOfAll_of_locals : ∀ body : List (Stmt Site),
    binder ∈ Stmt.localsOfAll body → binder ∈ Stmt.namingsOfAll binder none body
  | first :: rest, member => by
      rw [Stmt.namingsOfAll, List.mem_append]
      rcases List.mem_append.1 member with here | later
      · exact .inl (Stmt.mem_namings_of_locals first here)
      · exact .inr (Stmt.mem_namingsOfAll_of_locals rest later)

theorem FunctionDecl.mem_namings_of_locals : ∀ decl : FunctionDecl Site,
    binder ∈ decl.locals → binder ∈ decl.namings binder none
  | .mk _ params body, member => by
      rw [FunctionDecl.namings]
      by_cases isParam : binder ∈ params
      · exact List.mem_append_left _ (mem_declaring.2 (by simp [Site.enter, isParam]))
      · apply List.mem_append_right
        by_cases declared : binder ∈ Stmt.variables body
        · simpa [Site.enter, declared] using Stmt.mem_namingsOfAll_of_variables declared
        · have inside : binder ∈ Stmt.localsOfAll body := by
            simpa [FunctionDecl.locals, isParam, declared] using member
          simpa [Site.enter, isParam, declared] using Stmt.mem_namingsOfAll_of_locals body inside

theorem FunctionDecl.mem_namingsOfAll_of_locals : ∀ methods : List (FunctionDecl Site),
    binder ∈ FunctionDecl.localsOfAll methods →
      binder ∈ FunctionDecl.namingsOfAll binder none methods
  | first :: rest, member => by
      rw [FunctionDecl.namingsOfAll, List.mem_append]
      rcases List.mem_append.1 member with here | later
      · exact .inl (FunctionDecl.mem_namings_of_locals first here)
      · exact .inr (FunctionDecl.mem_namingsOfAll_of_locals rest later)

end

end Binders

section Kinds

variable (onToken : Token → Token) (onSite : S → T)

theorem Stmt.variables_map (body : List (Stmt S)) :
    Stmt.variables (body.map (Stmt.map onToken onSite)) = (Stmt.variables body).map onToken := by
  have same (s : Stmt S) : (s.map onToken onSite).declaredVariable =
      s.declaredVariable.map onToken := by
    cases s with
    | conditional condition thenBranch elseBranch => cases elseBranch <;> rfl
    | _ => rfl
  induction body with
  | nil => rfl
  | cons first rest induction =>
      simp only [Stmt.variables, List.map_cons, List.filterMap_cons, same] at induction ⊢
      cases first.declaredVariable with
      | none => exact induction
      | some name => exact congrArg _ induction

mutual

theorem Stmt.locals_map : ∀ s : Stmt S, (s.map onToken onSite).locals = s.locals.map onToken
  | .expression _ | .print _ | .var _ _ | .return _ _ | .lost => by simp [Stmt.map, Stmt.locals]
  | .block body => by
      simp [Stmt.map, Stmt.locals, Stmt.localsOfAll_map body, Stmt.mapAll_eq_map,
        Stmt.variables_map]
  | .conditional _ thenBranch none => Stmt.locals_map thenBranch
  | .conditional _ thenBranch (some elseBranch) => by
      simp [Stmt.map, Stmt.locals, Stmt.locals_map thenBranch, Stmt.locals_map elseBranch]
  | .loop _ body => Stmt.locals_map body
  | .function decl => FunctionDecl.locals_map decl
  | .class _ _ methods => FunctionDecl.localsOfAll_map methods

theorem Stmt.localsOfAll_map : ∀ body : List (Stmt S),
    Stmt.localsOfAll (body.map (Stmt.map onToken onSite)) = (Stmt.localsOfAll body).map onToken
  | [] => rfl
  | first :: rest => by
      simp [Stmt.localsOfAll, Stmt.locals_map first, Stmt.localsOfAll_map rest]

theorem FunctionDecl.locals_map : ∀ decl : FunctionDecl S,
    (decl.map onToken onSite).locals = decl.locals.map onToken
  | .mk _ params body => by
      simp [FunctionDecl.map, FunctionDecl.locals, Stmt.localsOfAll_map body, Stmt.mapAll_eq_map,
        Stmt.variables_map]

theorem FunctionDecl.localsOfAll_map : ∀ methods : List (FunctionDecl S),
    FunctionDecl.localsOfAll (FunctionDecl.mapAll onToken onSite methods) =
      (FunctionDecl.localsOfAll methods).map onToken
  | [] => rfl
  | first :: rest => by
      simp [FunctionDecl.mapAll, FunctionDecl.localsOfAll, FunctionDecl.locals_map first,
        FunctionDecl.localsOfAll_map rest]

end

end Kinds

theorem Stmt.mem_localsOfAll {body : List (Stmt S)} {token : Token} :
    token ∈ Stmt.localsOfAll body ↔ ∃ s ∈ body, token ∈ s.locals := by
  induction body with
  | nil => simp [Stmt.localsOfAll]
  | cons first rest induction => simp [Stmt.localsOfAll, induction]

theorem FunctionDecl.mem_localsOfAll {methods : List (FunctionDecl S)} {token : Token} :
    token ∈ FunctionDecl.localsOfAll methods ↔ ∃ method ∈ methods, token ∈ method.locals := by
  induction methods with
  | nil => simp [FunctionDecl.localsOfAll]
  | cons first rest induction => simp [FunctionDecl.localsOfAll, induction]

/-- A token that declares a variable or a parameter is an identifier. -/
def Stmt.NamesLocals (s : Stmt S) : Prop :=
  (∀ token ∈ s.locals, token.kind = .identifier) ∧
    ∀ token ∈ s.declaredVariable, token.kind = .identifier

theorem Stmt.NamesLocals.body {body : List (Stmt S)} (each : ∀ s ∈ body, s.NamesLocals) :
    ∀ token ∈ Stmt.variables body ++ Stmt.localsOfAll body, token.kind = .identifier := by
  intro token member
  rcases List.mem_append.1 member with declared | inside
  · obtain ⟨s, inBody, isVariable⟩ := List.mem_filterMap.1 declared
    exact (each s inBody).2 token isVariable
  · obtain ⟨s, inBody, isLocal⟩ := Stmt.mem_localsOfAll.1 inside
    exact (each s inBody).1 token isLocal

theorem Stmt.Grammatical.namesLocals {position : Position} {s : Stmt S}
    (grammatical : s.Grammatical position) : s.NamesLocals := by
  induction grammatical with
  | expression | print | «return» => exact ⟨by simp [Stmt.locals], by simp [Stmt.declaredVariable]⟩
  | var isName => exact ⟨by simp [Stmt.locals], by simpa [Stmt.declaredVariable] using isName⟩
  | block _ bodyNames => exact ⟨Stmt.NamesLocals.body bodyNames, by simp [Stmt.declaredVariable]⟩
  | @conditional _ _ _ elseBranch _ _ _ _ thenNames elseNames =>
      refine ⟨?_, by simp [Stmt.declaredVariable]⟩
      cases elseBranch with
      | none => exact thenNames.1
      | some branch =>
          intro token member
          rcases List.mem_append.1 member with first | second
          · exact thenNames.1 token first
          · exact (elseNames branch rfl).1 token second
  | loop _ _ bodyNames => exact ⟨bodyNames.1, by simp [Stmt.declaredVariable]⟩
  | function _ areNames _ _ bodyNames =>
      refine ⟨?_, by simp [Stmt.declaredVariable]⟩
      intro token member
      rcases List.mem_append.1 member with isParam | inside
      · exact areNames token isParam
      · exact Stmt.NamesLocals.body bodyNames token inside
  | «class» _ _ _ methodsNames =>
      refine ⟨?_, by simp [Stmt.declaredVariable]⟩
      intro token member
      obtain ⟨method, inMethods, inside⟩ := FunctionDecl.mem_localsOfAll.1 member
      exact (methodsNames method inMethods).1 token inside

end LoxLang
