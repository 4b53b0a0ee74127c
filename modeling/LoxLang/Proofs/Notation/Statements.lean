import LoxLang.Proofs.Notation.Expressions

/-!
# Statements read back

A statement that obeys the grammar is read back from its nested list, as its expressions are.
Whether a part was left out is told by the number of items, except for the superclass of a class:
there is one just if the sign `<` follows the name, since a method is a list and no word.
-/

namespace LoxLang

open NestedList

variable {S : Type}

/-! ## One kind of statement at a time -/

/-- The nested list of a statement is told by its text, and it tells the statement, apart from
marks and sites. -/
structure Stmt.ReadsBack (s : Stmt S) : Prop where
  solid : s.nested.Solid
  read : s.nested.read.stmt = some s.unmarked

namespace Stmt.ReadsBack

-- How one kind of statement is written and read is computed; how its parts and words are read is
-- given.
attribute [local simp] Stmt.nested Stmt.map readEach stmtWith

/-- What is added for an expression that may be left out. -/
theorem solid_nestedOptional {value : Option (Expr S)}
    (back : ∀ result ∈ value, result.ReadsBack) :
    ∀ item ∈ Expr.nestedOptional value, item.Solid := by
  cases value with
  | none => simp [Expr.nestedOptional]
  | some value => simpa [Expr.nestedOptional] using (back value rfl).solid

theorem solid_nestedAll {body : List (Stmt S)} (back : ∀ inner ∈ body, inner.ReadsBack) :
    ∀ item ∈ Stmt.nestedAll body, item.Solid := by
  rw [Stmt.nestedAll_eq_map]
  exact List.forall_mem_map.2 fun inner member => (back inner member).solid

theorem mapM_nestedAll {body : List (Stmt S)} (back : ∀ inner ∈ body, inner.ReadsBack) :
    (readEach (Stmt.nestedAll body)).mapM Reading.stmt = some (body.map Stmt.unmarked) := by
  rw [Stmt.nestedAll_eq_map]
  exact mapM_readEach fun inner member => (back inner member).read

section Parts

variable {value : Expr S} (back : value.ReadsBack)

include back

theorem expression : (Stmt.expression value).ReadsBack where
  solid := .of_head (by decide) (by simpa using back.solid)
  read := by simp [back.read]

theorem print : (Stmt.print value).ReadsBack where
  solid := .of_head (by decide) (by simpa using back.solid)
  read := by simp [back.read]

theorem loop {body : Stmt S} (bodyBack : body.ReadsBack) : (Stmt.loop value body).ReadsBack where
  solid := .of_head (by decide) (by simpa using ⟨back.solid, bodyBack.solid⟩)
  read := by simp [back.read, bodyBack.read]

theorem conditional {thenBranch : Stmt S} {elseBranch : Option (Stmt S)}
    (thenBack : thenBranch.ReadsBack) (elseBack : ∀ branch ∈ elseBranch, branch.ReadsBack) :
    (Stmt.conditional value thenBranch elseBranch).ReadsBack := by
  cases elseBranch with
  | none =>
      constructor
      · exact .of_head (by decide) (by simpa using ⟨back.solid, thenBack.solid⟩)
      · simp [back.read, thenBack.read]
  | some branch =>
      have branchBack := elseBack branch rfl
      constructor
      · exact .of_head (by decide)
          (by simpa using ⟨back.solid, thenBack.solid, branchBack.solid⟩)
      · simp [back.read, thenBack.read, branchBack.read]

end Parts

theorem var {name : Token} {initializer : Option (Expr S)} (told : name.IsTold)
    (back : ∀ value ∈ initializer, value.ReadsBack) : (Stmt.var name initializer).ReadsBack where
  solid := .of_head (by decide)
    (List.forall_mem_cons.2 ⟨.word told.solid, solid_nestedOptional back⟩)
  read := by
    cases initializer with
    | none => simp [Expr.nestedOptional, told.told]
    | some value => simp [Expr.nestedOptional, told.told, (back value rfl).read]

theorem «return» {keyword : Token} {value : Option (Expr S)} (spelled : keyword.Spelled)
    (isReturn : keyword.kind = .kwReturn) (back : ∀ result ∈ value, result.ReadsBack) :
    (Stmt.return keyword value).ReadsBack where
  solid := .of_head (by decide) (solid_nestedOptional back)
  read := by
    have returnTold : Token.ofSpelling "return" = keyword.unmarked :=
      spelled.ofSpelling_keyword (by simp [isReturn, TokenKind.keywords])
    cases value with
    | none => simp [Expr.nestedOptional, returnTold]
    | some value => simp [Expr.nestedOptional, returnTold, (back value rfl).read]

theorem block {body : List (Stmt S)} (back : ∀ inner ∈ body, inner.ReadsBack) :
    (Stmt.block body).ReadsBack where
  solid := .of_head (by decide) (solid_nestedAll back)
  read := by simp [mapM_nestedAll back, Stmt.mapAll_eq_map]

theorem function {name : Token} {params : List Token} {body : List (Stmt S)} (told : name.IsTold)
    (paramsTold : ∀ param ∈ params, param.IsTold) (back : ∀ inner ∈ body, inner.ReadsBack) :
    (Stmt.function ⟨name, params, body⟩).ReadsBack where
  solid := by
    have paramsSolid : Solid (.list (params.map fun param => .word param.lexeme)) :=
      .list (List.forall_mem_map.2 fun param member => .word (paramsTold param member).solid)
    exact .of_head (by decide) (List.forall_mem_cons.2
      ⟨.word told.solid, List.forall_mem_cons.2 ⟨paramsSolid, solid_nestedAll back⟩⟩)
  read := by
    have words : (NestedList.list (params.map fun param => .word param.lexeme)).read.words =
        some (params.map Token.lexeme) :=
      mapM_readEach fun param _ => read_word param.lexeme
    have tokens : (params.map Token.lexeme).map Token.ofSpelling = params.map Token.unmarked := by
      rw [List.map_map]
      exact List.map_congr_left fun param member => (paramsTold param member).told
    simp [FunctionDecl.nested, FunctionDecl.map, Stmt.mapAll_eq_map, words, tokens, told.told,
      mapM_nestedAll back]

theorem solid_methods {methods : List (FunctionDecl S)}
    (back : ∀ method ∈ methods, (Stmt.function method).ReadsBack) :
    ∀ item ∈ FunctionDecl.nestedAll methods, item.Solid := by
  rw [FunctionDecl.nestedAll_eq_map]
  exact List.forall_mem_map.2 fun method member => (back method member).solid

theorem methodsOf_nestedAll {methods : List (FunctionDecl S)}
    (back : ∀ method ∈ methods, (Stmt.function method).ReadsBack) :
    methodsOf (readEach (FunctionDecl.nestedAll methods)) =
      some (methods.map FunctionDecl.unmarked) := by
  rw [FunctionDecl.nestedAll_eq_map, methodsOf]
  refine mapM_readEach fun method member => ?_
  have methodRead : method.nested.read.stmt = some (.function method.unmarked) :=
    (back method member).read
  rw [methodRead, Option.bind_some, asFunction]

/-- A method is no word. -/
theorem head_methods (methods : List (FunctionDecl S)) :
    (readEach (FunctionDecl.nestedAll methods)).head?.bind Reading.word = none := by
  cases methods with
  | nil => simp [FunctionDecl.nestedAll]
  | cons method _ =>
      cases method
      rfl

theorem «class» {name : Token} {superclass : Option (Superclass S)}
    {methods : List (FunctionDecl S)} (told : name.IsTold)
    (superTold : ∀ parent ∈ superclass, parent.name.IsTold)
    (back : ∀ method ∈ methods, (Stmt.function method).ReadsBack) :
    (Stmt.class name superclass methods).ReadsBack := by
  cases superclass with
  | none =>
      constructor
      · exact .of_head (by decide) (List.forall_mem_cons.2 ⟨.word told.solid, solid_methods back⟩)
      · simp [Superclass.nested, FunctionDecl.mapAll_eq_map, classWith, head_methods,
          methodsOf_nestedAll back, told.told]
  | some parent =>
      have parentTold := superTold parent rfl
      constructor
      · exact .of_head (by decide) (List.forall_mem_cons.2
          ⟨.word told.solid, List.forall_mem_cons.2 ⟨.word (isSolid_of_head (by decide)),
            List.forall_mem_cons.2 ⟨.word parentTold.solid, solid_methods back⟩⟩⟩)
      · simp [Superclass.nested, Superclass.map, FunctionDecl.mapAll_eq_map, classWith,
          methodsOf_nestedAll back, told.told, parentTold.told]

end Stmt.ReadsBack

/-! ## Every statement -/

theorem Expr.Grammatical.optional_readsBack {value : Option (Expr S)}
    (grammatical : ∀ result ∈ value, result.Grammatical)
    (spelled : ∀ token ∈ Expr.tokensOfOptional value, token.Spelled)
    (plain : ∀ literal ∈ Expr.literalsOfOptional value, literal.Plain) :
    ∀ result ∈ value, result.ReadsBack := by
  rintro result rfl
  exact (grammatical result rfl).readsBack spelled plain

/-- Every statement that obeys the grammar is read back, if its tokens come from a text and its
literals are told by their texts. -/
theorem Stmt.Grammatical.readsBack {position : Position} {s : Stmt S}
    (grammatical : s.Grammatical position) (spelled : ∀ token ∈ s.tokens, token.Spelled)
    (plain : ∀ literal ∈ s.literals, literal.Plain) : s.ReadsBack := by
  induction grammatical with
  | expression value => exact .expression (value.readsBack spelled plain)
  | print value => exact .print (value.readsBack spelled plain)
  | var isName initializer =>
      obtain ⟨name, initializerSpelled⟩ := List.forall_mem_cons.1 spelled
      exact .var (name.isTold_name isName)
        (Expr.Grammatical.optional_readsBack initializer initializerSpelled plain)
  | «return» isReturn value =>
      obtain ⟨keyword, valueSpelled⟩ := List.forall_mem_cons.1 spelled
      exact .return keyword isReturn
        (Expr.Grammatical.optional_readsBack value valueSpelled plain)
  | block _ back =>
      rw [Stmt.tokens, Stmt.tokensOfAll_eq_flatMap, List.forall_mem_flatMap] at spelled
      rw [Stmt.literals, Stmt.literalsOfAll_eq_flatMap, List.forall_mem_flatMap] at plain
      exact .block fun inner member => back inner member (spelled inner member) (plain inner member)
  | loop condition _ back =>
      obtain ⟨conditionSpelled, bodySpelled⟩ := List.forall_mem_append.1 spelled
      obtain ⟨conditionPlain, bodyPlain⟩ := List.forall_mem_append.1 plain
      exact .loop (condition.readsBack conditionSpelled conditionPlain) (back bodySpelled bodyPlain)
  | @conditional _ _ _ elseBranch condition _ _ _ thenBack elseBack =>
      cases elseBranch with
      | none =>
          obtain ⟨conditionSpelled, thenSpelled⟩ := List.forall_mem_append.1 spelled
          obtain ⟨conditionPlain, thenPlain⟩ := List.forall_mem_append.1 plain
          exact .conditional (condition.readsBack conditionSpelled conditionPlain)
            (thenBack thenSpelled thenPlain) (by simp)
      | some branch =>
          obtain ⟨conditionSpelled, more⟩ := List.forall_mem_append.1 spelled
          obtain ⟨thenSpelled, elseSpelled⟩ := List.forall_mem_append.1 more
          obtain ⟨conditionPlain, morePlain⟩ := List.forall_mem_append.1 plain
          obtain ⟨thenPlain, elsePlain⟩ := List.forall_mem_append.1 morePlain
          refine .conditional (condition.readsBack conditionSpelled conditionPlain)
            (thenBack thenSpelled thenPlain) ?_
          rintro _ ⟨⟩
          exact elseBack branch rfl elseSpelled elsePlain
  | function isName paramNames _ _ back =>
      obtain ⟨name, more⟩ := List.forall_mem_cons.1 spelled
      obtain ⟨params, bodySpelled⟩ := List.forall_mem_append.1 more
      rw [Stmt.tokensOfAll_eq_flatMap, List.forall_mem_flatMap] at bodySpelled
      rw [Stmt.literals, FunctionDecl.literals, Stmt.literalsOfAll_eq_flatMap,
        List.forall_mem_flatMap] at plain
      have paramsTold := fun param member =>
        (params param member).isTold_name (paramNames param member)
      exact .function (name.isTold_name isName) paramsTold fun inner member =>
        back inner member (bodySpelled inner member) (plain inner member)
  | @«class» _ superclass _ isName parentName _ back =>
      obtain ⟨name, more⟩ := List.forall_mem_cons.1 spelled
      obtain ⟨parentSpelled, methodsSpelled⟩ := List.forall_mem_append.1 more
      rw [FunctionDecl.tokensOfAll_eq_flatMap, List.forall_mem_flatMap] at methodsSpelled
      rw [Stmt.literals, FunctionDecl.literalsOfAll_eq_flatMap, List.forall_mem_flatMap] at plain
      refine .class (name.isTold_name isName) ?_ fun method member =>
        back method member (methodsSpelled method member) (plain method member)
      rintro parent rfl
      exact (parentSpelled _ List.mem_cons_self).isTold_name (parentName parent rfl)

end LoxLang
