import LoxLang.Proofs.Grammar
import LoxLang.Proofs.Notation.NestedLists
import LoxLang.Proofs.TreeMap

/-!
# Trees as nested lists

The nested list that stands for a tree.  The notation of a tree in which no statement was lost is
the text of this list, and of the tokens of the tree only the lexemes are in it.
-/

namespace LoxLang

variable {S : Type}

mutual

/-- The nested list of an expression. -/
def Expr.nested : Expr S → NestedList
  | .literal value => .word value.shown
  | .grouping inner => .list [.word "group", inner.nested]
  | .unary op operand => .list [.word op.lexeme, operand.nested]
  | .binary left op right => .list [.word op.lexeme, left.nested, right.nested]
  | .logical left op right => .list [.word op.lexeme, left.nested, right.nested]
  | .variable name _ => .word name.lexeme
  | .assign name _ value => .list [.word "=", .word name.lexeme, value.nested]
  | .call callee _ args => .list (.word "call" :: callee.nested :: Expr.nestedEach args)
  | .get object name => .list [.word ".", object.nested, .word name.lexeme]
  | .set object name value => .list [.word "=", object.nested, .word name.lexeme, value.nested]
  | .this _ _ => .word "this"
  | .super _ method _ => .list [.word "super", .word method.lexeme]

/-- The nested lists of several expressions. -/
def Expr.nestedEach : List (Expr S) → List NestedList
  | [] => []
  | first :: rest => first.nested :: Expr.nestedEach rest

end

/-- The nested list of an expression, if it is there. -/
def Expr.nestedOptional : Option (Expr S) → List NestedList
  | none => []
  | some value => [value.nested]

/-- What stands for the superclass of a class, if there is one. -/
def Superclass.nested : Option (Superclass S) → List NestedList
  | none => []
  | some parent => [.word "<", .word parent.name.lexeme]

mutual

/-- The nested list of a statement. -/
def Stmt.nested : Stmt S → NestedList
  | .expression value => .list [.word ";", value.nested]
  | .print value => .list [.word "print", value.nested]
  | .var name initializer =>
      .list (.word "var" :: .word name.lexeme :: Expr.nestedOptional initializer)
  | .block body => .list (.word "block" :: Stmt.nestedAll body)
  | .conditional condition thenBranch none =>
      .list [.word "if", condition.nested, thenBranch.nested]
  | .conditional condition thenBranch (some elseBranch) =>
      .list [.word "if", condition.nested, thenBranch.nested, elseBranch.nested]
  | .loop condition body => .list [.word "while", condition.nested, body.nested]
  | .function decl => decl.nested
  | .return _ value => .list (.word "return" :: Expr.nestedOptional value)
  | .class name superclass methods =>
      .list (.word "class" :: .word name.lexeme ::
        (Superclass.nested superclass ++ FunctionDecl.nestedAll methods))
  | .lost => .list []

/-- The nested lists of several statements. -/
def Stmt.nestedAll : List (Stmt S) → List NestedList
  | [] => []
  | first :: rest => first.nested :: Stmt.nestedAll rest

/-- The nested list of a function. -/
def FunctionDecl.nested : FunctionDecl S → NestedList
  | .mk name params body =>
      .list (.word "fun" :: .word name.lexeme ::
        .list (params.map fun param => .word param.lexeme) :: Stmt.nestedAll body)

/-- The nested lists of several functions. -/
def FunctionDecl.nestedAll : List (FunctionDecl S) → List NestedList
  | [] => []
  | first :: rest => first.nested :: FunctionDecl.nestedAll rest

end

theorem Expr.nestedEach_eq_map (args : List (Expr S)) :
    Expr.nestedEach args = args.map Expr.nested := by
  induction args with
  | nil => simp [Expr.nestedEach]
  | cons first rest induction => simp [Expr.nestedEach, induction]

theorem Stmt.nestedAll_eq_map (body : List (Stmt S)) :
    Stmt.nestedAll body = body.map Stmt.nested := by
  induction body with
  | nil => simp [Stmt.nestedAll]
  | cons first rest induction => simp [Stmt.nestedAll, induction]

theorem FunctionDecl.nestedAll_eq_map (methods : List (FunctionDecl S)) :
    FunctionDecl.nestedAll methods = methods.map FunctionDecl.nested := by
  induction methods with
  | nil => simp [FunctionDecl.nestedAll]
  | cons first rest induction => simp [FunctionDecl.nestedAll, induction]

/-! ## The notation is the text of the nested list -/

open NestedList (text texts)

theorem texts_words (params : List Token) :
    texts (params.map fun param => .word param.lexeme) = params.map (·.lexeme) := by
  rw [NestedList.texts_eq_map, List.map_map]
  rfl

mutual

theorem Expr.text_nested : ∀ e : Expr S, e.nested.text = Notation.expr e
  | .literal _ | .variable _ _ | .this _ _ | .super _ _ _ => by
      simp [Expr.nested, Notation.expr, text, texts]
  | .grouping inner => by
      simp [Expr.nested, Notation.expr, text, texts, Expr.text_nested inner]
  | .unary _ operand => by
      simp [Expr.nested, Notation.expr, text, texts, Expr.text_nested operand]
  | .binary left _ right | .logical left _ right => by
      simp [Expr.nested, Notation.expr, text, texts, Expr.text_nested left, Expr.text_nested right]
  | .assign _ _ value => by
      simp [Expr.nested, Notation.expr, text, texts, Expr.text_nested value]
  | .call callee _ args => by
      simp [Expr.nested, Notation.expr, text, texts, Expr.text_nested callee,
        Expr.texts_nestedEach args]
  | .get object _ => by
      simp [Expr.nested, Notation.expr, text, texts, Expr.text_nested object]
  | .set object _ value => by
      simp [Expr.nested, Notation.expr, text, texts, Expr.text_nested object,
        Expr.text_nested value]

theorem Expr.texts_nestedEach : ∀ args : List (Expr S),
    texts (Expr.nestedEach args) = Notation.exprs args
  | [] => rfl
  | first :: rest => by
      simp [Expr.nestedEach, Notation.exprs, texts, Expr.text_nested first,
        Expr.texts_nestedEach rest]

end

theorem Expr.texts_nestedOptional (value : Option (Expr S)) :
    texts (Expr.nestedOptional value) = Notation.optional value := by
  cases value with
  | none => rfl
  | some value => simp [Expr.nestedOptional, Notation.optional, texts, Expr.text_nested]

mutual

theorem Stmt.notation_eq : ∀ s : Stmt S, s.isWhole = true →
    Notation.stmt s = some s.nested.text
  | .expression _, _ | .print _, _ => by
      simp [Stmt.nested, Notation.stmt, text, texts, Expr.text_nested]
  | .var _ _, _ | .return _ _, _ => by
      simp [Stmt.nested, Notation.stmt, text, texts, Expr.texts_nestedOptional]
  | .block body, whole => by
      simp [Stmt.nested, Notation.stmt, text, texts, Stmt.notations_eq body whole]
  | .conditional _ thenBranch none, whole => by
      simp [Stmt.nested, Notation.stmt, text, texts, Expr.text_nested,
        Stmt.notation_eq thenBranch whole]
  | .conditional _ thenBranch (some elseBranch), whole => by
      obtain ⟨thenWhole, elseWhole⟩ := Bool.and_eq_true_iff.1 whole
      simp [Stmt.nested, Notation.stmt, text, texts, Expr.text_nested,
        Stmt.notation_eq thenBranch thenWhole, Stmt.notation_eq elseBranch elseWhole]
  | .loop _ body, whole => by
      simp [Stmt.nested, Notation.stmt, text, texts, Expr.text_nested, Stmt.notation_eq body whole]
  | .function decl, whole => FunctionDecl.notation_eq decl whole
  | .class _ none methods, whole => by
      simp [Stmt.nested, Superclass.nested, Notation.stmt, text, texts,
        FunctionDecl.notations_eq methods whole]
  | .class _ (some _) methods, whole => by
      simp [Stmt.nested, Superclass.nested, Notation.stmt, text, texts,
        FunctionDecl.notations_eq methods whole]

theorem Stmt.notations_eq : ∀ body : List (Stmt S), Stmt.areWhole body = true →
    Notation.stmts body = some (texts (Stmt.nestedAll body))
  | [], _ => rfl
  | first :: rest, whole => by
      obtain ⟨firstWhole, restWhole⟩ := Bool.and_eq_true_iff.1 whole
      simp [Stmt.nestedAll, Notation.stmts, texts, Stmt.notation_eq first firstWhole,
        Stmt.notations_eq rest restWhole]

theorem FunctionDecl.notation_eq : ∀ decl : FunctionDecl S, decl.isWhole = true →
    Notation.function decl = some decl.nested.text
  | .mk _ params body, whole => by
      simp [FunctionDecl.nested, Notation.function, text, texts, texts_words,
        Stmt.notations_eq body whole, Notation.paren]

theorem FunctionDecl.notations_eq : ∀ methods : List (FunctionDecl S),
    FunctionDecl.areWhole methods = true →
      Notation.functions methods = some (texts (FunctionDecl.nestedAll methods))
  | [], _ => rfl
  | first :: rest, whole => by
      obtain ⟨firstWhole, restWhole⟩ := Bool.and_eq_true_iff.1 whole
      simp [FunctionDecl.nestedAll, Notation.functions, texts,
        FunctionDecl.notation_eq first firstWhole, FunctionDecl.notations_eq rest restWhole]

end

/-! ## Marks are not shown -/

/-- The token without its mark. -/
def Token.unmarked (token : Token) : Token := { token with toMark := default }

@[simp] theorem Token.lexeme_unmarked (token : Token) : token.unmarked.lexeme = token.lexeme := rfl

/-- The expression without the marks of its tokens, and without its sites. -/
abbrev Expr.unmarked (e : Expr S) : Expr Unit := e.map Token.unmarked fun _ => ()

/-- The statement without the marks of its tokens, and without its sites. -/
abbrev Stmt.unmarked (s : Stmt S) : Stmt Unit := s.map Token.unmarked fun _ => ()

/-- The function without the marks of its tokens, and without its sites. -/
abbrev FunctionDecl.unmarked (decl : FunctionDecl S) : FunctionDecl Unit :=
  decl.map Token.unmarked fun _ => ()

mutual

theorem Expr.nested_unmarked : ∀ e : Expr S, e.unmarked.nested = e.nested
  | .literal _ => rfl
  | .grouping inner => by simp [Expr.map, Expr.nested, Expr.nested_unmarked inner]
  | .unary _ operand => by simp [Expr.map, Expr.nested, Expr.nested_unmarked operand]
  | .binary left _ right | .logical left _ right => by
      simp [Expr.map, Expr.nested, Expr.nested_unmarked left, Expr.nested_unmarked right]
  | .variable _ _ | .this _ _ | .super _ _ _ => rfl
  | .assign _ _ value => by simp [Expr.map, Expr.nested, Expr.nested_unmarked value]
  | .call callee _ args => by
      simp [Expr.map, Expr.nested, Expr.nested_unmarked callee, Expr.nestedEach_unmarked args]
  | .get object _ => by simp [Expr.map, Expr.nested, Expr.nested_unmarked object]
  | .set object _ value => by
      simp [Expr.map, Expr.nested, Expr.nested_unmarked object, Expr.nested_unmarked value]

theorem Expr.nestedEach_unmarked : ∀ args : List (Expr S),
    Expr.nestedEach (Expr.mapEach Token.unmarked (fun _ => ()) args) = Expr.nestedEach args
  | [] => rfl
  | first :: rest => by
      simp [Expr.mapEach, Expr.nestedEach, Expr.nested_unmarked first,
        Expr.nestedEach_unmarked rest]

end

theorem Expr.nestedOptional_unmarked (value : Option (Expr S)) :
    Expr.nestedOptional (value.map Expr.unmarked) = Expr.nestedOptional value := by
  cases value with
  | none => rfl
  | some value => simp [Expr.nestedOptional, Expr.nested_unmarked]

theorem Superclass.nested_unmarked (parent : Option (Superclass S)) :
    Superclass.nested (parent.map (Superclass.map Token.unmarked fun _ => ())) =
      Superclass.nested parent := by
  cases parent <;> rfl

mutual

theorem Stmt.nested_unmarked : ∀ s : Stmt S, s.unmarked.nested = s.nested
  | .expression _ | .print _ => by simp [Stmt.map, Stmt.nested, Expr.nested_unmarked]
  | .var _ _ | .return _ _ => by simp [Stmt.map, Stmt.nested, Expr.nestedOptional_unmarked]
  | .block body => by simp [Stmt.map, Stmt.nested, Stmt.nestedAll_unmarked body]
  | .conditional _ thenBranch none => by
      simp [Stmt.map, Stmt.nested, Expr.nested_unmarked, Stmt.nested_unmarked thenBranch]
  | .conditional _ thenBranch (some elseBranch) => by
      simp [Stmt.map, Stmt.nested, Expr.nested_unmarked, Stmt.nested_unmarked thenBranch,
        Stmt.nested_unmarked elseBranch]
  | .loop _ body => by
      simp [Stmt.map, Stmt.nested, Expr.nested_unmarked, Stmt.nested_unmarked body]
  | .function decl => by simp [Stmt.map, Stmt.nested, FunctionDecl.nested_unmarked decl]
  | .class _ parent methods => by
      simp [Stmt.map, Stmt.nested, Superclass.nested_unmarked parent,
        FunctionDecl.nestedAll_unmarked methods]
  | .lost => rfl

theorem Stmt.nestedAll_unmarked : ∀ body : List (Stmt S),
    Stmt.nestedAll (Stmt.mapAll Token.unmarked (fun _ => ()) body) = Stmt.nestedAll body
  | [] => rfl
  | first :: rest => by
      simp [Stmt.mapAll, Stmt.nestedAll, Stmt.nested_unmarked first, Stmt.nestedAll_unmarked rest]

theorem FunctionDecl.nested_unmarked : ∀ decl : FunctionDecl S, decl.unmarked.nested = decl.nested
  | .mk _ _ body => by
      simp [FunctionDecl.map, FunctionDecl.nested, Stmt.nestedAll_unmarked body,
        Function.comp_def]

theorem FunctionDecl.nestedAll_unmarked : ∀ methods : List (FunctionDecl S),
    FunctionDecl.nestedAll (FunctionDecl.mapAll Token.unmarked (fun _ => ()) methods) =
      FunctionDecl.nestedAll methods
  | [] => rfl
  | first :: rest => by
      simp [FunctionDecl.mapAll, FunctionDecl.nestedAll, FunctionDecl.nested_unmarked first,
        FunctionDecl.nestedAll_unmarked rest]

end

end LoxLang
