import LoxLang.Proofs.Notation.Words

/-!
# Expressions read back

An expression that obeys the grammar is read back from its nested list, if its tokens are spelled
as tokens of a text are, and none of its literals is a text or a number that is not finite.
-/

namespace LoxLang

open NestedList

variable {S : Type}

/-! ## One kind of expression at a time -/

/-- The nested list of an expression is told by its text, and it tells the expression, apart from
marks and sites. -/
structure Expr.ReadsBack (e : Expr S) : Prop where
  solid : e.nested.Solid
  read : e.nested.read.expr = some e.unmarked

namespace Expr.ReadsBack

-- How one kind of expression is written and read is computed; how its parts and words are read is
-- given.
attribute [local simp] Expr.nested Expr.map readEach operationWith

theorem literal {value : Literal} (plain : value.Plain) : (Expr.literal value : Expr S).ReadsBack :=
  ⟨.word (Literal.isSolid_shown plain), congrArg some (Literal.ofWord_shown plain)⟩

theorem unary {op : Token} {operand : Expr S} (isOperator : op.kind ∈ TokenKind.operators)
    (told : op.IsTold) (back : operand.ReadsBack) : (Expr.unary op operand).ReadsBack where
  solid := .of_word told.solid (by simpa using back.solid)
  read := by
    rw [← told.kind_eq] at isOperator
    simp [exprWith_operator isOperator, told.told, back.read]

section Joining

variable {left right : Expr S} {op : Token} (told : op.IsTold) (leftBack : left.ReadsBack)
  (rightBack : right.ReadsBack)

include told leftBack rightBack

theorem binary (isOperator : op.kind ∈ TokenKind.operators)
    (joinsValues : op.kind ∉ [TokenKind.kwAnd, .kwOr]) : (Expr.binary left op right).ReadsBack where
  solid := .of_word told.solid (by simpa using ⟨leftBack.solid, rightBack.solid⟩)
  read := by
    rw [← told.kind_eq] at isOperator joinsValues
    simp [exprWith_operator isOperator, joinsValues, told.told, leftBack.read, rightBack.read]

theorem logical (isOperator : op.kind ∈ TokenKind.operators)
    (isLogical : op.kind ∈ [TokenKind.kwAnd, .kwOr]) : (Expr.logical left op right).ReadsBack where
  solid := .of_word told.solid (by simpa using ⟨leftBack.solid, rightBack.solid⟩)
  read := by
    rw [← told.kind_eq] at isOperator isLogical
    simp [exprWith_operator isOperator, isLogical, told.told, leftBack.read, rightBack.read]

end Joining

-- The other lists are told by their first words, one after the other.
attribute [local simp] exprWith

theorem grouping {inner : Expr S} (back : inner.ReadsBack) : (Expr.grouping inner).ReadsBack where
  solid := .of_head (by decide) (by simpa using back.solid)
  read := by simp [back.read]

theorem «variable» {name : Token} {site : S} (spelled : name.Spelled)
    (isName : name.kind = .identifier) : (Expr.variable name site).ReadsBack :=
  ⟨.word (spelled.isTold_name isName).solid, congrArg some (spelled.ofWord_identifier isName)⟩

theorem assign {name : Token} {site : S} {value : Expr S} (told : name.IsTold)
    (back : value.ReadsBack) : (Expr.assign name site value).ReadsBack where
  solid := .of_head (by decide) (by simpa using ⟨.word told.solid, back.solid⟩)
  read := by simp [told.told, back.read]

theorem get {object : Expr S} {name : Token} (back : object.ReadsBack) (told : name.IsTold) :
    (Expr.get object name).ReadsBack where
  solid := .of_head (by decide) (by simpa using ⟨back.solid, .word told.solid⟩)
  read := by simp [told.told, back.read]

theorem set {object : Expr S} {name : Token} {value : Expr S} (objectBack : object.ReadsBack)
    (told : name.IsTold) (valueBack : value.ReadsBack) :
    (Expr.set object name value).ReadsBack where
  solid := .of_head (by decide)
    (by simpa using ⟨objectBack.solid, .word told.solid, valueBack.solid⟩)
  read := by simp [told.told, objectBack.read, valueBack.read]

theorem call {callee : Expr S} {paren : Token} {args : List (Expr S)} (spelled : paren.Spelled)
    (closing : paren.kind = .rightParen) (calleeBack : callee.ReadsBack)
    (argsBack : ∀ arg ∈ args, arg.ReadsBack) : (Expr.call callee paren args).ReadsBack where
  solid := by
    refine .of_head (by decide) (List.forall_mem_cons.2 ⟨calleeBack.solid, ?_⟩)
    rw [Expr.nestedEach_eq_map]
    exact List.forall_mem_map.2 fun arg member => (argsBack arg member).solid
  read := by
    have argsRead := mapM_readEach fun arg member => (argsBack arg member).read
    simp [Expr.nestedEach_eq_map, Expr.mapEach_eq_map, calleeBack.read, argsRead,
      spelled.ofSpelling_rightParen closing]

theorem this {keyword : Token} {site : S} (spelled : keyword.Spelled)
    (isThis : keyword.kind = .kwThis) : (Expr.this keyword site).ReadsBack := by
  have known : ("this", keyword.kind) ∈ TokenKind.keywords := by simp [isThis, TokenKind.keywords]
  have told := spelled.isTold (by simp [isThis])
  refine ⟨.word (spelled.lexeme_keyword known ▸ told.solid), ?_⟩
  rw [Expr.unmarked, Expr.map, ← spelled.ofSpelling_keyword known]
  rfl

theorem «super» {keyword method : Token} {site : S} (spelled : keyword.Spelled)
    (isSuper : keyword.kind = .kwSuper) (methodTold : method.IsTold) :
    (Expr.super keyword method site).ReadsBack where
  solid := .of_head (by decide) (by simpa using .word methodTold.solid)
  read := by
    have known : ("super", keyword.kind) ∈ TokenKind.keywords := by
      simp [isSuper, TokenKind.keywords]
    simp [spelled.ofSpelling_keyword known, methodTold.told]

end Expr.ReadsBack

/-! ## Every expression -/

theorem Layer.mem_operators {layer : Layer} {kind : TokenKind}
    (isOperator : kind ∈ layer.valueOperators) :
    kind ∈ TokenKind.operators ∧ kind ∉ [TokenKind.kwAnd, .kwOr] := by
  revert kind
  cases layer <;> decide

theorem Layer.mem_and_or {layer : Layer} {kind : TokenKind}
    (isOperator : kind ∈ layer.logicalOperators) :
    kind ∈ TokenKind.operators ∧ kind ∈ [TokenKind.kwAnd, .kwOr] := by
  revert kind
  cases layer <;> decide

theorem TokenKind.prefix_operators : ∀ kind ∈ [TokenKind.bang, .minus], kind ∈ operators := by
  decide

/-- Every expression that obeys the grammar is read back, if its tokens come from a text and its
literals are told by their texts. -/
theorem Expr.InLayer.readsBack {layer : Layer} {e : Expr S} (inLayer : e.InLayer layer)
    (spelled : ∀ token ∈ e.tokens, token.Spelled) (plain : ∀ value ∈ e.literals, value.Plain) :
    e.ReadsBack := by
  induction inLayer with
  | tighter _ induction => exact induction spelled plain
  | grouping _ back => exact .grouping (back spelled plain)
  | literal => exact .literal (plain _ List.mem_cons_self)
  | «variable» isName => exact .variable (spelled _ List.mem_cons_self) isName
  | this isThis => exact .this (spelled _ List.mem_cons_self) isThis
  | «super» isSuper isName =>
      obtain ⟨keyword, method, -⟩ : _ ∧ _ ∧ True := by simpa [Expr.tokens] using spelled
      exact .super keyword isSuper (method.isTold_name isName)
  | assign isName _ back =>
      obtain ⟨name, value⟩ := List.forall_mem_cons.1 spelled
      exact .assign (name.isTold_name isName) (back value plain)
  | unary isOperator _ back =>
      obtain ⟨op, operand⟩ := List.forall_mem_cons.1 spelled
      have among := TokenKind.prefix_operators _ isOperator
      exact .unary among (op.isTold_operator among) (back operand plain)
  | get isName _ back =>
      obtain ⟨object, name⟩ := List.forall_mem_append.1 spelled
      exact .get (back object plain) ((name _ List.mem_cons_self).isTold_name isName)
  | set isName _ _ objectBack valueBack =>
      obtain ⟨object, more⟩ := List.forall_mem_append.1 spelled
      obtain ⟨name, value⟩ := List.forall_mem_cons.1 more
      obtain ⟨objectPlain, valuePlain⟩ := List.forall_mem_append.1 plain
      exact .set (objectBack object objectPlain) (name.isTold_name isName)
        (valueBack value valuePlain)
  | binary isOperator _ _ leftBack rightBack =>
      obtain ⟨left, more⟩ := List.forall_mem_append.1 spelled
      obtain ⟨op, right⟩ := List.forall_mem_cons.1 more
      obtain ⟨leftPlain, rightPlain⟩ := List.forall_mem_append.1 plain
      obtain ⟨among, joinsValues⟩ := Layer.mem_operators isOperator
      exact .binary (op.isTold_operator among) (leftBack left leftPlain)
        (rightBack right rightPlain) among joinsValues
  | logical isOperator _ _ leftBack rightBack =>
      obtain ⟨left, more⟩ := List.forall_mem_append.1 spelled
      obtain ⟨op, right⟩ := List.forall_mem_cons.1 more
      obtain ⟨leftPlain, rightPlain⟩ := List.forall_mem_append.1 plain
      obtain ⟨among, isLogical⟩ := Layer.mem_and_or isOperator
      exact .logical (op.isTold_operator among) (leftBack left leftPlain)
        (rightBack right rightPlain) among isLogical
  | call closing _ _ _ calleeBack argsBack =>
      obtain ⟨callee, more⟩ := List.forall_mem_append.1 spelled
      obtain ⟨args, paren⟩ := List.forall_mem_append.1 more
      obtain ⟨calleePlain, argsPlain⟩ := List.forall_mem_append.1 plain
      rw [Expr.tokensOfEach_eq_flatMap, List.forall_mem_flatMap] at args
      rw [Expr.literalsOfEach_eq_flatMap, List.forall_mem_flatMap] at argsPlain
      exact .call (paren _ List.mem_cons_self) closing (calleeBack callee calleePlain)
        fun arg member => argsBack arg member (args arg member) (argsPlain arg member)

end LoxLang
