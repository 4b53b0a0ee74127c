import LoxLang.Proofs.Parser.Depth
import LoxLang.Proofs.Parser.ExpressionYielding

/-!
# Statements are read back

A statement is known by its first token, and ends with its own last token: only a
conditional that is still open at its end must not stand in front of an `else`.  So
whatever obeys the grammar is read back, and a text that is the unparsing of some
trees is parsed to these trees.
-/

namespace LoxLang

open LoxLang.Parser (LeadsTo Yields expressionAt statementAt declarationAt)
open Piece (held mark)

namespace Position

/-- The kinds of tokens with which a statement that is no declaration begins. -/
def branchBeginnings : List TokenKind :=
  Layer.assignment.beginnings ++ [.kwIf, .kwPrint, .kwReturn, .kwWhile, .leftBrace]

/-- The kinds of tokens with which a statement begins in the position. -/
def beginnings : Position → List TokenKind
  | branch => branchBeginnings
  | list => branchBeginnings ++ [.kwClass, .kwFun, .kwVar]

/-- The parser of statements in the position. -/
def parser : Position → (depth : Nat) → Parser (Stmt Unit)
  | list => declarationAt
  | branch => statementAt

theorem branch_subset (position : Position) : branch.beginnings ⊆ position.beginnings := by
  cases position <;> decide

end Position

/-- A statement begins with a token of its position. -/
theorem Stmt.Grammatical.begins {S : Type} {position : Position} {s : Stmt S}
    (grammatical : s.Grammatical position) :
    ∃ piece more, s.pieces = piece :: more ∧
      ∀ token, piece.Fits token → token.kind ∈ position.beginnings := by
  have marked {kind : TokenKind} {position : Position} (known : kind ∈ position.beginnings) :
      ∀ token, (Piece.mark kind).Fits token → token.kind ∈ position.beginnings :=
    fun token is => is.kind ▸ known
  cases grammatical with
  | @expression _ value obeys =>
      obtain ⟨piece, more, isCons, begins⟩ := obeys.begins
      have within : Layer.assignment.beginnings ⊆ Position.branch.beginnings :=
        List.subset_append_left _ _
      refine ⟨piece, more ++ [.mark .semicolon], by rw [Stmt.pieces, isCons]; rfl, ?_⟩
      exact fun token is => position.branch_subset (within (begins token is))
  | print => exact ⟨_, _, rfl, marked (position.branch_subset (by decide))⟩
  | var => exact ⟨_, _, rfl, marked (by decide)⟩
  | block => exact ⟨_, _, rfl, marked (position.branch_subset (by decide))⟩
  | @conditional _ _ _ elseBranch =>
      have known := position.branch_subset (by decide : TokenKind.kwIf ∈ Position.branch.beginnings)
      cases elseBranch with
      | none => exact ⟨_, _, rfl, marked known⟩
      | some branch => exact ⟨_, _, rfl, marked known⟩
  | loop => exact ⟨_, _, rfl, marked (position.branch_subset (by decide))⟩
  | function => exact ⟨_, _, rfl, marked (by decide)⟩
  | «return» isReturn =>
      refine ⟨_, _, rfl, ?_⟩
      rintro token rfl
      rw [isReturn]
      exact position.branch_subset (by decide)
  | «class» => exact ⟨_, _, rfl, marked (by decide)⟩

theorem Stmt.Grammatical.first {S : Type} {position : Position} {s : Stmt S}
    (grammatical : s.Grammatical position) {tokens : List Token}
    (fit : Piece.AllFit s.pieces tokens) :
    ∃ token more, tokens = token :: more ∧ token.kind ∈ position.beginnings := by
  obtain ⟨piece, rest, isCons, begins⟩ := grammatical.begins
  rw [isCons] at fit
  obtain ⟨token, more, rfl, fits, _⟩ := fit.of_cons
  exact ⟨token, more, rfl, begins token fits⟩

theorem Stmt.Grammatical.pieces_ne_nil {S : Type} {position : Position} {s : Stmt S}
    (grammatical : s.Grammatical position) : s.pieces ≠ [] := by
  obtain ⟨piece, more, isCons, _⟩ := grammatical.begins
  simp [isCons]

theorem FunctionDecl.pieces_ne_nil {S : Type} (decl : FunctionDecl S) : decl.pieces ≠ [] := by
  cases decl
  exact List.cons_ne_nil _ _

theorem Stmt.Grammatical.method_first {S : Type} {decl : FunctionDecl S} {tokens : List Token}
    (grammatical : (Stmt.function decl).Grammatical .list) (fit : Piece.AllFit decl.pieces tokens) :
    ∃ token more, tokens = token :: more ∧ token.kind = .identifier := by
  cases grammatical with
  | function isName =>
      obtain ⟨more, rfl, _⟩ := Piece.AllFit.of_held fit
      exact ⟨_, more, rfl, isName⟩

/-- An `else` that follows does not belong to the statement. -/
def Stmt.Closes (s : Stmt Unit) (rest : List Token) : Prop :=
  s.endsOpen = true → ∀ token ∈ rest.head?, token.kind ≠ .kwElse

/-- The tokens of the statement are read as the statement, in front of anything but an `else`
that would belong to it. -/
def Stmt.Returns (position : Position) (s : Stmt Unit) : Prop :=
  ∀ depth tokens rest, Piece.AllFit s.pieces tokens → s.Closes rest →
    Yields True (position.parser depth) tokens rest s

/-- The tokens of the function are read as the function. -/
def FunctionDecl.Returns (decl : FunctionDecl Unit) : Prop :=
  ∀ depth noun tokens rest, Piece.AllFit decl.pieces tokens →
    Yields True (Parser.functionRest (declarationAt depth) noun) tokens rest decl

/-- The tokens end an expression wherever it stands. -/
theorem Layer.ends_of_kind {kind : TokenKind} {rest : List Token}
    (ends : kind ∈ [TokenKind.semicolon, .rightParen])
    (ahead : ∀ token ∈ rest.head?, token.kind = kind) :
    ∀ token ∈ rest.head?, Layer.assignment.Ends token := by
  have apart : ∀ kind ∈ [TokenKind.semicolon, .rightParen],
      kind ∉ Layer.assignment.andTighter.flatMap Layer.continuations := by
    decide
  intro token isAhead
  rw [Layer.Ends, ahead token isAhead]
  exact apart kind ends

namespace Parser

variable {α : Type} {depth : Nat} {tokens rest : List Token}

/-- An expression and the token after it, which ends it. -/
theorem LeadsTo.expressionThen {e : Expr Unit} {closing : Token} {left right : List Token}
    {step : Expr Unit → Parser α} {last : Parser α} (obeys : e.Grammatical)
    (fit : Piece.AllFit e.pieces left) (closes : closing.kind ∈ [TokenKind.semicolon, .rightParen])
    (goesOn : LeadsTo True (step e) (closing :: right) rest last) :
    LeadsTo True (expressionAt depth >>= step) (left ++ closing :: right) rest last := by
  refine (obeys.readBack.returns depth left (closing :: right ++ rest) fit ?_).bind goesOn
  apply Layer.ends_of_kind closes
  intro token ahead
  cases ahead
  rfl

/-- An expression that does not have to be there, and the semicolon after it. -/
theorem LeadsTo.expressionUnlessThen {value : Option (Expr Unit)} {closing : Token}
    {left : List Token} {step : Option (Expr Unit) → Parser α} {last : Parser α}
    (obeys : ∀ result ∈ value, result.Grammatical)
    (fit : Piece.AllFit (Expr.piecesOfOptional value) left) (isClosing : closing.kind = .semicolon)
    (goesOn : LeadsTo True (step value) [closing] rest last) :
    LeadsTo True (Parser.expressionUnless .semicolon (expressionAt depth) >>= step)
      (left ++ [closing])
      rest last := by
  refine LeadsTo.bind ?_ goesOn
  cases value with
  | none =>
      cases fit
      refine .look (.isAhead _) ?_
      simp only [List.nil_append, List.cons_append, List.head?_cons, Option.any_some, isClosing,
        decide_true, if_true]
      exact .refl _ _
  | some result =>
      have resultObeys := obeys result rfl
      obtain ⟨first, more, rfl, begins⟩ := resultObeys.first fit
      have notClosing : first.kind ≠ .semicolon := by
        intro same
        rw [same] at begins
        revert begins
        decide
      refine .look (.isAhead _) ?_
      simp only [List.cons_append, List.head?_cons, Option.any_some, notClosing, decide_false,
        Bool.false_eq_true, if_false]
      refine (resultObeys.readBack.returns depth _ _ fit ?_).map
      apply Layer.ends_of_kind List.mem_cons_self
      intro token ahead
      cases ahead
      exact isClosing

section Bodies

variable {body : List (Stmt Unit)}

/-- Statements in a list are read back one by one, as none of them begins with `else`. -/
theorem yieldsEach (returns : ∀ inner ∈ body, inner.Returns .list) :
    YieldsEach True (declarationAt depth) Stmt.pieces (·.kind ≠ .kwElse) body :=
  fun inner isInner tokens rest fit safe =>
    returns inner isInner depth tokens rest fit fun _ => safe

theorem beginsEach {kinds : List TokenKind} (obeys : ∀ inner ∈ body, inner.Grammatical .list)
    (unused : ∀ kind ∈ kinds, kind ∉ Position.list.beginnings) :
    BeginsEach (·.kind ∉ kinds) Stmt.pieces body := by
  intro inner isInner tokens fit
  obtain ⟨token, more, rfl, begins⟩ := (obeys inner isInner).first fit
  exact ⟨token, more, rfl, fun isKind => unused _ isKind begins⟩

theorem LeadsTo.blockRest {closing : Token} (returns : ∀ inner ∈ body, inner.Returns .list)
    (obeys : ∀ inner ∈ body, inner.Grammatical .list)
    (fit : Piece.AllFit (Stmt.piecesOfAll body) tokens) (isClosing : closing.kind = .rightBrace) :
    Yields True (Parser.blockRest (declarationAt depth)) (tokens ++ [closing]) rest body := by
  rw [Stmt.piecesOfAll_eq_flatMap] at fit
  have begins : BeginsEach (·.kind ∉ [TokenKind.rightBrace, .kwElse]) Stmt.pieces body :=
    beginsEach obeys (by decide)
  refine .look .remaining (LeadsTo.bind ?_ (.expectThen isClosing (.refl _ _)))
  apply LeadsTo.many (yieldsEach returns)
  · intro inner isInner tokens fit
    obtain ⟨token, more, rfl, unused⟩ := begins inner isInner tokens fit
    simp only [List.mem_cons, List.not_mem_nil, or_false, not_or] at unused
    exact ⟨token, more, rfl, by simpa using unused.1, unused.2⟩
  · exact fit
  · have few := fit.length_le fun inner isInner => (obeys inner isInner).pieces_ne_nil
    simp only [List.length_append]
    omega
  · intro token ahead
    cases ahead
    simp [isClosing]

theorem LeadsTo.functionRest {name : Token} {params : List Token} {noun : String}
    (isName : name.kind = .identifier) (areNames : ∀ param ∈ params, param.kind = .identifier)
    (few : params.length ≤ itemLimit) (returns : ∀ inner ∈ body, inner.Returns .list)
    (obeys : ∀ inner ∈ body, inner.Grammatical .list)
    (fit : Piece.AllFit (FunctionDecl.mk name params body : FunctionDecl Unit).pieces tokens) :
    Yields True (Parser.functionRest (declarationAt depth) noun) tokens rest
      ⟨name, params, body⟩ := by
  rw [FunctionDecl.pieces] at fit
  obtain ⟨more, rfl, moreFit⟩ := fit.of_held
  obtain ⟨opening, more, rfl, isOpening, fit⟩ := moreFit.of_mark
  obtain ⟨paramTokens, more, rfl, paramsFit, fit⟩ := fit.of_append
  obtain ⟨closing, more, rfl, isClosing, fit⟩ := fit.of_mark
  obtain ⟨brace, more, rfl, isBrace, fit⟩ := fit.of_mark
  obtain ⟨bodyTokens, more, rfl, bodyFit, fit⟩ := fit.of_append
  obtain ⟨ending, more, rfl, isEnding, lastFit⟩ := fit.of_mark
  cases lastFit
  refine .expectThen isName (.expectThen isOpening (LeadsTo.bind ?_ (.expectThen isClosing
    (.expectThen isBrace ((LeadsTo.blockRest returns obeys bodyFit isEnding).finish (.refl _ _))))))
  apply LeadsTo.items
  · intro param isParam tokens rest paramFit _
    obtain ⟨more, rfl, lastFit⟩ := paramFit.of_held
    cases lastFit
    exact .expect (areNames param isParam)
  · intro param isParam tokens paramFit
    obtain ⟨more, rfl, _⟩ := paramFit.of_held
    refine ⟨param, more, rfl, fun isClosing => ?_⟩
    rw [areNames param isParam] at isClosing
    cases isClosing
  · exact paramsFit
  · exact few
  · exact ⟨closing, _, rfl, isClosing⟩

end Bodies

theorem LeadsTo.superclass {superclass : Option (Superclass Unit)}
    (isName : ∀ parent ∈ superclass, parent.name.kind = .identifier)
    (fit : Piece.AllFit (Superclass.pieces superclass) tokens)
    (brace : ∀ token ∈ rest.head?, token.kind = .leftBrace) :
    Yields True Parser.superclass? tokens rest superclass := by
  cases superclass with
  | none =>
      cases fit
      refine .declineThen ?_ (.refl _ _)
      intro token ahead
      rw [brace token ahead]
      decide
  | some parent =>
      obtain ⟨less, more, rfl, isLess, fit⟩ := Piece.AllFit.of_mark fit
      obtain ⟨more, rfl, lastFit⟩ := fit.of_held
      cases lastFit
      exact .acceptThen (List.mem_singleton.2 isLess) (.expectThen (isName parent rfl) (.refl _ _))

theorem LeadsTo.initializer {initializer : Option (Expr Unit)}
    (obeys : ∀ value ∈ initializer, value.Grammatical)
    (fit : Piece.AllFit (Expr.piecesOfInitializer initializer) tokens)
    (ends : ∀ token ∈ rest.head?, token.kind = .semicolon) :
    Yields True (Parser.initializer? (expressionAt depth)) tokens rest initializer := by
  cases initializer with
  | none =>
      cases fit
      refine .declineThen ?_ (.refl _ _)
      intro token ahead
      rw [ends token ahead]
      decide
  | some value =>
      obtain ⟨equals, more, rfl, isEquals, valueFit⟩ := Piece.AllFit.of_mark fit
      exact .acceptThen (List.mem_singleton.2 isEquals) (LeadsTo.map
        ((obeys value rfl).readBack.returns depth _ _ valueFit
          (Layer.ends_of_kind List.mem_cons_self ends)))

theorem LeadsTo.classRest {name : Token} {superclass : Option (Superclass Unit)}
    {methods : List (FunctionDecl Unit)} (isName : name.kind = .identifier)
    (isParent : ∀ parent ∈ superclass, parent.name.kind = .identifier)
    (returns : ∀ method ∈ methods, method.Returns)
    (obeys : ∀ method ∈ methods, (Stmt.function method).Grammatical .list)
    (fit : Piece.AllFit (held name :: (Superclass.pieces superclass ++ mark .leftBrace ::
      (FunctionDecl.piecesOfAll methods ++ [mark .rightBrace]))) tokens) :
    Yields True (Parser.classRest (declarationAt depth)) tokens rest
      (.class name superclass methods) := by
  rw [FunctionDecl.piecesOfAll_eq_flatMap] at fit
  obtain ⟨more, rfl, moreFit⟩ := fit.of_held
  obtain ⟨parentTokens, more, rfl, parentFit, fit⟩ := moreFit.of_append
  obtain ⟨opening, more, rfl, isOpening, fit⟩ := fit.of_mark
  obtain ⟨methodTokens, more, rfl, methodsFit, fit⟩ := fit.of_append
  obtain ⟨ending, more, rfl, isEnding, lastFit⟩ := fit.of_mark
  cases lastFit
  refine .expectThen isName (LeadsTo.bind (.superclass isParent parentFit ?_)
    (.expectThen isOpening (.look .remaining (LeadsTo.bind ?_ (.expectThen isEnding (.refl _ _))))))
  · intro token ahead
    cases ahead
    exact isOpening
  · apply LeadsTo.many
    · intro method isMethod tokens rest methodFit (_ : ∀ token ∈ rest.head?, True)
      exact returns method isMethod depth "method" tokens rest methodFit
    · intro method isMethod tokens methodFit
      obtain ⟨token, more, rfl, isToken⟩ := (obeys method isMethod).method_first methodFit
      refine ⟨token, more, rfl, ?_, trivial⟩
      rw [isToken]
      decide
    · exact methodsFit
    · have few := methodsFit.length_le fun method _ => method.pieces_ne_nil
      simp only [List.length_append]
      omega
    · intro token ahead
      cases ahead
      simp [isEnding]

end Parser

namespace Stmt

open LoxLang.Parser (LeadsTo)

variable {position : Position} {s : Stmt Unit}

/-- Where declarations are allowed, a statement that is none is looked for after them. -/
theorem Returns.anywhere (returns : s.Returns .branch) (obeys : s.Grammatical .branch) :
    s.Returns position := by
  cases position with
  | branch => exact returns
  | list =>
      intro depth tokens rest fit closes
      cases depth with
      | zero => exact .tooDeep trivial
      | succ depth =>
          obtain ⟨token, more, rfl, begins⟩ := obeys.first fit
          refine .recovering (.declineThen ?_ (returns depth _ rest fit closes))
          have apart : ∀ kind ∈ Position.branch.beginnings,
              kind ∉ [TokenKind.kwClass, .kwFun, .kwVar] := by
            decide
          intro first ahead
          cases ahead
          exact apart _ begins

theorem Returns.expression {value : Expr Unit} (obeys : value.Grammatical) :
    (Stmt.expression value).Returns .branch := by
  intro depth tokens rest fit _
  obtain ⟨valueTokens, more, rfl, valueFit, fit⟩ := Piece.AllFit.of_append fit
  obtain ⟨ending, more, rfl, isEnding, lastFit⟩ := fit.of_mark
  cases lastFit
  cases depth with
  | zero => exact .tooDeep trivial
  | succ depth =>
      obtain ⟨token, more, rfl, begins⟩ := obeys.first valueFit
      have apart : ∀ kind ∈ Layer.assignment.beginnings,
          kind ∉ [TokenKind.kwFor, .kwIf, .kwPrint, .kwReturn, .kwWhile, .leftBrace] := by
        decide
      refine .declineThen ?_ (.expressionThen obeys valueFit (by rw [isEnding]; decide)
        (.expectThen isEnding (.refl _ _)))
      intro first ahead
      cases ahead
      exact apart _ begins

theorem Returns.print {value : Expr Unit} (obeys : value.Grammatical) :
    (Stmt.print value).Returns .branch := by
  intro depth tokens rest fit _
  obtain ⟨keyword, more, rfl, isKeyword, fit⟩ := Piece.AllFit.of_mark fit
  obtain ⟨valueTokens, more, rfl, valueFit, fit⟩ := fit.of_append
  obtain ⟨ending, more, rfl, isEnding, lastFit⟩ := fit.of_mark
  cases lastFit
  cases depth with
  | zero => exact .tooDeep trivial
  | succ depth =>
      refine .acceptThen (by rw [isKeyword]; decide) ?_
      simp only [isKeyword]
      exact .expressionThen obeys valueFit (by rw [isEnding]; decide)
        (.expectThen isEnding (.refl _ _))

theorem Returns.var {name : Token} {initializer : Option (Expr Unit)}
    (isName : name.kind = .identifier) (obeys : ∀ value ∈ initializer, value.Grammatical) :
    (Stmt.var name initializer).Returns .list := by
  intro depth tokens rest fit _
  obtain ⟨keyword, more, rfl, isKeyword, fit⟩ := Piece.AllFit.of_mark fit
  obtain ⟨more, rfl, nameFit⟩ := fit.of_held
  obtain ⟨valueTokens, more, rfl, valueFit, endFit⟩ := nameFit.of_append
  obtain ⟨ending, more, rfl, isEnding, lastFit⟩ := endFit.of_mark
  cases lastFit
  cases depth with
  | zero => exact .tooDeep trivial
  | succ depth =>
      refine .recovering (.acceptThen (by rw [isKeyword]; decide) ?_)
      simp only [isKeyword]
      refine .expectThen isName (LeadsTo.bind (.initializer obeys valueFit ?_)
        (.expectThen isEnding (.refl _ _)))
      intro token ahead
      cases ahead
      exact isEnding

theorem Returns.function {decl : FunctionDecl Unit} (returns : decl.Returns) :
    (Stmt.function decl).Returns .list := by
  intro depth tokens rest fit _
  obtain ⟨keyword, more, rfl, isKeyword, declFit⟩ := Piece.AllFit.of_mark fit
  cases depth with
  | zero => exact .tooDeep trivial
  | succ depth =>
      refine .recovering (.acceptThen (by rw [isKeyword]; decide) ?_)
      simp only [isKeyword]
      exact (returns depth "function" more rest declFit).map

theorem Returns.class {name : Token} {superclass : Option (Superclass Unit)}
    {methods : List (FunctionDecl Unit)} (isName : name.kind = .identifier)
    (isParent : ∀ parent ∈ superclass, parent.name.kind = .identifier)
    (returns : ∀ method ∈ methods, method.Returns)
    (obeys : ∀ method ∈ methods, (Stmt.function method).Grammatical .list) :
    (Stmt.class name superclass methods).Returns .list := by
  intro depth tokens rest fit _
  obtain ⟨keyword, more, rfl, isKeyword, restFit⟩ := Piece.AllFit.of_mark fit
  cases depth with
  | zero => exact .tooDeep trivial
  | succ depth =>
      refine .recovering (.acceptThen (by rw [isKeyword]; decide) ?_)
      simp only [isKeyword]
      exact .classRest isName isParent returns obeys restFit

theorem Returns.block {body : List (Stmt Unit)} (returns : ∀ inner ∈ body, inner.Returns .list)
    (obeys : ∀ inner ∈ body, inner.Grammatical .list) : (Stmt.block body).Returns .branch := by
  intro depth tokens rest fit _
  obtain ⟨opening, more, rfl, isOpening, fit⟩ := Piece.AllFit.of_mark fit
  obtain ⟨bodyTokens, more, rfl, bodyFit, fit⟩ := fit.of_append
  obtain ⟨ending, more, rfl, isEnding, lastFit⟩ := fit.of_mark
  cases lastFit
  cases depth with
  | zero => exact .tooDeep trivial
  | succ depth =>
      refine .acceptThen (by rw [isOpening]; decide) ?_
      simp only [isOpening]
      exact (LeadsTo.blockRest returns obeys bodyFit isEnding).map

theorem Returns.loop {condition : Expr Unit} {body : Stmt Unit} (obeys : condition.Grammatical)
    (returns : body.Returns .branch) : (Stmt.loop condition body).Returns .branch := by
  intro depth tokens rest fit closes
  obtain ⟨keyword, more, rfl, isKeyword, fit⟩ := Piece.AllFit.of_mark fit
  obtain ⟨opening, more, rfl, isOpening, fit⟩ := fit.of_mark
  obtain ⟨conditionTokens, more, rfl, conditionFit, fit⟩ := fit.of_append
  obtain ⟨closing, bodyTokens, rfl, isClosing, bodyFit⟩ := fit.of_mark
  cases depth with
  | zero => exact .tooDeep trivial
  | succ depth =>
      refine .acceptThen (by rw [isKeyword]; decide) ?_
      simp only [isKeyword]
      exact .expectThen isOpening (.expressionThen obeys conditionFit (by rw [isClosing]; decide)
        (.expectThen isClosing (returns depth bodyTokens rest bodyFit closes).map))

theorem Returns.return {keyword : Token} {value : Option (Expr Unit)}
    (isReturn : keyword.kind = .kwReturn) (obeys : ∀ result ∈ value, result.Grammatical) :
    (Stmt.return keyword value).Returns .branch := by
  intro depth tokens rest fit _
  obtain ⟨more, rfl, keywordFit⟩ := Piece.AllFit.of_held fit
  obtain ⟨valueTokens, more, rfl, valueFit, endFit⟩ := keywordFit.of_append
  obtain ⟨ending, more, rfl, isEnding, lastFit⟩ := endFit.of_mark
  cases lastFit
  cases depth with
  | zero => exact .tooDeep trivial
  | succ depth =>
      refine .acceptThen (by rw [isReturn]; decide) ?_
      simp only [isReturn]
      exact .expressionUnlessThen obeys valueFit isEnding (.expectThen isEnding (.refl _ _))

/-- What follows the then-branch decides whether there is an else-branch. -/
theorem Returns.conditional {condition : Expr Unit} {thenBranch : Stmt Unit}
    {elseBranch : Option (Stmt Unit)} (obeys : condition.Grammatical)
    (thenReturns : thenBranch.Returns .branch)
    (elseReturns : ∀ branch ∈ elseBranch, branch.Returns .branch)
    (closed : elseBranch.isSome → thenBranch.endsOpen = false) :
    (Stmt.conditional condition thenBranch elseBranch).Returns .branch := by
  intro depth tokens rest fit closes
  cases depth with
  | zero => exact .tooDeep trivial
  | succ depth =>
      cases elseBranch with
      | none =>
          obtain ⟨keyword, more, rfl, isKeyword, fit⟩ := Piece.AllFit.of_mark fit
          obtain ⟨opening, more, rfl, isOpening, fit⟩ := fit.of_mark
          obtain ⟨conditionTokens, more, rfl, conditionFit, fit⟩ := fit.of_append
          obtain ⟨closing, thenTokens, rfl, isClosing, thenFit⟩ := fit.of_mark
          have notElse := closes rfl
          refine .acceptThen (by rw [isKeyword]; decide) ?_
          simp only [isKeyword]
          refine .expectThen isOpening (.expressionThen obeys conditionFit
            (by rw [isClosing]; decide) (.expectThen isClosing
              ((thenReturns depth thenTokens rest thenFit fun _ => notElse).finish
                (LeadsTo.look (.declineThen ?_ (.refl _ _)) (.refl _ _)))))
          exact fun token ahead isElse => notElse token ahead (List.mem_singleton.1 isElse)
      | some branch =>
          obtain ⟨keyword, more, rfl, isKeyword, fit⟩ := Piece.AllFit.of_mark fit
          obtain ⟨opening, more, rfl, isOpening, fit⟩ := fit.of_mark
          obtain ⟨conditionTokens, more, rfl, conditionFit, fit⟩ := fit.of_append
          obtain ⟨closing, more, rfl, isClosing, fit⟩ := fit.of_mark
          obtain ⟨thenTokens, more, rfl, thenFit, fit⟩ := fit.of_append
          obtain ⟨other, elseTokens, rfl, isElse, elseFit⟩ := fit.of_mark
          refine .acceptThen (by rw [isKeyword]; decide) ?_
          simp only [isKeyword]
          refine .expectThen isOpening (.expressionThen obeys conditionFit
            (by rw [isClosing]; decide) (.expectThen isClosing (LeadsTo.bind
              (thenReturns depth thenTokens (other :: elseTokens ++ rest) thenFit ?_) ?_)))
          · intro isOpen
            rw [closed rfl] at isOpen
            cases isOpen
          · exact LeadsTo.finish (.acceptThen (List.mem_singleton.2 isElse)
              (elseReturns branch rfl depth elseTokens rest elseFit closes).map) (.refl _ _)

/-- The statement is read back in the position, and if it is a function then so it is as a
method. -/
structure ReadBack (position : Position) (s : Stmt Unit) : Prop where
  returns : s.Returns position
  method : ∀ decl, s = .function decl → decl.Returns

theorem Returns.readBack_anywhere (returns : s.Returns .branch) (obeys : s.Grammatical .branch) :
    s.ReadBack position := by
  refine ⟨returns.anywhere obeys, ?_⟩
  rintro decl rfl
  cases obeys

/-- Every statement of the grammar is read back. -/
theorem Grammatical.readBack (grammatical : s.Grammatical position) : s.ReadBack position := by
  induction grammatical with
  | expression obeys => exact (Returns.expression obeys).readBack_anywhere (.expression obeys)
  | print obeys => exact (Returns.print obeys).readBack_anywhere (.print obeys)
  | var isName obeys => exact ⟨.var isName obeys, nofun⟩
  | block obeys bodyBack =>
      have returns := Returns.block (fun inner isInner => (bodyBack inner isInner).returns) obeys
      exact returns.readBack_anywhere (.block obeys)
  | conditional obeys thenObeys elseObeys closed thenBack elseBack =>
      have returns := Returns.conditional obeys thenBack.returns
        (fun branch isBranch => (elseBack branch isBranch).returns) closed
      exact returns.readBack_anywhere (.conditional obeys thenObeys elseObeys closed)
  | loop obeys bodyObeys bodyBack =>
      exact (Returns.loop obeys bodyBack.returns).readBack_anywhere (.loop obeys bodyObeys)
  | @function name params body isName areNames few obeys bodyBack =>
      have returns : (FunctionDecl.mk name params body : FunctionDecl Unit).Returns :=
        fun depth noun tokens rest fit => .functionRest isName areNames few
          (fun inner isInner => (bodyBack inner isInner).returns) obeys fit
      refine ⟨.function returns, ?_⟩
      rintro decl ⟨⟩
      exact returns
  | «return» isReturn obeys =>
      exact (Returns.return isReturn obeys).readBack_anywhere (.return isReturn obeys)
  | «class» isName isParent obeys methodsBack =>
      have returns := fun method isMethod => (methodsBack method isMethod).method method rfl
      exact ⟨.class isName isParent returns obeys, nofun⟩

end Stmt

/-- A whole text is read back, unless it nests too deep. -/
theorem Parser.LeadsTo.program {trees : List (Stmt Unit)} {tokens : List Token} {depth : Nat}
    (obeys : ∀ tree ∈ trees, tree.Grammatical .list)
    (fit : Piece.AllFit (Stmt.piecesOfAll trees) tokens) :
    Yields True (Parser.programAt depth) tokens [] trees := by
  rw [Stmt.piecesOfAll_eq_flatMap] at fit
  have begins : BeginsEach (·.kind ∉ [TokenKind.kwElse]) Stmt.pieces trees :=
    beginsEach obeys (by decide)
  refine .look .remaining ?_
  apply LeadsTo.many (yieldsEach fun tree isTree => (obeys tree isTree).readBack.returns)
  · intro tree isTree tokens fit
    obtain ⟨token, more, rfl, unused⟩ := begins tree isTree tokens fit
    exact ⟨token, more, rfl, rfl, fun isElse => unused (List.mem_singleton.2 isElse)⟩
  · exact fit
  · have few := fit.length_le fun tree isTree => (obeys tree isTree).pieces_ne_nil
    rwa [List.append_nil]
  · intro token ahead
    cases ahead

/-- The tokens that are the unparsing of some trees are read as these trees, without complaint.
Wherever the tokens stand in the text, and however the literals are spelled, they only have to be
the tokens that the trees hold, and to say what is written around these. -/
theorem parse_undoes_unparsing {trees : List (Stmt Unit)} {tokens : List Token}
    (obeys : ∀ tree ∈ trees, tree.Grammatical .list)
    (fit : Piece.AllFit (Stmt.piecesOfAll trees) tokens) (stop : Mark) :
    (parse tokens).statements = some trees ∧ (parse tokens).issues stop = [] := by
  have yields : Yields True (Parser.programAt (2 * tokens.length + 4)) tokens [] trees :=
    .program obeys fit
  specialize yields []
  rw [List.append_nil] at yields
  have notTooDeep := parse_statements_isSome tokens
  unfold parse parseWithin at notTooDeep ⊢
  rcases yields with same | ⟨_, halted, halts⟩
  · rw [same]
    exact ⟨rfl, rfl⟩
  · rw [halts] at notTooDeep
    cases notTooDeep

/-- The tree of `if (a) if (b) c.d = e = !true; else return;`, in which the `else` belongs to the
inner conditional. -/
def danglingElseTree : Stmt Unit :=
  .conditional (.variable ⟨⟨1, 4⟩, .identifier, "a"⟩ ())
    (.conditional (.variable ⟨⟨1, 11⟩, .identifier, "b"⟩ ())
      (.expression (.set (.variable ⟨⟨1, 14⟩, .identifier, "c"⟩ ()) ⟨⟨1, 16⟩, .identifier, "d"⟩
        (.assign ⟨⟨1, 20⟩, .identifier, "e"⟩ ()
          (.unary ⟨⟨1, 24⟩, .bang, "!"⟩ (.literal (.bool true))))))
      (some (.return ⟨⟨1, 36⟩, .kwReturn, "return"⟩ none)))
    none

/-- The tokens of the same text. -/
def tokensOfDanglingElse : List Token :=
  [⟨⟨1, 0⟩, .kwIf, "if"⟩, ⟨⟨1, 3⟩, .leftParen, "("⟩, ⟨⟨1, 4⟩, .identifier, "a"⟩,
   ⟨⟨1, 5⟩, .rightParen, ")"⟩, ⟨⟨1, 7⟩, .kwIf, "if"⟩, ⟨⟨1, 10⟩, .leftParen, "("⟩,
   ⟨⟨1, 11⟩, .identifier, "b"⟩, ⟨⟨1, 12⟩, .rightParen, ")"⟩, ⟨⟨1, 14⟩, .identifier, "c"⟩,
   ⟨⟨1, 15⟩, .dot, "."⟩, ⟨⟨1, 16⟩, .identifier, "d"⟩, ⟨⟨1, 18⟩, .equal, "="⟩,
   ⟨⟨1, 20⟩, .identifier, "e"⟩, ⟨⟨1, 22⟩, .equal, "="⟩, ⟨⟨1, 24⟩, .bang, "!"⟩,
   ⟨⟨1, 25⟩, .kwTrue, "true"⟩, ⟨⟨1, 29⟩, .semicolon, ";"⟩, ⟨⟨1, 31⟩, .kwElse, "else"⟩,
   ⟨⟨1, 36⟩, .kwReturn, "return"⟩, ⟨⟨1, 42⟩, .semicolon, ";"⟩]

theorem parse_undoes_unparsing_danglingElse :
    Piece.AllFit (Stmt.piecesOfAll [danglingElseTree]) tokensOfDanglingElse ∧
      (parse tokensOfDanglingElse).statements = some [danglingElseTree] ∧
      (parse tokensOfDanglingElse).issues ⟨1, 43⟩ = [] := by
  have fit : Piece.AllFit (Stmt.piecesOfAll [danglingElseTree]) tokensOfDanglingElse := by
    decide +kernel
  have named {name : Token} (isName : name.kind = .identifier) :
      (Expr.variable name () : Expr Unit).Grammatical := (Expr.InLayer.variable isName).primary
  have value : (Expr.unary ⟨⟨1, 24⟩, .bang, "!"⟩ (.literal (.bool true)) : Expr Unit).InLayer
      .prefixed := .unary (by decide) (.primary .literal)
  have target : (Expr.variable ⟨⟨1, 14⟩, .identifier, "c"⟩ () : Expr Unit).InLayer .call :=
    .primary (.variable rfl)
  have obeys : danglingElseTree.Grammatical .list := by
    refine .conditional (named rfl) (.conditional (named rfl)
      (.expression (.set rfl target (.assign rfl value.grammatical))) ?_ (fun _ => rfl)) nofun nofun
    rintro branch ⟨⟩
    exact .return rfl nofun
  exact ⟨fit, parse_undoes_unparsing (List.forall_mem_singleton.2 obeys) fit ⟨1, 43⟩⟩

end LoxLang
