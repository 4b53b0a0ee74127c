import LoxLang.Proofs.Grammar
import LoxLang.Proofs.Written
import Mathlib.Data.List.Forall2

/-!
# Unparsing

A tree is taken apart into pieces in source order.  A piece is either a token that
the tree holds, or what a token has to say that the tree does not hold: commas,
semicolons, parentheses, most keywords, and literals, of which a tree only keeps
the value.  Tokens fit the pieces if they are the tokens held, at their places, and
say what has to be said at the other places, wherever they stand in a text and
however they are spelled.
-/

namespace LoxLang

/-- A place in a tree that is written out. -/
inductive Piece where
  /-- Here stands a token that the tree holds. -/
  | held (token : Token)
  /-- Here stands a token that says this. -/
  | said (spelling : Spelling)

namespace Piece

/-- The token may stand at the place. -/
def Fits : Piece → Token → Prop
  | held own, token => token = own
  | said spelling, token => token.spelling = spelling

instance : DecidableRel Fits
  | held own, token => inferInstanceAs (Decidable (token = own))
  | said spelling, token => inferInstanceAs (Decidable (token.spelling = spelling))

/-- A place for a token of a kind that says it all. -/
def mark (kind : TokenKind) : Piece := said (.mark kind)

/-- What a token at the place says. -/
def spelling : Piece → Spelling
  | held own => own.spelling
  | said spelling => spelling

/-- Items with commas between them. -/
def separated : List (List Piece) → List Piece
  | [] => []
  | first :: others => first ++ others.flatMap (mark .comma :: ·)

/-- The tokens are those of the pieces, one after the other. -/
abbrev AllFit (pieces : List Piece) (tokens : List Token) : Prop :=
  List.Forall₂ Fits pieces tokens

theorem Fits.kind {kind : TokenKind} {token : Token} (fits : (mark kind).Fits token) :
    token.kind = kind :=
  congrArg Spelling.kind fits

theorem Fits.spelling {piece : Piece} {token : Token} (fits : piece.Fits token) :
    token.spelling = piece.spelling := by
  cases piece with
  | held own => exact congrArg Token.spelling fits
  | said spelling => exact fits

theorem map_separated (items : List (List Piece)) :
    (separated items).map spelling = Spelling.separated (items.map (List.map spelling)) := by
  cases items with
  | nil => rfl
  | cons first others =>
      simp [separated, Spelling.separated_cons, List.map_flatMap, List.flatMap_map, spelling, mark]

namespace AllFit

variable {pieces others : List Piece} {piece : Piece} {tokens : List Token}

theorem of_append (fit : AllFit (pieces ++ others) tokens) :
    ∃ left right, tokens = left ++ right ∧ AllFit pieces left ∧ AllFit others right := by
  induction pieces generalizing tokens with
  | nil => exact ⟨[], tokens, rfl, .nil, fit⟩
  | cons first rest induction =>
      cases fit with
      | @cons _ token _ more firstFits restFit =>
          obtain ⟨left, right, rfl, leftFit, rightFit⟩ := induction restFit
          exact ⟨token :: left, right, rfl, .cons firstFits leftFit, rightFit⟩

theorem of_cons (fit : AllFit (piece :: pieces) tokens) :
    ∃ token more, tokens = token :: more ∧ piece.Fits token ∧ AllFit pieces more := by
  cases fit with
  | cons firstFits restFit => exact ⟨_, _, rfl, firstFits, restFit⟩

theorem of_held {own : Token} (fit : AllFit (held own :: pieces) tokens) :
    ∃ more, tokens = own :: more ∧ AllFit pieces more := by
  obtain ⟨token, more, rfl, same, moreFit⟩ := fit.of_cons
  exact ⟨more, congrArg (· :: more) same, moreFit⟩

theorem of_mark {kind : TokenKind} (fit : AllFit (mark kind :: pieces) tokens) :
    ∃ token more, tokens = token :: more ∧ token.kind = kind ∧ AllFit pieces more := by
  obtain ⟨token, more, rfl, fits, moreFit⟩ := fit.of_cons
  exact ⟨token, more, rfl, fits.kind, moreFit⟩

/-- There are at least as many tokens as parts with pieces. -/
theorem length_le {α : Type} {parts : List α} {piecesOf : α → List Piece}
    (fit : AllFit (parts.flatMap piecesOf) tokens) (nonempty : ∀ part ∈ parts, piecesOf part ≠ []) :
    parts.length ≤ tokens.length := by
  induction parts generalizing tokens with
  | nil => exact Nat.zero_le _
  | cons first rest induction =>
      rw [List.flatMap_cons] at fit
      obtain ⟨left, right, rfl, leftFit, rightFit⟩ := fit.of_append
      obtain ⟨firstNonempty, restNonempty⟩ := List.forall_mem_cons.1 nonempty
      have positive := List.length_pos_of_ne_nil firstNonempty
      rw [leftFit.length_eq] at positive
      have others := induction rightFit restNonempty
      simp only [List.length_cons, List.length_append]
      omega

/-- What the tokens say does not depend on where they stand. -/
theorem spelled (fit : AllFit pieces tokens) : tokens.map Token.spelling = pieces.map spelling := by
  induction fit with
  | nil => rfl
  | cons fits _ induction => rw [List.map_cons, List.map_cons, fits.spelling, induction]

end AllFit

end Piece

open Piece (held said mark separated)

variable {S : Type}

namespace Expr

mutual

/-- The pieces of an expression. -/
def pieces : Expr S → List Piece
  | .literal value => [said (.ofLiteral value)]
  | .grouping inner => mark .leftParen :: (pieces inner ++ [mark .rightParen])
  | .unary op operand => held op :: pieces operand
  | .binary left op right => pieces left ++ held op :: pieces right
  | .logical left op right => pieces left ++ held op :: pieces right
  | .variable name _ => [held name]
  | .assign name _ value => held name :: mark .equal :: pieces value
  | .call callee paren args =>
      pieces callee ++ mark .leftParen :: (separated (piecesOfEach args) ++ [held paren])
  | .get object name => pieces object ++ [mark .dot, held name]
  | .set object name value =>
      pieces object ++ [mark .dot, held name] ++ mark .equal :: pieces value
  | .this keyword _ => [held keyword]
  | .super keyword method _ => [held keyword, mark .dot, held method]

/-- The pieces of each of several expressions. -/
def piecesOfEach : List (Expr S) → List (List Piece)
  | [] => []
  | first :: rest => pieces first :: piecesOfEach rest

end

theorem piecesOfEach_eq_map (args : List (Expr S)) : piecesOfEach args = args.map pieces := by
  induction args with
  | nil => rfl
  | cons first rest induction => rw [piecesOfEach, induction, List.map_cons]

/-- The pieces of an equals sign and the value after it, if there is one. -/
def piecesOfInitializer : Option (Expr S) → List Piece
  | none => []
  | some value => mark .equal :: value.pieces

/-- The pieces of an expression that may be absent. -/
def piecesOfOptional : Option (Expr S) → List Piece
  | none => []
  | some value => value.pieces

end Expr

/-- The pieces of a less-than sign and the name of the superclass, if there is one. -/
def Superclass.pieces : Option (Superclass S) → List Piece
  | none => []
  | some parent => [mark .less, held parent.name]

mutual

/-- The pieces of a statement. -/
def Stmt.pieces : Stmt S → List Piece
  | .expression value => value.pieces ++ [mark .semicolon]
  | .print value => mark .kwPrint :: (value.pieces ++ [mark .semicolon])
  | .var name initializer =>
      mark .kwVar :: held name :: (Expr.piecesOfInitializer initializer ++ [mark .semicolon])
  | .block body => mark .leftBrace :: (Stmt.piecesOfAll body ++ [mark .rightBrace])
  | .conditional condition thenBranch none =>
      mark .kwIf :: mark .leftParen ::
        (condition.pieces ++ mark .rightParen :: thenBranch.pieces)
  | .conditional condition thenBranch (some elseBranch) =>
      mark .kwIf :: mark .leftParen ::
        (condition.pieces ++ mark .rightParen ::
          (thenBranch.pieces ++ mark .kwElse :: elseBranch.pieces))
  | .loop condition body =>
      mark .kwWhile :: mark .leftParen ::
        (condition.pieces ++ mark .rightParen :: body.pieces)
  | .function decl => mark .kwFun :: decl.pieces
  | .return keyword value =>
      held keyword :: (Expr.piecesOfOptional value ++ [mark .semicolon])
  | .class name superclass methods =>
      mark .kwClass :: held name ::
        (Superclass.pieces superclass ++ mark .leftBrace ::
          (FunctionDecl.piecesOfAll methods ++ [mark .rightBrace]))
  | .lost => []

/-- The pieces of statements, one after the other. -/
def Stmt.piecesOfAll : List (Stmt S) → List Piece
  | [] => []
  | first :: rest => first.pieces ++ Stmt.piecesOfAll rest

/-- The pieces of a function from its name on. -/
def FunctionDecl.pieces : FunctionDecl S → List Piece
  | .mk name params body =>
      held name :: mark .leftParen ::
        (separated (params.map fun param => [held param]) ++
          mark .rightParen :: mark .leftBrace ::
            (Stmt.piecesOfAll body ++ [mark .rightBrace]))

/-- The pieces of methods, one after the other. -/
def FunctionDecl.piecesOfAll : List (FunctionDecl S) → List Piece
  | [] => []
  | first :: rest => first.pieces ++ FunctionDecl.piecesOfAll rest

end

theorem Stmt.piecesOfAll_eq_flatMap (body : List (Stmt S)) :
    Stmt.piecesOfAll body = body.flatMap Stmt.pieces := by
  induction body with
  | nil => rfl
  | cons first rest induction => rw [Stmt.piecesOfAll, induction, List.flatMap_cons]

theorem FunctionDecl.piecesOfAll_eq_flatMap (methods : List (FunctionDecl S)) :
    FunctionDecl.piecesOfAll methods = methods.flatMap FunctionDecl.pieces := by
  induction methods with
  | nil => rfl
  | cons first rest induction => rw [FunctionDecl.piecesOfAll, induction, List.flatMap_cons]

section Spelling

variable {layer : Layer} {position : Position}

private theorem Token.spelling_of_mem {token : Token} {kinds : List TokenKind}
    (known : token.kind ∈ kinds) (sayAll : ∀ kind ∈ kinds, kind.saysAll = true) :
    token.spelling = .mark token.kind :=
  Token.spelling_of_saysAll (sayAll _ known)

/-- The pieces of an expression say what is written. -/
theorem Expr.InLayer.spelling_pieces {e : Expr S} (inLayer : e.InLayer layer) :
    e.pieces.map Piece.spelling = e.written := by
  induction inLayer with
  | tighter _ induction => exact induction
  | assign isName _ valueSpelled =>
      simp [Expr.pieces, Expr.written, Piece.spelling, mark, Token.spelling_of_identifier isName,
        valueSpelled]
  | set isName _ _ objectSpelled valueSpelled =>
      simp [Expr.pieces, Expr.written, Piece.spelling, mark, Token.spelling_of_identifier isName,
        objectSpelled, valueSpelled]
  | @logical layer _ _ _ known _ _ leftSpelled rightSpelled =>
      have sayAll : ∀ kind ∈ layer.logicalOperators, kind.saysAll = true := by
        cases layer <;> decide
      simp [Expr.pieces, Expr.written, Piece.spelling, Token.spelling_of_mem known sayAll,
        leftSpelled, rightSpelled]
  | @binary layer _ _ _ known _ _ leftSpelled rightSpelled =>
      have sayAll : ∀ kind ∈ layer.valueOperators, kind.saysAll = true := by
        cases layer <;> decide
      simp [Expr.pieces, Expr.written, Piece.spelling, Token.spelling_of_mem known sayAll,
        leftSpelled, rightSpelled]
  | unary known _ operandSpelled =>
      simp [Expr.pieces, Expr.written, Piece.spelling, Token.spelling_of_mem known (by decide),
        operandSpelled]
  | call isParen _ _ _ calleeSpelled argsSpelled =>
      have args := List.map_congr_left argsSpelled
      simp [Expr.pieces, Expr.written, Piece.spelling, mark, Piece.map_separated,
        Expr.piecesOfEach_eq_map, Expr.writtenEach_eq_map, Function.comp_def, args, calleeSpelled,
        Token.spelling_of_kind isParen rfl]
  | get isName _ objectSpelled =>
      simp [Expr.pieces, Expr.written, Piece.spelling, mark, Token.spelling_of_identifier isName,
        objectSpelled]
  | grouping _ innerSpelled => simp [Expr.pieces, Expr.written, Piece.spelling, mark, innerSpelled]
  | literal => rfl
  | «variable» isName =>
      simp [Expr.pieces, Expr.written, Piece.spelling, Token.spelling_of_identifier isName]
  | this isThis =>
      simp [Expr.pieces, Expr.written, Piece.spelling, Token.spelling_of_kind isThis rfl]
  | super isSuper isName =>
      simp [Expr.pieces, Expr.written, Piece.spelling, mark, Token.spelling_of_kind isSuper rfl,
        Token.spelling_of_identifier isName]

/-- The pieces of a statement say what is written. -/
theorem Stmt.Grammatical.spelling_pieces {s : Stmt S} (grammatical : s.Grammatical position) :
    s.pieces.map Piece.spelling = s.written := by
  induction grammatical with
  | expression obeys | print obeys =>
      simp [Stmt.pieces, Stmt.written, Piece.spelling, mark, obeys.spelling_pieces]
  | @var name initializer isName obeys =>
      cases initializer with
      | none =>
          simp [Stmt.pieces, Stmt.written, Piece.spelling, mark, Expr.piecesOfInitializer,
            Expr.writtenInitializer, Token.spelling_of_identifier isName]
      | some value =>
          simp [Stmt.pieces, Stmt.written, Piece.spelling, mark, Expr.piecesOfInitializer,
            Expr.writtenInitializer, Token.spelling_of_identifier isName,
            (obeys value rfl).spelling_pieces]
  | block _ bodySpelled =>
      have body := List.flatMap_congr bodySpelled
      simp [Stmt.pieces, Stmt.written, Piece.spelling, mark, Stmt.piecesOfAll_eq_flatMap,
        Stmt.writtenAll_eq_flatMap, List.map_flatMap, body]
  | @conditional _ _ _ elseBranch obeys _ _ _ thenSpelled elseSpelled =>
      cases elseBranch with
      | none =>
          simp [Stmt.pieces, Stmt.written, Piece.spelling, mark, obeys.spelling_pieces, thenSpelled]
      | some branch =>
          simp [Stmt.pieces, Stmt.written, Piece.spelling, mark, obeys.spelling_pieces, thenSpelled,
            elseSpelled branch rfl]
  | loop obeys _ bodySpelled =>
      simp [Stmt.pieces, Stmt.written, Piece.spelling, mark, obeys.spelling_pieces, bodySpelled]
  | @function name params body isName areNames _ _ bodySpelled =>
      have names : params.map ((List.map Piece.spelling) ∘ fun param => [held param]) =
          params.map fun param => [.identifier param.lexeme] :=
        List.map_congr_left fun param isParam => by
          simp [Piece.spelling, Token.spelling_of_identifier (areNames param isParam)]
      have bodies := List.flatMap_congr bodySpelled
      simp [Stmt.pieces, Stmt.written, FunctionDecl.pieces, FunctionDecl.written, Piece.spelling,
        mark, Piece.map_separated, names, Stmt.piecesOfAll_eq_flatMap, Stmt.writtenAll_eq_flatMap,
        List.map_flatMap, bodies, Token.spelling_of_identifier isName]
  | @«return» _ keyword value isReturn obeys =>
      cases value with
      | none =>
          simp [Stmt.pieces, Stmt.written, Piece.spelling, mark, Expr.piecesOfOptional,
            Expr.writtenOptional, Token.spelling_of_kind isReturn rfl]
      | some result =>
          simp [Stmt.pieces, Stmt.written, Piece.spelling, mark, Expr.piecesOfOptional,
            Expr.writtenOptional, Token.spelling_of_kind isReturn rfl,
            (obeys result rfl).spelling_pieces]
  | @«class» name superclass methods isName isParent _ methodsSpelled =>
      have each : ∀ method ∈ methods, method.pieces.map Piece.spelling = method.written := by
        intro method isMethod
        have spelled := methodsSpelled method isMethod
        rw [Stmt.pieces, Stmt.written, List.map_cons] at spelled
        exact (List.cons.inj spelled).2
      have spelled := List.flatMap_congr each
      cases superclass with
      | none =>
          simp [Stmt.pieces, Stmt.written, Superclass.pieces, Superclass.written, Piece.spelling,
            mark, FunctionDecl.piecesOfAll_eq_flatMap, FunctionDecl.writtenAll_eq_flatMap,
            List.map_flatMap, spelled, Token.spelling_of_identifier isName]
      | some parent =>
          simp [Stmt.pieces, Stmt.written, Superclass.pieces, Superclass.written, Piece.spelling,
            mark, FunctionDecl.piecesOfAll_eq_flatMap, FunctionDecl.writtenAll_eq_flatMap,
            List.map_flatMap, spelled, Token.spelling_of_identifier isName,
            Token.spelling_of_identifier (isParent parent rfl)]

/-- Tokens that fit the pieces of trees are these trees written out. -/
theorem Piece.AllFit.written {trees : List (Stmt S)} {tokens : List Token}
    (fit : AllFit (Stmt.piecesOfAll trees) tokens)
    (obeys : ∀ tree ∈ trees, tree.Grammatical position) :
    tokens.map Token.spelling = Stmt.writtenAll trees := by
  rw [fit.spelled, Stmt.piecesOfAll_eq_flatMap, List.map_flatMap, Stmt.writtenAll_eq_flatMap]
  exact List.flatMap_congr fun tree isTree => (obeys tree isTree).spelling_pieces

end Spelling

end LoxLang
