import LoxLang.Parser
import LoxLang.Proofs.Parser.Yielding

/-!
# Expressions are read back

Whatever stands in a layer of the grammar is read back by the parser of that layer,
in front of any token that does not go on with an expression of the layer.  The
layers whose operators associate to the left read an operand and then go round a
loop: it is the loop, not the layer, that a longer left operand leads to, and only
the token that ends the loop has to come from outside of the layer.
-/

namespace LoxLang

namespace Layer

/-- The operators of a layer that associate to the left. -/
def operators (layer : Layer) : List TokenKind := layer.valueOperators ++ layer.logicalOperators

/-- Whether a layer goes round a loop. -/
def isCircular : Layer → Bool
  | assignment | prefixed | primary => false
  | _ => true

/-- What a layer makes of two operands. -/
def join : Layer → Expr Unit → Token → Expr Unit → Expr Unit
  | disjunction | conjunction => .logical
  | _ => .binary

/-- The tokens with which an expression of the layer goes on, if its first part is of a tighter
layer. -/
def continuations : Layer → List TokenKind
  | assignment => [.equal]
  | call => [.leftParen, .dot]
  | layer => layer.operators

/-- The layer and all tighter ones. -/
def andTighter (layer : Layer) : List Layer :=
  [assignment, disjunction, conjunction, equality, comparison, sum, product, prefixed, call,
    primary].dropWhile (· ≠ layer)

/-- The token ends an expression of the layer. -/
def Ends (layer : Layer) (token : Token) : Prop :=
  token.kind ∉ layer.andTighter.flatMap continuations

theorem continuations_subset (layer : Layer) :
    layer.continuations ⊆ layer.andTighter.flatMap continuations := by
  cases layer <;> decide

theorem Ends.tighter {layer : Layer} {token : Token} (ends : layer.Ends token) :
    layer.tighter.Ends token := by
  have smaller : layer.tighter.andTighter.flatMap continuations ⊆
      layer.andTighter.flatMap continuations := by
    cases layer <;> decide
  exact fun goesOn => ends (smaller goesOn)

theorem Ends.notOwn {layer : Layer} {token : Token} (ends : layer.Ends token) :
    token.kind ∉ layer.continuations :=
  fun goesOn => ends (layer.continuations_subset goesOn)

/-- The operators of a layer end the expressions of tighter layers. -/
theorem ends_of_mem_continuations {layer : Layer} {token : Token}
    (goesOn : token.kind ∈ layer.continuations) : layer.tighter.Ends token := by
  have apart : ∀ kind ∈ layer.continuations,
      kind ∉ layer.tighter.andTighter.flatMap continuations := by
    cases layer <;> decide
  exact apart token.kind goesOn

/-- The kinds of tokens with which an expression of the layer begins. -/
def beginnings : Layer → List TokenKind
  | call | primary => [.kwFalse, .kwTrue, .kwNil, .number, .string, .kwSuper, .kwThis, .identifier,
      .leftParen]
  | _ => [.bang, .minus, .kwFalse, .kwTrue, .kwNil, .number, .string, .kwSuper, .kwThis,
      .identifier, .leftParen]

theorem beginnings_tighter (layer : Layer) : layer.tighter.beginnings ⊆ layer.beginnings := by
  cases layer <;> decide

end Layer

theorem Token.kind_mem_of_literal {token : Token} {value : Literal}
    (spelled : token.spelling = .ofLiteral value) :
    token.kind ∈ [TokenKind.kwFalse, .kwTrue, .kwNil, .number, .string] := by
  have kind := congrArg Spelling.kind spelled
  change token.kind = _ at kind
  rw [kind]
  cases value with
  | nil => decide
  | bool value => cases value <;> decide
  | number | text => simp [Spelling.ofLiteral]

/-- The loosest layer takes the expressions of every layer. -/
theorem Expr.InLayer.grammatical {S : Type} {layer : Layer} {e : Expr S}
    (inLayer : e.InLayer layer) :
    e.Grammatical := by
  cases layer <;> repeat first
    | exact inLayer
    | refine .tighter ?_

/-- An expression begins with a token of its layer. -/
theorem Expr.InLayer.begins {S : Type} {layer : Layer} {e : Expr S} (inLayer : e.InLayer layer) :
    ∃ piece more, e.pieces = piece :: more ∧
      ∀ token, piece.Fits token → token.kind ∈ layer.beginnings := by
  have same {own : Token} {kinds : List TokenKind} (known : own.kind ∈ kinds) :
      ∀ token, (Piece.held own).Fits token → token.kind ∈ kinds := by
    rintro token rfl
    exact known
  have goesOn {kinds : List TokenKind} {pieces after : List Piece} {layer : Layer}
      (begins : ∃ piece more, pieces = piece :: more ∧
        ∀ token, piece.Fits token → token.kind ∈ kinds) (within : kinds ⊆ layer.beginnings) :
      ∃ piece more, pieces ++ after = piece :: more ∧
        ∀ token, piece.Fits token → token.kind ∈ layer.beginnings := by
    obtain ⟨piece, more, rfl, fits⟩ := begins
    exact ⟨piece, more ++ after, rfl, fun token is => within (fits token is)⟩
  induction inLayer with
  | @tighter layer e _ induction =>
      obtain ⟨piece, more, isCons, fits⟩ := induction
      exact ⟨piece, more, isCons, fun token is => layer.beginnings_tighter (fits token is)⟩
  | assign isName _ _ =>
      exact ⟨_, _, rfl, same (by rw [isName]; decide)⟩
  | set isName _ _ objectBegins _ =>
      rw [Expr.pieces, List.append_assoc]
      exact goesOn objectBegins (by decide)
  | logical _ _ _ leftBegins _ => exact goesOn leftBegins (List.Subset.refl _)
  | binary _ _ _ leftBegins _ => exact goesOn leftBegins (List.Subset.refl _)
  | unary isOperator _ _ =>
      have within : [TokenKind.bang, .minus] ⊆ Layer.prefixed.beginnings := by decide
      exact ⟨_, _, rfl, same (within isOperator)⟩
  | call _ _ _ _ calleeBegins _ => exact goesOn calleeBegins (List.Subset.refl _)
  | get _ _ objectBegins => exact goesOn objectBegins (List.Subset.refl _)
  | grouping _ _ =>
      refine ⟨_, _, rfl, fun token is => ?_⟩
      rw [is.kind]
      decide
  | literal =>
      refine ⟨_, _, rfl, fun token is => ?_⟩
      have within : [TokenKind.kwFalse, .kwTrue, .kwNil, .number, .string] ⊆
          Layer.primary.beginnings := by decide
      exact within (Token.kind_mem_of_literal is)
  | «variable» isName => exact ⟨_, _, rfl, same (by rw [isName]; decide)⟩
  | this isThis => exact ⟨_, _, rfl, same (by rw [isThis]; decide)⟩
  | super isSuper _ => exact ⟨_, _, rfl, same (by rw [isSuper]; decide)⟩

theorem Expr.InLayer.first {S : Type} {layer : Layer} {e : Expr S} (inLayer : e.InLayer layer)
    {tokens : List Token} (fit : Piece.AllFit e.pieces tokens) :
    ∃ token more, tokens = token :: more ∧ token.kind ∈ layer.beginnings := by
  obtain ⟨piece, rest, isCons, begins⟩ := inLayer.begins
  rw [isCons] at fit
  obtain ⟨token, more, rfl, fits, _⟩ := fit.of_cons
  exact ⟨token, more, rfl, begins token fits⟩

namespace Parser

/-- The parser of a layer, which nests at most `depth` levels deep. -/
def ofLayer (depth : Nat) : Layer → Parser (Expr Unit)
  | .assignment => expressionAt depth
  | .disjunction => disjunction (unaryAt depth)
  | .conjunction => conjunction (unaryAt depth)
  | .equality => equality (unaryAt depth)
  | .comparison => comparison (unaryAt depth)
  | .sum => sum (unaryAt depth)
  | .product => product (unaryAt depth)
  | .prefixed => unaryAt depth
  | .call => call (expressionAt depth)
  | .primary => primary (expressionAt depth)

/-- How a layer whose first part has been read goes round its loop. -/
def loopOf (depth : Nat) (layer : Layer) : (fuel : Nat) → Expr Unit → Parser (Expr Unit) :=
  match layer with
  | .call => callsAfter (expressionAt depth)
  | layer => operatorsAfter (ofLayer depth layer.tighter) layer.operators layer.join

/-- Such a layer reads a first part of the next tighter layer and then goes round its loop. -/
theorem ofLayer_circular {layer : Layer} (circular : layer.isCircular = true) (depth : Nat) :
    ofLayer depth layer =
      ofLayer depth layer.tighter >>= fun e => remaining >>= fun fuel =>
        loopOf depth layer fuel e := by
  cases layer <;> first
    | rfl
    | cases circular

/-- The loop ends where the layer does. -/
theorem loopOf_ends {depth fuel : Nat} {layer : Layer} {e : Expr Unit} {rest : List Token}
    (ends : ∀ token ∈ rest.head?, layer.Ends token) :
    Yields True (loopOf depth layer fuel e) [] rest e := by
  have declines {operand : Parser (Expr Unit)} {kinds : List TokenKind}
      {join : Expr Unit → Token → Expr Unit → Expr Unit}
      (unwanted : ∀ token ∈ rest.head?, token.kind ∉ kinds) :
      Yields True (operatorsAfter operand kinds join fuel e) [] rest e := by
    cases fuel with
    | zero => exact .refl _ _
    | succ fuel => exact .declineThen unwanted (.refl _ _)
  cases layer with
  | call =>
      cases fuel with
      | zero => exact .refl _ _
      | succ fuel => exact .declineThen (fun token ahead => (ends token ahead).notOwn) (.refl _ _)
  | assignment | prefixed | primary => exact declines fun _ _ => List.not_mem_nil
  | _ => exact declines fun token ahead => (ends token ahead).notOwn

end Parser

open LoxLang.Parser (LeadsTo Yields ofLayer loopOf)

variable {layer : Layer} {e : Expr Unit}

/-- The tokens of the expression lead to it, and back into the loop of the layer. -/
def Expr.Circles (layer : Layer) (e : Expr Unit) : Prop :=
  ∀ depth tokens rest, Piece.AllFit e.pieces tokens →
    (∀ token ∈ rest.head?, layer.tighter.Ends token) →
    ∃ fuel, rest.length ≤ fuel ∧ LeadsTo True (ofLayer depth layer) tokens rest
      (loopOf depth layer fuel e)

/-- The tokens of the expression are read as the expression, in front of anything that ends an
expression of the layer. -/
def Expr.Returns (layer : Layer) (e : Expr Unit) : Prop :=
  ∀ depth tokens rest, Piece.AllFit e.pieces tokens → (∀ token ∈ rest.head?, layer.Ends token) →
    Yields True (ofLayer depth layer) tokens rest e

/-- The expression is read back in the layer. -/
structure Expr.ReadBack (layer : Layer) (e : Expr Unit) : Prop where
  returns : e.Returns layer
  circles : layer.isCircular = true → e.Circles layer

namespace Expr

theorem Circles.returns (circles : e.Circles layer) : e.Returns layer := by
  intro depth tokens rest fit ends
  obtain ⟨fuel, _, leads⟩ := circles depth tokens rest fit fun token ahead =>
    (ends token ahead).tighter
  have steps : LeadsTo True (ofLayer depth layer) (tokens ++ []) rest (pure e) :=
    leads.trans (Parser.loopOf_ends ends)
  rwa [List.append_nil] at steps

theorem Circles.readBack (circles : e.Circles layer) : e.ReadBack layer :=
  ⟨circles.returns, fun _ => circles⟩

/-- Before the first operator of a layer there is an expression of the next tighter layer. -/
theorem Returns.circles (returns : e.Returns layer.tighter) (circular : layer.isCircular = true) :
    e.Circles layer := by
  intro depth tokens rest fit ends
  refine ⟨rest.length, Nat.le_refl _, ?_⟩
  rw [Parser.ofLayer_circular circular]
  exact (returns depth tokens rest fit ends).finish (.look .remaining (.refl _ _))

/-- What is read back in a layer is read back in the next looser one.  A prefix operator is looked
for before a callee, so that the callee must not begin with one. -/
theorem ReadBack.looser (layer : Layer) (inner : e.ReadBack layer.tighter)
    (callee : layer = .prefixed → e.InLayer .call) : e.ReadBack layer := by
  refine ⟨?_, inner.returns.circles⟩
  cases layer with
  | assignment =>
      intro depth tokens rest fit ends
      cases depth with
      | zero => exact .tooDeep trivial
      | succ depth =>
          refine (inner.returns depth tokens rest fit fun token ahead =>
            (ends token ahead).tighter).finish ?_
          exact .declineThen (fun token ahead => (ends token ahead).notOwn) (.refl _ _)
  | prefixed =>
      intro depth tokens rest fit ends
      cases depth with
      | zero => exact .tooDeep trivial
      | succ depth =>
          obtain ⟨first, more, rfl, begins⟩ := (callee rfl).first fit
          have notOperator : first.kind ∉ [TokenKind.bang, .minus] := by
            have apart : ∀ kind ∈ Layer.call.beginnings, kind ∉ [TokenKind.bang, .minus] := by
              decide
            exact apart _ begins
          refine .declineThen ?_ (inner.returns depth _ rest fit fun token ahead =>
            (ends token ahead).tighter)
          intro token ahead
          cases ahead
          exact notOperator
  | primary => exact inner.returns
  | _ => exact (inner.returns.circles rfl).returns

/-- In front of a token that is looked at in the loop, there is fuel for one more round. -/
theorem Circles.round (circles : e.Circles layer) (depth : Nat) {tokens : List Token}
    {token : Token}
    (more : List Token) (fit : Piece.AllFit e.pieces tokens) (ends : layer.tighter.Ends token) :
    ∃ fuel, more.length ≤ fuel ∧
      LeadsTo True (ofLayer depth layer) tokens (token :: more)
        (loopOf depth layer (fuel + 1) e) := by
  obtain ⟨fuel, enough, leads⟩ := circles depth tokens (token :: more) fit (by
    intro first ahead
    cases ahead
    exact ends)
  obtain ⟨less, rfl⟩ : ∃ less, fuel = less + 1 :=
    Nat.exists_eq_add_of_le' (Nat.le_trans (Nat.succ_pos _) enough)
  exact ⟨less, Nat.le_of_succ_le_succ enough, leads⟩

theorem Circles.operator {left right : Expr Unit} {op : Token} (known : op.kind ∈ layer.operators)
    (leftCircles : left.Circles layer) (rightReturns : right.Returns layer.tighter)
    (isJoin : e = layer.join left op right)
    (pieces : e.pieces = left.pieces ++ .held op :: right.pieces) : e.Circles layer := by
  intro depth tokens rest fit ends
  rw [pieces] at fit
  obtain ⟨leftTokens, more, rfl, leftFit, moreFit⟩ := fit.of_append
  obtain ⟨rightTokens, rfl, rightFit⟩ := moreFit.of_held
  have isOwn : op.kind ∈ layer.continuations := by
    cases layer <;> first
      | exact known
      | exact absurd known List.not_mem_nil
  obtain ⟨fuel, enough, leads⟩ := leftCircles.round depth (rightTokens ++ rest) leftFit
    (Layer.ends_of_mem_continuations isOwn)
  rw [List.length_append] at enough
  refine ⟨fuel, by omega, leads.trans ?_⟩
  have loop (fuel : Nat) (expr : Expr Unit) : loopOf depth layer fuel expr =
      Parser.operatorsAfter (ofLayer depth layer.tighter) layer.operators layer.join fuel expr := by
    cases layer <;> first
      | rfl
      | exact absurd known List.not_mem_nil
  rw [loop, loop, isJoin]
  exact .acceptThen known
    ((rightReturns depth rightTokens rest rightFit ends).finish (.refl _ _))

theorem Circles.call {callee : Expr Unit} {paren : Token} {args : List (Expr Unit)}
    (calleeCircles : callee.Circles .call) (isParen : paren.kind = .rightParen)
    (argsReturn : ∀ arg ∈ args, arg.Returns .assignment)
    (argsLayer : ∀ arg ∈ args, arg.InLayer .assignment) (few : args.length ≤ itemLimit) :
    (Expr.call callee paren args).Circles .call := by
  intro depth tokens rest fit ends
  rw [Expr.pieces, piecesOfEach_eq_map] at fit
  obtain ⟨calleeTokens, more, rfl, calleeFit, moreFit⟩ := fit.of_append
  obtain ⟨opening, more, rfl, isOpening, moreFit⟩ := moreFit.of_mark
  obtain ⟨argTokens, more, rfl, argsFit, moreFit⟩ := moreFit.of_append
  obtain ⟨more, rfl, lastFit⟩ := moreFit.of_held
  cases lastFit
  obtain ⟨fuel, enough, leads⟩ := calleeCircles.round depth ((argTokens ++ [paren]) ++ rest)
    calleeFit List.not_mem_nil
  rw [List.length_append] at enough
  refine ⟨fuel, by omega, leads.trans ?_⟩
  refine .acceptThen (by rw [isOpening]; decide) ?_
  simp only [isOpening, if_true]
  have argsYield : Yields True (Parser.items (Parser.expressionAt depth) .tooManyArguments)
      argTokens
      ([paren] ++ rest) args := by
    apply LeadsTo.items
    · intro arg isArg tokens rest fit divided
      apply argsReturn arg isArg depth tokens rest fit
      intro token ahead
      rcases divided token ahead with isComma | isClosing
      · rw [Layer.Ends, isComma]
        decide
      · rw [Layer.Ends, isClosing]
        decide
    · intro arg isArg tokens fit
      obtain ⟨first, more, rfl, begins⟩ := (argsLayer arg isArg).first fit
      refine ⟨first, more, rfl, fun isClosing => ?_⟩
      rw [isClosing] at begins
      revert begins
      decide
    · exact argsFit
    · exact few
    · exact ⟨paren, rest, rfl, isParen⟩
  exact argsYield.bind (.expectThen isParen (.refl _ _))

theorem Circles.get {object : Expr Unit} {name : Token} (objectCircles : object.Circles .call)
    (isName : name.kind = .identifier) : (Expr.get object name).Circles .call := by
  intro depth tokens rest fit ends
  rw [Expr.pieces] at fit
  obtain ⟨objectTokens, more, rfl, objectFit, moreFit⟩ := fit.of_append
  obtain ⟨dot, more, rfl, isDot, moreFit⟩ := moreFit.of_mark
  obtain ⟨more, rfl, lastFit⟩ := moreFit.of_held
  cases lastFit
  obtain ⟨fuel, enough, leads⟩ := objectCircles.round depth ([name] ++ rest) objectFit
    List.not_mem_nil
  rw [List.length_append] at enough
  refine ⟨fuel, by omega, leads.trans ?_⟩
  refine .acceptThen (by rw [isDot]; decide) ?_
  have notOpening : ¬dot.kind = .leftParen := by
    rw [isDot]
    decide
  simp only [notOpening, if_false]
  exact .expectThen isName (.refl _ _)

theorem Returns.unary {op : Token} {operand : Expr Unit}
    (isOperator : op.kind ∈ [TokenKind.bang, .minus])
    (operandReturns : operand.Returns .prefixed) : (Expr.unary op operand).Returns .prefixed := by
  intro depth tokens rest fit ends
  obtain ⟨more, rfl, operandFit⟩ := fit.of_held
  cases depth with
  | zero => exact .tooDeep trivial
  | succ depth => exact .acceptThen isOperator (operandReturns depth more rest operandFit ends).map

/-- An equals sign and a value after something that can be assigned to. -/
theorem Returns.assignment {target value : Expr Unit} (targetReturns : target.Returns .disjunction)
    (valueReturns : value.Returns .assignment) (assigns : Parser.assignTo value target = some e)
    (pieces : e.pieces = target.pieces ++ .mark .equal :: value.pieces) :
    e.Returns .assignment := by
  intro depth tokens rest fit ends
  rw [pieces] at fit
  obtain ⟨targetTokens, more, rfl, targetFit, moreFit⟩ := fit.of_append
  obtain ⟨equals, valueTokens, rfl, isEqual, valueFit⟩ := moreFit.of_mark
  cases depth with
  | zero => exact .tooDeep trivial
  | succ depth =>
      have equalEnds : Layer.disjunction.Ends equals := by
        rw [Layer.Ends, isEqual]
        decide
      have targetYields := targetReturns depth targetTokens (equals :: valueTokens ++ rest)
        targetFit (by
        intro token ahead
        cases ahead
        exact equalEnds)
      refine targetYields.bind (.acceptThen (List.mem_singleton.2 isEqual) ?_)
      refine (valueReturns depth valueTokens rest valueFit ends).finish ?_
      simp only [assigns]
      exact .refl _ _

theorem Returns.single {own : Token} (pieces : e.pieces = [.held own])
    (yields : ∀ nested rest, Yields True (Parser.primary nested) [own] rest e) :
    e.Returns .primary := by
  intro depth tokens rest fit _
  rw [pieces] at fit
  obtain ⟨more, rfl, lastFit⟩ := fit.of_held
  cases lastFit
  exact yields _ rest

theorem Returns.variable {name : Token} {site : Unit} (isName : name.kind = .identifier) :
    (Expr.variable name site).Returns .primary := by
  refine Returns.single rfl fun nested rest => .acceptThen (by rw [isName]; decide) ?_
  simp only [isName]
  exact .refl _ _

theorem Returns.this {keyword : Token} {site : Unit} (isThis : keyword.kind = .kwThis) :
    (Expr.this keyword site).Returns .primary := by
  refine Returns.single rfl fun nested rest => .acceptThen (by rw [isThis]; decide) ?_
  simp only [isThis]
  exact .refl _ _

theorem Returns.super {keyword method : Token} {site : Unit} (isSuper : keyword.kind = .kwSuper)
    (isMethod : method.kind = .identifier) : (Expr.super keyword method site).Returns .primary := by
  intro depth tokens rest fit _
  obtain ⟨more, rfl, moreFit⟩ := fit.of_held
  obtain ⟨dot, more, rfl, isDot, moreFit⟩ := moreFit.of_mark
  obtain ⟨more, rfl, lastFit⟩ := moreFit.of_held
  cases lastFit
  refine .acceptThen (by rw [isSuper]; decide) ?_
  simp only [isSuper]
  exact .expectThen isDot (.expectThen isMethod (.refl _ _))

theorem Returns.grouping {inner : Expr Unit} (innerReturns : inner.Returns .assignment) :
    (Expr.grouping inner).Returns .primary := by
  intro depth tokens rest fit _
  obtain ⟨opening, more, rfl, isOpening, moreFit⟩ := fit.of_mark
  obtain ⟨innerTokens, more, rfl, innerFit, moreFit⟩ := moreFit.of_append
  obtain ⟨closing, more, rfl, isClosing, lastFit⟩ := moreFit.of_mark
  cases lastFit
  have closingEnds : Layer.assignment.Ends closing := by
    rw [Layer.Ends, isClosing]
    decide
  refine .acceptThen (by rw [isOpening]; decide) ?_
  simp only [isOpening]
  refine (innerReturns depth innerTokens ([closing] ++ rest) innerFit ?_).bind
    (.expectThen isClosing (.refl _ _))
  intro token ahead
  cases ahead
  exact closingEnds

/-- The value of a literal is that of its token. -/
theorem Returns.literal {value : Literal} : (Expr.literal value : Expr Unit).Returns .primary := by
  intro depth tokens rest fit _
  obtain ⟨token, more, rfl, spelled, lastFit⟩ := fit.of_cons
  cases lastFit
  have spelled : token.spelling = .ofLiteral value := spelled
  have kind : token.kind = (Spelling.ofLiteral value).kind := congrArg Spelling.kind spelled
  have literal : token.literal? = (Spelling.ofLiteral value).literal :=
    congrArg Spelling.literal spelled
  have within : [TokenKind.kwFalse, .kwTrue, .kwNil, .number, .string] ⊆
      Layer.primary.beginnings := by decide
  refine .acceptThen (within (Token.kind_mem_of_literal spelled)) ?_
  cases value with
  | bool value =>
      cases value <;> simp only [kind, Spelling.ofLiteral, Spelling.mark] <;> exact .refl _ _
  | _ =>
      simp only [kind, literal, Spelling.ofLiteral, Spelling.mark]
      exact .refl _ _

theorem Returns.readBack_primary (returns : e.Returns .primary) : e.ReadBack .primary :=
  ⟨returns, nofun⟩

/-- What is read back as a callee is read back as the left side of an assignment. -/
theorem ReadBack.disjunction (inner : e.ReadBack .call) (inLayer : e.InLayer .call) :
    e.ReadBack .disjunction := by
  have prefixed := inner.looser .prefixed fun _ => inLayer
  have product := prefixed.looser .product nofun
  have sum := product.looser .sum nofun
  have comparison := sum.looser .comparison nofun
  have equality := comparison.looser .equality nofun
  have conjunction := equality.looser .conjunction nofun
  exact conjunction.looser .disjunction nofun

/-- Every expression of the grammar is read back. -/
theorem InLayer.readBack (inLayer : e.InLayer layer) : e.ReadBack layer := by
  induction inLayer with
  | @tighter layer e inLayer induction =>
      refine induction.looser layer fun same => ?_
      subst same
      exact inLayer
  | @assign name site value isName _ valueBack =>
      have target : (Expr.variable name ()).InLayer .call := .tighter (.variable isName)
      have targetBack : (Expr.variable name ()).ReadBack .call :=
        (Returns.variable isName).readBack_primary.looser .call nofun
      exact ⟨.assignment (targetBack.disjunction target).returns valueBack.returns rfl rfl, nofun⟩
  | @set object name value isName objectLayer _ objectBack valueBack =>
      have target : (Expr.get object name).InLayer .call := .get isName objectLayer
      have targetBack : (Expr.get object name).ReadBack .call :=
        ((objectBack.circles rfl).get isName).readBack
      exact ⟨.assignment (targetBack.disjunction target).returns valueBack.returns rfl rfl, nofun⟩
  | @logical layer left op right known _ _ leftBack rightBack =>
      have operator : op.kind ∈ layer.operators := List.mem_append_right _ known
      have circular : layer.isCircular = true := by cases layer <;> first | rfl | cases known
      have join : layer.join = .logical := by cases layer <;> first | rfl | cases known
      exact ((leftBack.circles circular).operator operator rightBack.returns (by rw [join])
        rfl).readBack
  | @binary layer left op right known _ _ leftBack rightBack =>
      have operator : op.kind ∈ layer.operators := List.mem_append_left _ known
      have circular : layer.isCircular = true := by cases layer <;> first | rfl | cases known
      have join : layer.join = .binary := by cases layer <;> first | rfl | cases known
      exact ((leftBack.circles circular).operator operator rightBack.returns (by rw [join])
        rfl).readBack
  | unary isOperator _ operandBack => exact ⟨.unary isOperator operandBack.returns, nofun⟩
  | call isParen _ argsLayer few calleeBack argsBack =>
      exact ((calleeBack.circles rfl).call isParen (fun arg member => (argsBack arg member).returns)
        argsLayer few).readBack
  | get isName _ objectBack => exact ((objectBack.circles rfl).get isName).readBack
  | grouping _ innerBack => exact (Returns.grouping innerBack.returns).readBack_primary
  | literal => exact Returns.literal.readBack_primary
  | «variable» isName => exact (Returns.variable isName).readBack_primary
  | this isThis => exact (Returns.this isThis).readBack_primary
  | super isSuper isMethod => exact (Returns.super isSuper isMethod).readBack_primary

end Expr

end LoxLang
