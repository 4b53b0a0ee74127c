import LoxLang.Parser.Expression
import LoxLang.Proofs.Grammar
import LoxLang.Proofs.Parser.Pieces
import LoxLang.Proofs.TreeTokens

/-!
# What the expression parsers read

Each layer reads an expression of its layer, from tokens that say what the
expression says when it is written out.
-/

namespace LoxLang

namespace TokenKind

theorem saysAll_of_mem_valueOperators {layer : Layer} :
    ∀ kind ∈ layer.valueOperators, kind.saysAll = true := by
  cases layer <;> decide

theorem saysAll_of_mem_logicalOperators {layer : Layer} :
    ∀ kind ∈ layer.logicalOperators, kind.saysAll = true := by
  cases layer <;> decide

end TokenKind

/-- The expression stands in a layer of the grammar, and these are the tokens that it was read
from. -/
structure Expr.ReadFrom (layer : Layer) (taken : List Token) (e : Expr Unit) : Prop where
  inLayer : e.InLayer layer
  written : e.written = taken.map Token.spelling
  tokens : ∀ token, e.tokens.count token ≤ taken.count token

-- What one kind of expression says when written out is computed from what its parts say.
attribute [local simp] Expr.written

namespace Expr.ReadFrom

theorem tighter {layer : Layer} {taken : List Token} {e : Expr Unit}
    (read : e.ReadFrom layer.tighter taken) : e.ReadFrom layer taken :=
  ⟨read.inLayer.tighter, read.written, read.tokens⟩

variable {layer : Layer} {left right value : Expr Unit} {op : Token}
  {leftTaken rightTaken taken : List Token}

theorem binary (operator : op.kind ∈ layer.valueOperators)
    (leftRead : left.ReadFrom layer leftTaken)
    (rightRead : right.ReadFrom layer.tighter rightTaken) :
    (Expr.binary left op right).ReadFrom layer (leftTaken ++ op :: rightTaken) := by
  have saysAll := TokenKind.saysAll_of_mem_valueOperators op.kind operator
  refine ⟨.binary operator leftRead.inLayer rightRead.inLayer, ?_, ?_⟩
  · simp [leftRead.written, rightRead.written, Token.spelling_of_saysAll saysAll]
  · intro token
    have leftCount := leftRead.tokens token
    have rightCount := rightRead.tokens token
    simp only [Expr.tokens, List.count_append, List.count_cons]
    omega

theorem logical (operator : op.kind ∈ layer.logicalOperators)
    (leftRead : left.ReadFrom layer leftTaken)
    (rightRead : right.ReadFrom layer.tighter rightTaken) :
    (Expr.logical left op right).ReadFrom layer (leftTaken ++ op :: rightTaken) := by
  have saysAll := TokenKind.saysAll_of_mem_logicalOperators op.kind operator
  refine ⟨.logical operator leftRead.inLayer rightRead.inLayer, ?_, ?_⟩
  · simp [leftRead.written, rightRead.written, Token.spelling_of_saysAll saysAll]
  · intro token
    have leftCount := leftRead.tokens token
    have rightCount := rightRead.tokens token
    simp only [Expr.tokens, List.count_append, List.count_cons]
    omega

theorem assignTo {target assigned : Expr Unit} {equals : Token}
    (same : Parser.assignTo value target = some assigned) (isEqual : equals.kind = .equal)
    (targetRead : target.ReadFrom .disjunction leftTaken)
    (valueRead : value.ReadFrom .assignment rightTaken) :
    assigned.ReadFrom .assignment (leftTaken ++ equals :: rightTaken) := by
  have equalsSpelling := Token.spelling_of_kind isEqual rfl
  have targetWritten := targetRead.written
  have targetTokens := targetRead.tokens
  unfold Parser.assignTo at same
  split at same
  · rename_i name site
    cases same
    refine ⟨.assign targetRead.inLayer.variable_kind valueRead.inLayer, ?_, ?_⟩
    · rw [Expr.written] at targetWritten
      simp [← targetWritten, valueRead.written, equalsSpelling]
    · intro token
      have targetCount := targetTokens token
      have valueCount := valueRead.tokens token
      simp only [Expr.tokens, List.count_append, List.count_cons, List.count_nil] at *
      omega
  · rename_i object name
    cases same
    obtain ⟨isName, objectLayer⟩ := targetRead.inLayer.get_parts
    refine ⟨.set isName objectLayer valueRead.inLayer, ?_, ?_⟩
    · rw [Expr.written] at targetWritten
      simp [← targetWritten, valueRead.written, equalsSpelling]
    · intro token
      have targetCount := targetTokens token
      have valueCount := valueRead.tokens token
      simp only [Expr.tokens, List.count_append, List.count_cons, List.count_nil] at *
      omega
  · cases same

end Expr.ReadFrom

namespace Parser

/-- The parser reads expressions of a layer. -/
abbrev ReadsLayer (parser : Parser (Expr Unit)) (layer : Layer) : Prop :=
  Reads parser fun taken e _ => e.ReadFrom layer taken

namespace ReadsLayer

variable {layer : Layer} {operand unary assigned nested : Parser (Expr Unit)}
  {kinds : List TokenKind} {join : Expr Unit → Token → Expr Unit → Expr Unit}

theorem operatorsAfter (operandReads : ReadsLayer operand layer.tighter)
    (joined : ∀ left op right leftTaken rightTaken, op.kind ∈ kinds →
      left.ReadFrom layer leftTaken → right.ReadFrom layer.tighter rightTaken →
      (join left op right).ReadFrom layer (leftTaken ++ op :: rightTaken))
    (fuel : Nat) (left : Expr Unit) :
    Reads (Parser.operatorsAfter operand kinds join fuel left) fun taken e _ =>
      ∀ before, left.ReadFrom layer before → e.ReadFrom layer (before ++ taken) := by
  induction fuel generalizing left with
  | zero => exact Reads.pure fun rest before read => by simpa using read
  | succ fuel induction =>
      unfold Parser.operatorsAfter
      refine Reads.acceptThen kinds ?_ fun op => ?_
      · exact Reads.pure fun rest _ before read => by simpa using read
      · refine Reads.bind operandReads fun right rightTaken => ?_
        refine (induction (join left op right)).mono ?_
        intro taken e rest goesOn rightRead wanted before read
        have both := joined left op right before rightTaken wanted read rightRead
        simpa using goesOn _ both

theorem leftAssociative (operandReads : ReadsLayer operand layer.tighter)
    (joined : ∀ left op right leftTaken rightTaken, op.kind ∈ kinds →
      left.ReadFrom layer leftTaken → right.ReadFrom layer.tighter rightTaken →
      (join left op right).ReadFrom layer (leftTaken ++ op :: rightTaken)) :
    ReadsLayer (Parser.leftAssociative operand kinds join) layer := by
  refine Reads.bind operandReads fun first firstTaken => ?_
  refine Reads.bind Reads.remaining fun fuel none => ?_
  refine (operatorsAfter operandReads joined fuel first).mono ?_
  rintro taken e rest goesOn ⟨rfl, _⟩ firstRead
  simpa using goesOn _ firstRead.tighter

theorem product (unaryReads : ReadsLayer unary .prefixed) :
    ReadsLayer (Parser.product unary) .product :=
  leftAssociative unaryReads fun _ _ _ _ _ operator left right =>
    .binary operator left right

theorem sum (unaryReads : ReadsLayer unary .prefixed) : ReadsLayer (Parser.sum unary) .sum :=
  leftAssociative (product unaryReads) fun _ _ _ _ _ operator left right =>
    .binary operator left right

theorem comparison (unaryReads : ReadsLayer unary .prefixed) :
    ReadsLayer (Parser.comparison unary) .comparison :=
  leftAssociative (sum unaryReads) fun _ _ _ _ _ operator left right =>
    .binary operator left right

theorem equality (unaryReads : ReadsLayer unary .prefixed) :
    ReadsLayer (Parser.equality unary) .equality :=
  leftAssociative (comparison unaryReads) fun _ _ _ _ _ operator left right =>
    .binary operator left right

theorem conjunction (unaryReads : ReadsLayer unary .prefixed) :
    ReadsLayer (Parser.conjunction unary) .conjunction :=
  leftAssociative (equality unaryReads) fun _ _ _ _ _ operator left right =>
    .logical operator left right

theorem disjunction (unaryReads : ReadsLayer unary .prefixed) :
    ReadsLayer (Parser.disjunction unary) .disjunction :=
  leftAssociative (conjunction unaryReads) fun _ _ _ _ _ operator left right =>
    .logical operator left right

theorem assignment (unaryReads : ReadsLayer unary .prefixed)
    (assignedReads : ReadsLayer assigned .assignment) :
    ReadsLayer (Parser.assignment unary assigned) .assignment := by
  refine Reads.bind (disjunction unaryReads) fun target targetTaken => ?_
  refine Reads.acceptThen [.equal] ?_ fun equals => ?_
  · refine Reads.pure fun rest _ targetRead => ?_
    have read : target.ReadFrom .assignment targetTaken := .tighter targetRead
    simpa using read
  · refine Reads.bind assignedReads fun value valueTaken => ?_
    cases assigned : assignTo value target with
    | none =>
        refine Reads.bind (Reads.complain _ _) fun _ none => Reads.pure ?_
        intro rest impossible
        exact impossible.elim
    | some e =>
        refine Reads.pure fun rest valueRead isEqual targetRead => ?_
        simpa using Expr.ReadFrom.assignTo assigned (by simpa using isEqual) targetRead valueRead

theorem primary (nestedReads : ReadsLayer nested .assignment) :
    ReadsLayer (Parser.primary nested) .primary := by
  refine Reads.acceptThen _ (Reads.fail _ _) fun token => ?_
  dsimp only
  split
  case h_1 kind =>
    refine Reads.pure fun rest _ => ⟨.literal, ?_, by simp [Expr.tokens]⟩
    simp [Token.spelling_of_kind kind rfl, Spelling.ofLiteral]
  case h_2 kind =>
    refine Reads.pure fun rest _ => ⟨.literal, ?_, by simp [Expr.tokens]⟩
    simp [Token.spelling_of_kind kind rfl, Spelling.ofLiteral]
  case h_3 isSuper =>
    refine Reads.expectThen _ _ fun dot => ?_
    refine Reads.expectThen _ _ fun method => ?_
    refine Reads.pure fun rest isMethod isDot _ => ⟨.super isSuper isMethod, ?_, ?_⟩
    · simp [Token.spelling_of_kind isSuper rfl, Token.spelling_of_kind isDot rfl,
        Token.spelling_of_identifier isMethod]
    · intro other
      simp only [Expr.tokens, List.count_cons, List.count_nil]
      omega
  case h_4 isThis =>
    refine Reads.pure fun rest _ => ⟨.this isThis, ?_, by simp [Expr.tokens]⟩
    simp [Token.spelling_of_kind isThis rfl]
  case h_5 isName =>
    refine Reads.pure fun rest _ => ⟨.variable isName, ?_, by simp [Expr.tokens]⟩
    simp [Token.spelling_of_identifier isName]
  case h_6 isOpening =>
    refine Reads.bind nestedReads fun inner innerTaken => ?_
    refine Reads.expectThen _ _ fun closing => ?_
    refine Reads.pure fun rest isClosing innerRead _ => ⟨.grouping innerRead.inLayer, ?_, ?_⟩
    · simp [innerRead.written, Token.spelling_of_kind isOpening rfl,
        Token.spelling_of_kind isClosing rfl]
    · intro other
      have innerCount := innerRead.tokens other
      simp only [Expr.tokens, List.count_append, List.count_cons, List.count_nil]
      omega
  case h_7 notFalse notTrue notSuper notThis notName notOpening =>
    refine Reads.pure fun rest wanted => ⟨.literal, ?_, by simp [Expr.tokens]⟩
    simp only [List.mem_cons, List.not_mem_nil, or_false] at wanted
    rcases wanted with kind | kind | kind | kind | kind | kind | kind | kind | kind <;>
      simp_all [Token.spelling, Token.literal?, Spelling.ofLiteral, Spelling.mark]

theorem args (nestedReads : ReadsLayer nested .assignment) :
    Reads (items nested .tooManyArguments) fun taken args _ =>
      (∀ arg ∈ args, arg.InLayer .assignment) ∧ args.length ≤ itemLimit ∧
        Spelling.separated (Expr.writtenEach args) = taken.map Token.spelling ∧
        ∀ token, (Expr.tokensOfEach args).count token ≤ taken.count token := by
  refine (Reads.items .tooManyArguments nestedReads).mono ?_
  rintro taken args rest ⟨separated, few⟩
  refine ⟨separated.forall_mem fun _ _ read => read.inLayer, few, ?_, ?_⟩
  · rw [Expr.writtenEach_eq_map]
    exact separated.written fun _ _ read => read.written
  · rw [Expr.tokensOfEach_eq_flatMap]
    exact separated.count_le fun _ _ read => read.tokens

theorem callsAfter (nestedReads : ReadsLayer nested .assignment) (fuel : Nat)
    (callee : Expr Unit) :
    Reads (Parser.callsAfter nested fuel callee) fun taken e _ =>
      ∀ before, callee.ReadFrom .call before → e.ReadFrom .call (before ++ taken) := by
  induction fuel generalizing callee with
  | zero => exact Reads.pure fun rest before read => by simpa using read
  | succ fuel induction =>
      unfold Parser.callsAfter
      refine Reads.acceptThen _ ?_ fun token => ?_
      · exact Reads.pure fun rest _ before read => by simpa using read
      · dsimp only
        split
        · rename_i isOpening
          refine Reads.bind (args nestedReads) fun args argsTaken => ?_
          refine Reads.expectThen _ _ fun paren => (induction (.call callee paren args)).mono ?_
          rintro taken e rest goesOn isParen ⟨argLayers, few, argsWritten, argTokens⟩ _ before read
          have called : (Expr.call callee paren args).ReadFrom .call
              (before ++ token :: (argsTaken ++ [paren])) := by
            refine ⟨.call isParen read.inLayer argLayers few, ?_, ?_⟩
            · simp [read.written, argsWritten, Token.spelling_of_kind isOpening rfl,
                Token.spelling_of_kind isParen rfl]
            · intro other
              have calleeCount := read.tokens other
              have argCount := argTokens other
              simp only [Expr.tokens, List.count_append, List.count_cons, List.count_nil]
              omega
          simpa using goesOn _ called
        · rename_i notOpening
          refine Reads.expectThen _ _ fun name => (induction (.get callee name)).mono ?_
          intro taken e rest goesOn isName wanted before read
          have isDot : token.kind = .dot := by simpa [notOpening] using wanted
          have got : (Expr.get callee name).ReadFrom .call (before ++ [token, name]) := by
            refine ⟨.get isName read.inLayer, ?_, ?_⟩
            · simp [read.written, Token.spelling_of_kind isDot rfl,
                Token.spelling_of_identifier isName]
            · intro other
              have calleeCount := read.tokens other
              simp only [Expr.tokens, List.count_append, List.count_cons, List.count_nil]
              omega
          simpa using goesOn _ got

theorem call (nestedReads : ReadsLayer nested .assignment) :
    ReadsLayer (Parser.call nested) .call := by
  refine Reads.bind (primary nestedReads) fun callee calleeTaken => ?_
  refine Reads.bind Reads.remaining fun fuel none => ?_
  refine (callsAfter nestedReads fuel callee).mono ?_
  rintro taken e rest goesOn ⟨rfl, _⟩ calleeRead
  simpa using goesOn calleeTaken (.tighter calleeRead)

theorem prefixed (operandReads : ReadsLayer operand .prefixed)
    (nestedReads : ReadsLayer nested .assignment) :
    ReadsLayer (Parser.prefixed operand nested) .prefixed := by
  refine Reads.acceptThen _ ?_ fun op => ?_
  · exact (call nestedReads).mono fun taken e rest read _ => .tighter read
  · refine Reads.bind operandReads fun inner innerTaken => Reads.pure ?_
    intro rest innerRead wanted
    have saysAll : op.kind.saysAll = true := by
      have either : op.kind = .bang ∨ op.kind = .minus := by simpa using wanted
      rcases either with kind | kind <;> rw [kind] <;> rfl
    refine ⟨.unary wanted innerRead.inLayer, ?_, ?_⟩
    · simp [innerRead.written, Token.spelling_of_saysAll saysAll]
    · intro other
      have innerCount := innerRead.tokens other
      simp only [Expr.tokens, List.count_append, List.count_cons, List.count_nil]
      omega

mutual

theorem expressionAt (depth : Nat) : ReadsLayer (Parser.expressionAt depth) .assignment := by
  cases depth with
  | zero => exact Reads.tooDeep _
  | succ depth => exact assignment (unaryAt depth) (expressionAt depth)

theorem unaryAt (depth : Nat) : ReadsLayer (Parser.unaryAt depth) .prefixed := by
  cases depth with
  | zero => exact Reads.tooDeep _
  | succ depth => exact prefixed (unaryAt depth) (expressionAt depth)

end

end ReadsLayer

end Parser

end LoxLang
