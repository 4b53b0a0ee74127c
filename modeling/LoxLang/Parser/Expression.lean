import LoxLang.Parser.Cursor

/-!
# Reading expressions

Precedence is a matter of layers, the loosest first: assignment, `or`, `and`,
equality, comparison, sums, products, prefix operators, calls, and what stands
by itself.  A layer is a parser made from the parser of the next layer.  Two
layers come back to one above: an assignment to an assignment, and parentheses
or arguments to a whole expression.  Each way back uses up one level of nesting.
-/

namespace LoxLang.Parser

/-- Operators of one layer, each followed by an operand, at most `fuel` of them. -/
def operatorsAfter (operand : Parser (Expr Unit)) (kinds : List TokenKind)
    (join : Expr Unit → Token → Expr Unit → Expr Unit) :
    (fuel : Nat) → Expr Unit → Parser (Expr Unit)
  | 0, left => return left
  | fuel + 1, left => do
      match ← accept kinds with
      | none => return left
      | some op =>
          let right ← operand
          operatorsAfter operand kinds join fuel (join left op right)

/-- Operands with operators of one layer between them, joined from the left. -/
def leftAssociative (operand : Parser (Expr Unit)) (kinds : List TokenKind)
    (join : Expr Unit → Token → Expr Unit → Expr Unit) : Parser (Expr Unit) := do
  let first ← operand
  operatorsAfter operand kinds join (← remaining) first

/-- A product. -/
def product (unary : Parser (Expr Unit)) : Parser (Expr Unit) :=
  leftAssociative unary [.slash, .star] .binary

/-- A sum. -/
def sum (unary : Parser (Expr Unit)) : Parser (Expr Unit) :=
  leftAssociative (product unary) [.minus, .plus] .binary

/-- A comparison. -/
def comparison (unary : Parser (Expr Unit)) : Parser (Expr Unit) :=
  leftAssociative (sum unary) [.greater, .greaterEqual, .less, .lessEqual] .binary

/-- An equality or inequality. -/
def equality (unary : Parser (Expr Unit)) : Parser (Expr Unit) :=
  leftAssociative (comparison unary) [.bangEqual, .equalEqual] .binary

/-- A conjunction. -/
def conjunction (unary : Parser (Expr Unit)) : Parser (Expr Unit) :=
  leftAssociative (equality unary) [.kwAnd] .logical

/-- A disjunction. -/
def disjunction (unary : Parser (Expr Unit)) : Parser (Expr Unit) :=
  leftAssociative (conjunction unary) [.kwOr] .logical

/-- What an assignment makes of its left side, if it can be assigned to. -/
def assignTo (value : Expr Unit) : Expr Unit → Option (Expr Unit)
  | .variable name site => some (.assign name site value)
  | .get object name => some (.set object name value)
  | _ => none

/-- An assignment, or an expression of a tighter layer.  Whether the left side can be assigned to
is known only once it has been read; if it cannot, only the left side is kept. -/
def assignment (unary assigned : Parser (Expr Unit)) : Parser (Expr Unit) := do
  let target ← disjunction unary
  match ← accept [.equal] with
  | none => return target
  | some equals =>
      let value ← assigned
      match assignTo value target with
      | some expr => return expr
      | none =>
          complain (some equals) .invalidAssignmentTarget
          return target

/-- An expression that stands by itself. -/
def primary (nested : Parser (Expr Unit)) : Parser (Expr Unit) := do
  match ← accept [.kwFalse, .kwTrue, .kwNil, .number, .string, .kwSuper, .kwThis, .identifier,
      .leftParen] with
  | none => fail (.expected "expression")
  | some token =>
      match token.kind with
      | .kwFalse => return .literal (.bool false)
      | .kwTrue => return .literal (.bool true)
      | .kwSuper =>
          let _ ← expect .dot "'.' after 'super'"
          let method ← expect .identifier "superclass method name"
          return .super token method ()
      | .kwThis => return .this token ()
      | .identifier => return .variable token ()
      | .leftParen =>
          let inner ← nested
          let _ ← expect .rightParen "')' after expression"
          return .grouping inner
      | _ => return .literal (token.literal?.getD .nil)

/-- Calls and properties after a callee, at most `fuel` of them. -/
def callsAfter (nested : Parser (Expr Unit)) : (fuel : Nat) → Expr Unit → Parser (Expr Unit)
  | 0, callee => return callee
  | fuel + 1, callee => do
      match ← accept [.leftParen, .dot] with
      | none => return callee
      | some token =>
          if token.kind = .leftParen then
            let args ← items nested .tooManyArguments
            let paren ← expect .rightParen "')' after arguments"
            callsAfter nested fuel (.call callee paren args)
          else
            let name ← expect .identifier "property name after '.'"
            callsAfter nested fuel (.get callee name)

/-- An expression that stands by itself, with the calls and properties after it. -/
def call (nested : Parser (Expr Unit)) : Parser (Expr Unit) := do
  let callee ← primary nested
  callsAfter nested (← remaining) callee

/-- A prefix operator and its operand, or a call. -/
def prefixed (operand nested : Parser (Expr Unit)) : Parser (Expr Unit) := do
  match ← accept [.bang, .minus] with
  | some op => return .unary op (← operand)
  | none => call nested

mutual

/-- An expression that nests at most `depth` levels deep. -/
def expressionAt : (depth : Nat) → Parser (Expr Unit)
  | 0 => throw .tooDeep
  | depth + 1 => assignment (unaryAt depth) (expressionAt depth)

/-- An expression of the layer of prefix operators that nests at most `depth` levels deep. -/
def unaryAt : (depth : Nat) → Parser (Expr Unit)
  | 0 => throw .tooDeep
  | depth + 1 => prefixed (unaryAt depth) (expressionAt depth)

end

end LoxLang.Parser
