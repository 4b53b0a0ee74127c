import LoxLang.Proofs.Decimal.Printing
import LoxLang.Proofs.Lexicon.Spellings
import LoxLang.Proofs.Notation.Nesting
import LoxLang.Proofs.TreeTokens

/-!
# Reading trees off nested lists

A nested list is read from the inside out.  The first word of a list tells what it stands for;
where one word has two uses, the number of the items that follow it tells which one is meant.
What is read has the tokens of the tree, but not their marks, which the notation does not show.
-/

namespace LoxLang

/-! ## Words -/

/-- The token without a mark that has this lexeme and is neither a number nor a text. -/
def Token.ofSpelling (word : String) : Token := ⟨default, TokenKind.ofSpelling word, word⟩

theorem Token.Spelled.unmarked_eq {token : Token} (spelled : token.Spelled)
    (notNumber : token.kind ≠ .number) (notText : token.kind ≠ .string) :
    token.unmarked = Token.ofSpelling token.lexeme := by
  rw [Token.unmarked, Token.ofSpelling, spelled.ofSpelling_eq notNumber notText]

/-- The number that a printed text stands for. -/
def Decimal.readNumber : List Char → Float
  | '-' :: numeral => -(Decimal.ofNumeral numeral).toFloat
  | numeral => (Decimal.ofNumeral numeral).toFloat

/-- The expression that a word stands for. -/
def Expr.ofWord (word : String) : Expr Unit :=
  if word.toList.head?.any Lexeme.startsWord then
    if word = "nil" then .literal .nil
    else if word = "true" then .literal (.bool true)
    else if word = "false" then .literal (.bool false)
    else if word = "this" then .this (Token.ofSpelling word) ()
    else .variable (Token.ofSpelling word) ()
  else .literal (.number (Decimal.readNumber word.toList))

namespace NestedList

/-! ## Lists -/

/-- What an item may be read as. -/
structure Reading where
  word : Option String
  words : Option (List String)
  expr : Option (Expr Unit)
  stmt : Option (Stmt Unit)

/-- The declaration in a statement that declares a function. -/
def asFunction : Stmt Unit → Option (FunctionDecl Unit)
  | .function decl => some decl
  | _ => none

/-- The operation with this operator on items. -/
def operationWith (op : String) : List Reading → Option (Expr Unit)
  | [operand] => return .unary (Token.ofSpelling op) (← operand.expr)
  | [left, right] =>
      if TokenKind.ofSpelling op ∈ [TokenKind.kwAnd, .kwOr] then
        return .logical (← left.expr) (Token.ofSpelling op) (← right.expr)
      else return .binary (← left.expr) (Token.ofSpelling op) (← right.expr)
  | _ => none

/-- The expression that begins with a word and goes on with items. -/
def exprWith (head : String) (items : List Reading) : Option (Expr Unit) :=
  if head = "group" then
    match items with
    | [inner] => return .grouping (← inner.expr)
    | _ => none
  else if head = "call" then
    match items with
    | callee :: args =>
        return .call (← callee.expr) (Token.ofSpelling ")") (← args.mapM Reading.expr)
    | _ => none
  else if head = "super" then
    match items with
    | [method] => return .super (Token.ofSpelling head) (Token.ofSpelling (← method.word)) ()
    | _ => none
  else if head = "." then
    match items with
    | [object, name] => return .get (← object.expr) (Token.ofSpelling (← name.word))
    | _ => none
  else if head = "=" then
    match items with
    | [name, value] => return .assign (Token.ofSpelling (← name.word)) () (← value.expr)
    | [object, name, value] =>
        return .set (← object.expr) (Token.ofSpelling (← name.word)) (← value.expr)
    | _ => none
  else operationWith head items

/-- The methods that items stand for. -/
def methodsOf (items : List Reading) : Option (List (FunctionDecl Unit)) :=
  items.mapM fun item => item.stmt.bind asFunction

/-- The class with this name that goes on with items. -/
def classWith (name : String) (items : List Reading) : Option (Stmt Unit) :=
  if (items.head?.bind Reading.word) = some "<" then
    match items.tail with
    | parent :: methods =>
        return .class (Token.ofSpelling name) (some ⟨Token.ofSpelling (← parent.word), ()⟩)
          (← methodsOf methods)
    | [] => none
  else return .class (Token.ofSpelling name) none (← methodsOf items)

/-- The statement that begins with a word and goes on with items. -/
def stmtWith (head : String) (items : List Reading) : Option (Stmt Unit) :=
  if head = ";" then
    match items with
    | [value] => return .expression (← value.expr)
    | _ => none
  else if head = "print" then
    match items with
    | [value] => return .print (← value.expr)
    | _ => none
  else if head = "var" then
    match items with
    | [name] => return .var (Token.ofSpelling (← name.word)) none
    | [name, value] => return .var (Token.ofSpelling (← name.word)) (some (← value.expr))
    | _ => none
  else if head = "block" then
    return .block (← items.mapM Reading.stmt)
  else if head = "if" then
    match items with
    | [condition, thenBranch] =>
        return .conditional (← condition.expr) (← thenBranch.stmt) none
    | [condition, thenBranch, elseBranch] =>
        return .conditional (← condition.expr) (← thenBranch.stmt) (some (← elseBranch.stmt))
    | _ => none
  else if head = "while" then
    match items with
    | [condition, body] => return .loop (← condition.expr) (← body.stmt)
    | _ => none
  else if head = "fun" then
    match items with
    | name :: params :: body =>
        return .function ⟨Token.ofSpelling (← name.word), (← params.words).map Token.ofSpelling,
          ← body.mapM Reading.stmt⟩
    | _ => none
  else if head = "return" then
    match items with
    | [] => return .return (Token.ofSpelling head) none
    | [value] => return .return (Token.ofSpelling head) (some (← value.expr))
    | _ => none
  else if head = "class" then
    match items with
    | name :: items => name.word.bind (classWith · items)
    | _ => none
  else none

/-- A word, read as an expression. -/
def Reading.ofWord (word : String) : Reading := ⟨some word, none, some (Expr.ofWord word), none⟩

/-- A list, read by its first word. -/
def Reading.ofItems (items : List Reading) : Reading where
  word := none
  words := items.mapM Reading.word
  expr := (items.head?.bind Reading.word).bind (exprWith · items.tail)
  stmt := (items.head?.bind Reading.word).bind (stmtWith · items.tail)

mutual

/-- What an item is read as. -/
def read : NestedList → Reading
  | word text => .ofWord text
  | list items => .ofItems (readEach items)

/-- What each of several items is read as. -/
def readEach : List NestedList → List Reading
  | [] => []
  | first :: rest => read first :: readEach rest

end

end NestedList

end LoxLang
