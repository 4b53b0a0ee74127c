import LoxLang.Decimal.Nearest

/-!
# Tokens

A token is a classified piece of the text together with the mark of its first
character.  Its literal is read off its lexeme.  The end of the text is no token:
a `TokenStream` holds the tokens and the mark of the end.
-/

namespace LoxLang

/-- The kinds of tokens. -/
inductive TokenKind where
  | leftParen | rightParen | leftBrace | rightBrace
  | comma | dot | minus | plus | semicolon | slash | star
  | bang | bangEqual | equal | equalEqual
  | greater | greaterEqual | less | lessEqual
  | identifier | string | number
  | kwAnd | kwClass | kwElse | kwFalse | kwFor | kwFun | kwIf | kwNil
  | kwOr | kwPrint | kwReturn | kwSuper | kwThis | kwTrue | kwVar | kwWhile
deriving DecidableEq, Repr, Inhabited

namespace TokenKind

/-- The name of a kind in listings. -/
def label : TokenKind → String
  | leftParen => "LEFT_PAREN"
  | rightParen => "RIGHT_PAREN"
  | leftBrace => "LEFT_BRACE"
  | rightBrace => "RIGHT_BRACE"
  | comma => "COMMA"
  | dot => "DOT"
  | minus => "MINUS"
  | plus => "PLUS"
  | semicolon => "SEMICOLON"
  | slash => "SLASH"
  | star => "STAR"
  | bang => "BANG"
  | bangEqual => "BANG_EQUAL"
  | equal => "EQUAL"
  | equalEqual => "EQUAL_EQUAL"
  | greater => "GREATER"
  | greaterEqual => "GREATER_EQUAL"
  | less => "LESS"
  | lessEqual => "LESS_EQUAL"
  | identifier => "IDENTIFIER"
  | string => "STRING"
  | number => "NUMBER"
  | kwAnd => "AND"
  | kwClass => "CLASS"
  | kwElse => "ELSE"
  | kwFalse => "FALSE"
  | kwFor => "FOR"
  | kwFun => "FUN"
  | kwIf => "IF"
  | kwNil => "NIL"
  | kwOr => "OR"
  | kwPrint => "PRINT"
  | kwReturn => "RETURN"
  | kwSuper => "SUPER"
  | kwThis => "THIS"
  | kwTrue => "TRUE"
  | kwVar => "VAR"
  | kwWhile => "WHILE"

/-- The words that are not identifiers. -/
def keywords : List (String × TokenKind) :=
  [("and", kwAnd), ("class", kwClass), ("else", kwElse), ("false", kwFalse), ("for", kwFor),
   ("fun", kwFun), ("if", kwIf), ("nil", kwNil), ("or", kwOr), ("print", kwPrint),
   ("return", kwReturn), ("super", kwSuper), ("this", kwThis), ("true", kwTrue), ("var", kwVar),
   ("while", kwWhile)]

/-- A word is a keyword only as a whole. -/
def ofWord (word : String) : TokenKind :=
  (keywords.lookup word).getD identifier

/-- The punctuation of one or two characters. -/
def ofPunctuation : List Char → Option TokenKind
  | ['('] => some leftParen
  | [')'] => some rightParen
  | ['{'] => some leftBrace
  | ['}'] => some rightBrace
  | [','] => some comma
  | ['.'] => some dot
  | ['-'] => some minus
  | ['+'] => some plus
  | [';'] => some semicolon
  | ['*'] => some star
  | ['/'] => some slash
  | ['!'] => some bang
  | ['!', '='] => some bangEqual
  | ['='] => some equal
  | ['=', '='] => some equalEqual
  | ['<'] => some less
  | ['<', '='] => some lessEqual
  | ['>'] => some greater
  | ['>', '='] => some greaterEqual
  | _ => none

/-- The kinds with which a statement begins that has a keyword of its own. -/
def startsStatement : TokenKind → Bool
  | kwClass | kwFun | kwVar | kwFor | kwIf | kwWhile | kwPrint | kwReturn => true
  | _ => false

end TokenKind

/-- A place in the text: its line, counted from one, and its spot, the number of characters
before it. -/
structure Mark where
  line : Nat
  spot : Nat
deriving DecidableEq, Repr, Inhabited

/-- A lexeme with its kind, marked where it begins. -/
structure Token extends Mark where
  kind : TokenKind
  lexeme : String
deriving DecidableEq, Repr, Inhabited

/-- What a literal expression stands for. -/
inductive Literal where
  | nil
  | bool (value : Bool)
  | number (value : Float)
  | text (value : String)
deriving DecidableEq, Repr, Inhabited

namespace Token

/-- The literal of a token: numbers are rounded to the nearest double, texts lose their quotes. -/
def literal? (token : Token) : Option Literal :=
  match token.kind with
  | .number => some (.number (Decimal.ofNumeral token.lexeme.toList).toFloat)
  | .string => some (.text (String.ofList (token.lexeme.toList.drop 1).dropLast))
  | _ => none

end Token

/-- The tokens of a text, and the mark of its end. -/
structure TokenStream where
  tokens : List Token
  stop : Mark
deriving DecidableEq, Repr, Inhabited

namespace TokenStream

/-- How many entries a listing of the stream has: the tokens and the end. -/
def size (stream : TokenStream) : Nat := stream.tokens.length + 1

end TokenStream

end LoxLang
