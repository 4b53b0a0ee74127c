import LoxLang.Issue
import LoxLang.Lexeme

/-!
# From a text to its tokens

Every lexeme is placed at its mark.  Blanks and comments mean nothing; what
cannot be a token is an issue, and the rest are tokens.  Nothing stops the
reading, so the tokens and the issues are two views of the same placed lexemes.
-/

namespace LoxLang

/-- What is wrong with a lexeme. -/
inductive LexicalError where
  | unterminatedText
  | unexpectedCharacter
deriving DecidableEq, Repr

namespace LexicalError

/-- The wording of an issue. -/
def message : LexicalError → String
  | unterminatedText => "Unterminated string."
  | unexpectedCharacter => "Unexpected character."

end LexicalError

/-- The mark after some characters.  Only a line feed ends a line. -/
def Mark.advance (mark : Mark) (chars : List Char) : Mark :=
  ⟨mark.line + chars.count '\n', mark.spot + chars.length⟩

/-- The mark of the first character of a text. -/
def Mark.start : Mark := ⟨1, 0⟩

/-- A lexeme where it stands in the text. -/
structure PlacedLexeme extends Lexeme where
  mark : Mark
deriving DecidableEq, Repr

namespace PlacedLexeme

/-- Place lexemes one after the other. -/
def place : Mark → List Lexeme → List PlacedLexeme
  | _, [] => []
  | mark, lexeme :: rest => ⟨lexeme, mark⟩ :: place (mark.advance lexeme.chars) rest

theorem map_toLexeme_place (mark : Mark) (lexemes : List Lexeme) :
    (place mark lexemes).map toLexeme = lexemes := by
  induction lexemes generalizing mark with
  | nil => rfl
  | cons first rest induction => rw [place, List.map_cons, induction]

/-- The kind of the token that a lexeme is, if it is one. -/
def tokenKind? (lexeme : Lexeme) : Option TokenKind :=
  match lexeme.kind with
  | .punctuation => TokenKind.ofPunctuation lexeme.chars
  | .number => some .number
  | .text => some .string
  | .word => some (TokenKind.ofWord (String.ofList lexeme.chars))
  | .blank | .comment | .openText | .stray => none

/-- The token that a placed lexeme is. -/
def token? (placed : PlacedLexeme) : Option Token :=
  (tokenKind? placed.toLexeme).map fun kind =>
    ⟨placed.mark, kind, String.ofList placed.chars⟩

/-- What is wrong with a lexeme of this kind. -/
def error? : LexemeKind → Option LexicalError
  | .openText => some .unterminatedText
  | .stray => some .unexpectedCharacter
  | .blank | .comment | .punctuation | .number | .text | .word => none

/-- The issue that a placed lexeme is; it points to the first character. -/
def issue? (placed : PlacedLexeme) : Option Issue :=
  (error? placed.kind).map fun error => Issue.atMark placed.mark error.message

end PlacedLexeme

/-- The lexemes of a text where they stand. -/
def placedLexemes (text : List Char) : List PlacedLexeme :=
  PlacedLexeme.place Mark.start (Lexeme.all text)

namespace TokenStream

/-- The tokens of a text, and the mark of its end. -/
def ofText (text : String) : TokenStream where
  tokens := (placedLexemes text.toList).filterMap PlacedLexeme.token?
  stop := Mark.start.advance text.toList

/-- The issues of a text's lexemes, in the order of the text. -/
def issuesOf (text : String) : List Issue :=
  (placedLexemes text.toList).filterMap PlacedLexeme.issue?

end TokenStream

end LoxLang
