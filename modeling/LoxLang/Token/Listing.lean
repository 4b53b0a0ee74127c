import LoxLang.Decimal.Layout
import LoxLang.Token

/-!
# Listings of tokens

A listing has one line for each token: its kind, its lexeme and its literal.
-/

namespace LoxLang

/-- The literal of a token in a listing: texts stand without quotes. -/
def Token.literalText (token : Token) : String :=
  match token.literal? with
  | some (.number value) => String.ofList (Layout.listed.number value)
  | some (.text value) => value
  | _ => "None"

/-- The line of a token in a listing. -/
def Token.listed (token : Token) : String :=
  token.kind.label ++ " " ++ token.lexeme ++ " " ++ token.literalText

/-- The name of the end of the text in listings. -/
def TokenStream.stopLabel : String := "EOF"

/-- The lines of a listing; the last one stands for the end of the text. -/
def TokenStream.listed (stream : TokenStream) : List String :=
  stream.tokens.map Token.listed ++ [stopLabel ++ "  None"]

end LoxLang
