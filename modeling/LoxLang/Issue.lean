import LoxLang.Token

/-!
# Issues

An issue is what is found wrong with a text before it is run: in its lexemes, in
its grammar, or in its scopes.  Each of the three analyses has causes of its own;
an issue holds the wording and the place to which it points.
-/

namespace LoxLang

/-- What an issue is about: no token in particular, the end of the text, or a lexeme. -/
inductive Subject where
  | unnamed
  | atEnd
  | lexeme (text : String)
deriving DecidableEq, Repr, Inhabited

namespace Subject

/-- How the subject is told, directly after the word "Error". -/
def phrase : Subject → String
  | unnamed => ""
  | atEnd => " at end"
  | lexeme text => " at '" ++ text ++ "'"

end Subject

/-- Something wrong with a text: on which line, about what, and, for an illustration, from which
spot and how wide. -/
structure Issue where
  line : Nat
  subject : Subject
  message : String
  spot : Option Nat
  width : Nat
deriving DecidableEq, Repr, Inhabited

namespace Issue

/-- The issue in one line of text. -/
def announcement (issue : Issue) : String :=
  "[line " ++ toString issue.line ++ "] Error" ++ issue.subject.phrase ++ ": " ++ issue.message

/-- An issue of one character at a mark, about no token. -/
def atMark (mark : Mark) (message : String) : Issue :=
  ⟨mark.line, .unnamed, message, some mark.spot, 1⟩

/-- An issue at the end of the text. -/
def atEnd (stop : Mark) (message : String) : Issue :=
  ⟨stop.line, .atEnd, message, some stop.spot, 1⟩

/-- An issue about a token; it is as wide as the lexeme, and at least one character. -/
def atToken (token : Token) (message : String) : Issue :=
  ⟨token.line, .lexeme token.lexeme, message, some token.spot, max token.lexeme.length 1⟩

end Issue

end LoxLang
