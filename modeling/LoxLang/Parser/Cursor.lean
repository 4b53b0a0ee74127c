import LoxLang.Issue
import LoxLang.Tree

/-!
# Reading tokens one by one

A parser moves a cursor over the tokens.  What it finds wrong it writes down as
a complaint; most complaints also end the statement at hand (`Halt.syntaxError`).
A cursor never moves back, and past the last token there is only the end: a
complaint about no token is one about the end of the text.

Besides the syntax error there is one more way to halt: statements and
expressions may nest only so deep.
-/

namespace LoxLang

/-- What is wrong with the grammar of a text. -/
inductive SyntaxError where
  /-- Something has to stand here and does not. -/
  | expected (what : String)
  | tooManyParameters
  | tooManyArguments
  | invalidAssignmentTarget
deriving DecidableEq, Repr

/-- How many parameters and how many arguments there may be. -/
def itemLimit : Nat := 255

namespace SyntaxError

/-- The wording of an issue. -/
def message : SyntaxError → String
  | expected what => "Expect " ++ what ++ "."
  | tooManyParameters => "Can't have more than " ++ toString itemLimit ++ " parameters."
  | tooManyArguments => "Can't have more than " ++ toString itemLimit ++ " arguments."
  | invalidAssignmentTarget => "Invalid assignment target."

/-- Whether the statement at hand cannot be read on. -/
def endsStatement : SyntaxError → Bool
  | expected _ => true
  | tooManyParameters | tooManyArguments | invalidAssignmentTarget => false

end SyntaxError

/-- A syntax error and the token that it is about; none stands for the end of the text. -/
structure Complaint where
  about : Option Token
  error : SyntaxError
deriving DecidableEq, Repr

namespace Complaint

/-- The complaint as an issue of a text that ends at the given mark. -/
def toIssue (stop : Mark) (complaint : Complaint) : Issue :=
  match complaint.about with
  | some token => Issue.atToken token complaint.error.message
  | none => Issue.atEnd stop complaint.error.message

end Complaint

/-- The tokens ahead, and the complaints so far, the latest first. -/
structure Cursor where
  ahead : List Token
  complaints : List Complaint
deriving DecidableEq, Repr

/-- Why a parser stops. -/
inductive Halt where
  | syntaxError
  | tooDeep
deriving DecidableEq, Repr

/-- A parser moves the cursor and yields a result, or stops where the cursor then is. -/
abbrev Parser (α : Type) := EStateM Halt Cursor α

namespace Parser

/-- The token ahead; none at the end of the text. -/
def peek : Parser (Option Token) := fun cursor => .ok cursor.ahead.head? cursor

/-- How many tokens are ahead. -/
def remaining : Parser Nat := fun cursor => .ok cursor.ahead.length cursor

/-- Write a complaint down. -/
def complain (about : Option Token) (error : SyntaxError) : Parser Unit := fun cursor =>
  .ok () { cursor with complaints := ⟨about, error⟩ :: cursor.complaints }

/-- Complain about the token ahead, and stop. -/
def fail {α : Type} (error : SyntaxError) : Parser α := fun cursor =>
  .error .syntaxError
    { cursor with complaints := ⟨cursor.ahead.head?, error⟩ :: cursor.complaints }

/-- Take the token ahead if it is of one of these kinds. -/
def accept (kinds : List TokenKind) : Parser (Option Token) := fun cursor =>
  match cursor.ahead with
  | [] => .ok none cursor
  | token :: rest =>
      if token.kind ∈ kinds then .ok (some token) { cursor with ahead := rest }
      else .ok none cursor

/-- Take the token ahead, which has to be of this kind. -/
def expect (kind : TokenKind) (what : String) : Parser Token := do
  match ← accept [kind] with
  | some token => return token
  | none => fail (.expected what)

/-- Whether the token ahead is of this kind. -/
def isAhead (kind : TokenKind) : Parser Bool := do
  return (← peek).any (·.kind = kind)

/-- Items as long as a wanted token is ahead, at most `fuel` of them. -/
def many {α : Type} (wanted : Token → Bool) (item : Parser α) : (fuel : Nat) → Parser (List α)
  | 0 => return []
  | fuel + 1 => do
      if (← peek).any wanted then
        let first ← item
        let rest ← many wanted item fuel
        return first :: rest
      else
        return []

/-- The items after the first of a list with commas, at most `fuel` of them; `count` have been
read before.  Each item beyond the limit is complained about and read all the same. -/
def itemsAfter {α : Type} (item : Parser α) (excess : SyntaxError) :
    (fuel count : Nat) → Parser (List α)
  | 0, _ => return []
  | fuel + 1, count => do
      match ← accept [.comma] with
      | none => return []
      | some _ =>
          if itemLimit ≤ count then complain (← peek) excess
          let next ← item
          let rest ← itemsAfter item excess fuel (count + 1)
          return next :: rest

/-- Items with commas between them, up to a closing parenthesis; there may be none. -/
def items {α : Type} (item : Parser α) (excess : SyntaxError) : Parser (List α) := do
  if ← isAhead .rightParen then
    return []
  else
    let first ← item
    let rest ← itemsAfter item excess (← remaining) 1
    return first :: rest

/-- Drop tokens after one that was passed over, up to where a statement seems to begin: after a
semicolon, or in front of a keyword that begins a statement. -/
def skipPast (passed : Token) : List Token → List Token
  | [] => []
  | token :: rest =>
      if passed.kind = .semicolon ∨ token.kind.startsStatement then token :: rest
      else skipPast token rest

/-- Drop the token that could not be read, and what follows it up to the next statement. -/
def synchronize : List Token → List Token
  | [] => []
  | offender :: rest => skipPast offender rest

/-- After a syntax error the statement is lost, and reading goes on with the next one. -/
def recovering {S : Type} (statement : Parser (Stmt S)) : Parser (Stmt S) := fun cursor =>
  match statement cursor with
  | .ok result after => .ok result after
  | .error .syntaxError after => .ok .lost { after with ahead := synchronize after.ahead }
  | .error .tooDeep after => .error .tooDeep after

end Parser

end LoxLang
