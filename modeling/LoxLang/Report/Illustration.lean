import LoxLang.Decimal.Basic
import LoxLang.Text.Blank
import LoxLang.Text.Rows

/-!
# Illustrations

An illustration shows the row to which an issue points and, below it, carets
under the characters in question.  A margin with the row's number goes before
the row; the line of carets is indented by as many blanks as stand before the
first caret, where a tab stays a tab, so the two lines keep their columns.
-/

namespace LoxLang

/-- A place in a text, to be shown with a number of carets. -/
structure Illustration where
  location : Text.Location
  width : Nat
deriving DecidableEq, Repr

namespace Illustration

/-- The row of a text in which a spot lies, shown with carets from the spot. -/
def ofSpot (text : List Char) (spot width : Nat) : Illustration :=
  ⟨Text.locate text spot, width⟩

/-- The number of a row, to the right of a field of six characters that begins with a blank. -/
def margin (row : Nat) : List Char :=
  let digits := Decimal.digitsOf row
  ' ' :: (List.replicate (5 - digits.length) ' ' ++ digits ++ [' ', '|'])

/-- Blanks that take the same columns as the given characters. -/
def indentation (chars : List Char) : List Char :=
  chars.map fun c => if c = '\t' then '\t' else ' '

/-- How many carets stand under the row: no more than it has characters left, at least one. -/
def carets (illustration : Illustration) : Nat :=
  let location := illustration.location
  max 1 (min illustration.width (location.text.length - location.column))

/-- The line with the row itself. -/
def rowLine (illustration : Illustration) : List Char :=
  margin illustration.location.row ++ Text.trimEnd illustration.location.text

/-- The line of carets. -/
def caretLine (illustration : Illustration) : List Char :=
  let location := illustration.location
  indentation (margin location.row ++ location.text.take location.column) ++
    List.replicate illustration.carets '^' ++ [' ']

/-- The two lines. -/
def text (illustration : Illustration) : String :=
  String.ofList (illustration.rowLine ++ '\n' :: illustration.caretLine)

end Illustration

end LoxLang
