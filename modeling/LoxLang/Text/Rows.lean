/-!
# Rows of a text

A text is cut into rows: a row ends after a line feed, after a carriage return,
or after the two in this order, which count as one break.  If the text ends with
a break, or is empty, an empty row follows.  So rows and lines (which only a line
feed ends) differ where a carriage return stands alone.

The concatenation of the rows is the text (`flatten_rows`).
-/

namespace LoxLang.Text

/-- Split off the first row with its break; `none` for the rest if no break ends the row. -/
def cutRow : List Char → List Char × Option (List Char)
  | [] => ([], none)
  | '\n' :: rest => (['\n'], some rest)
  | '\r' :: '\n' :: rest => (['\r', '\n'], some rest)
  | '\r' :: rest => (['\r'], some rest)
  | c :: rest =>
      let (row, after) := cutRow rest
      (c :: row, after)

theorem cutRow_append (text : List Char) :
    (cutRow text).1 ++ (cutRow text).2.getD [] = text := by
  fun_induction cutRow text <;> simp_all

theorem length_lt_of_cutRow {text after : List Char} (cut : (cutRow text).2 = some after) :
    after.length < text.length := by
  fun_induction cutRow text with
  | case1 => simp at cut
  | case2 => simp_all
  | case3 =>
      cases cut
      simp only [List.length_cons]
      omega
  | case4 => simp_all
  | case5 _ _ _ _ _ _ _ _ induction =>
      have shorter := induction (by simp_all)
      simp only [List.length_cons]
      omega

/-- The rows of a text, each with its break; at least one. -/
def rows (text : List Char) : List (List Char) :=
  match cut : (cutRow text).2 with
  | none => [(cutRow text).1]
  | some after =>
      have _shorter := length_lt_of_cutRow cut
      (cutRow text).1 :: rows after
termination_by text.length

theorem flatten_rows (text : List Char) : (rows text).flatten = text := by
  fun_induction rows text with
  | case1 text cut =>
      have whole := cutRow_append text
      simpa [cut] using whole
  | case2 text after cut _ induction =>
      have whole := cutRow_append text
      simpa [cut, induction] using whole

/-- Where a spot of a text lies: the number of its row, counted from one, the row, and the
column in it, counted from zero. -/
structure Location where
  row : Nat
  text : List Char
  column : Nat
deriving DecidableEq, Repr

/-- The last row that begins at or before the spot, given the first rows' number. -/
def locateFrom (number : Nat) (spot : Nat) : List (List Char) → Location
  | [] => ⟨number, [], spot⟩
  | [row] => ⟨number, row, spot⟩
  | row :: next :: rest =>
      if spot < row.length then ⟨number, row, spot⟩
      else locateFrom (number + 1) (spot - row.length) (next :: rest)

/-- Where a spot lies: in the last row that begins at or before it. -/
def locate (text : List Char) (spot : Nat) : Location :=
  locateFrom 1 spot (rows text)

end LoxLang.Text
