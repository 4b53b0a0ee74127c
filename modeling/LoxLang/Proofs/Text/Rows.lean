import LoxLang.Text.Rows

/-!
# Rows and lines

Every spot of a text lies in one of its rows.  If each carriage return of the text stands
directly before a line feed, then the rows are its lines: a row ends with the only line feed
in it, and the number of the row in which a spot lies is one more than the number of line feeds
before the spot.
-/

namespace LoxLang.Text

variable {text : List Char} {spot : Nat}

/-- Each carriage return stands directly before a line feed. -/
def ReturnsPaired (text : List Char) : Prop :=
  ∀ index, text[index]? = some '\r' → text[index + 1]? = some '\n'

instance (text : List Char) : Decidable (ReturnsPaired text) :=
  decidable_of_iff
    (∀ index < text.length, text[index]? = some '\r' → text[index + 1]? = some '\n')
    ⟨fun inside index found => inside index (List.getElem?_eq_some_iff.1 found).1 found,
      fun paired index _ => paired index⟩

theorem ReturnsPaired.of_append {before after : List Char}
    (paired : ReturnsPaired (before ++ after)) : ReturnsPaired after := by
  intro index found
  have next := paired (before.length + index)
  rw [List.getElem?_append_right (by omega), List.getElem?_append_right (by omega)] at next
  simpa [Nat.add_assoc, found] using next

theorem ReturnsPaired.tail {c : Char} (paired : ReturnsPaired (c :: text)) : ReturnsPaired text :=
  of_append (show ReturnsPaired ([c] ++ text) from paired)

/-- Without carriage returns there is nothing to pair. -/
theorem ReturnsPaired.of_not_mem (none : '\r' ∉ text) : ReturnsPaired text :=
  fun _ found => absurd (List.mem_of_getElem? found) none

/-- The first row ends with its only line feed, or it is all there is. -/
theorem cutRow_of_paired (paired : ReturnsPaired text) :
    (∃ line after, '\n' ∉ line ∧ cutRow text = (line ++ ['\n'], some after)) ∨
      '\n' ∉ text ∧ cutRow text = (text, none) := by
  fun_induction cutRow text with
  | case1 => exact .inr ⟨List.not_mem_nil, rfl⟩
  | case2 rest => exact .inl ⟨[], rest, List.not_mem_nil, rfl⟩
  | case3 rest => exact .inl ⟨['\r'], rest, by decide, rfl⟩
  | case4 rest unpaired =>
      have next := paired 0 rfl
      rw [List.getElem?_cons_succ, ← List.head?_eq_getElem?] at next
      obtain ⟨others, isRest⟩ := List.head?_eq_some_iff.1 next
      exact (unpaired others isRest).elim
  | case5 c rest noFeed _ _ row after cut induction =>
      have other : '\n' ≠ c := fun same => noFeed same.symm
      rcases induction paired.tail with ⟨line, later, noBreak, isCut⟩ | ⟨noBreak, isCut⟩
      · rw [cut] at isCut
        obtain ⟨rfl, rfl⟩ := Prod.mk.inj isCut
        exact .inl ⟨c :: line, later, by simp [other, noBreak], rfl⟩
      · rw [cut] at isCut
        obtain ⟨rfl, rfl⟩ := Prod.mk.inj isCut
        exact .inr ⟨by simp [other, noBreak], rfl⟩

/-- Rows of which each ends with its only line feed, but for the last one, which has none. -/
inductive AreLines : List (List Char) → Prop where
  | last {row : List Char} (noBreak : '\n' ∉ row) : AreLines [row]
  | more {line next : List Char} {rest : List (List Char)} (noBreak : '\n' ∉ line)
      (later : AreLines (next :: rest)) : AreLines ((line ++ ['\n']) :: next :: rest)

theorem areLines_rows (paired : ReturnsPaired text) : AreLines (rows text) := by
  fun_induction rows text with
  | case1 text cut =>
      rcases cutRow_of_paired paired with ⟨_, _, _, isCut⟩ | ⟨noBreak, isCut⟩
      · rw [isCut] at cut
        cases cut
      · rw [isCut]
        exact .last noBreak
  | case2 text after cut _ induction =>
      have whole := cutRow_append text
      rcases cutRow_of_paired paired with ⟨line, _, noBreak, isCut⟩ | ⟨_, isCut⟩
      · rw [isCut] at cut whole ⊢
        cases cut
        rw [← whole] at paired
        have later := induction paired.of_append
        cases rest : rows after with
        | nil =>
            rw [rest] at later
            cases later
        | cons next others =>
            rw [rest] at later
            exact .more noBreak later
      · rw [isCut] at cut
        cases cut

/-- Among lines the number of the row tells the line feeds before the spot. -/
theorem AreLines.row_locateFrom {parts : List (List Char)} (lines : AreLines parts)
    (number spot : Nat) :
    (locateFrom number spot parts).row = number + (parts.flatten.take spot).count '\n' := by
  induction lines generalizing number spot with
  | @last row noBreak =>
      have none : '\n' ∉ row.take spot := fun member => noBreak (List.mem_of_mem_take member)
      simp [locateFrom, List.count_eq_zero.2 none]
  | @more line next rest noBreak later induction =>
      have count : (line ++ ['\n']).count '\n' = 1 := by
        simp [List.count_append, List.count_eq_zero.2 noBreak]
      rw [locateFrom, List.flatten_cons]
      split
      · rename_i within
        have none : '\n' ∉ line.take spot := fun member => noBreak (List.mem_of_mem_take member)
        have inLine : spot ≤ line.length := by simpa [Nat.lt_succ_iff] using within
        have before : ((line ++ ['\n']) ++ (next :: rest).flatten).take spot = line.take spot := by
          rw [List.append_assoc, List.take_append_of_le_length inLine]
        rw [before, List.count_eq_zero.2 none, Nat.add_zero]
      · rename_i beyond
        have whole : (line ++ ['\n']).take spot = line ++ ['\n'] :=
          List.take_of_length_le (Nat.le_of_not_lt beyond)
        rw [induction, List.take_append, List.count_append, whole, count, Nat.add_assoc]

/-- The number of the row in which a spot lies. -/
theorem row_locate (paired : ReturnsPaired text) (spot : Nat) :
    (locate text spot).row = 1 + (text.take spot).count '\n' := by
  rw [locate, (areLines_rows paired).row_locateFrom, flatten_rows]

/-- The spot of the text lies in this row, the one with this number, in this column: in the column
of its character, or, at the end of the text, one past the row. -/
structure LiesIn (text : List Char) (spot number : Nat) (row : List Char) (column : Nat) :
    Prop where
  isRow : ∃ earlier later, rows text = earlier ++ row :: later ∧ number = earlier.length + 1 ∧
    spot = earlier.flatten.length + column
  char : row[column]? = text[spot]?
  atEnd : spot = text.length → column = row.length

/-- No column of a row is further out than the one past its end. -/
theorem LiesIn.column_le {number column : Nat} {row : List Char}
    (lies : LiesIn text spot number row column) (inside : spot ≤ text.length) :
    column ≤ row.length := by
  rcases Nat.lt_or_eq_of_le inside with before | isEnd
  · have char := lies.char
    rw [List.getElem?_eq_getElem before] at char
    exact Nat.le_of_lt (List.getElem?_eq_some_iff.1 char).1
  · exact Nat.le_of_eq (lies.atEnd isEnd)

/-- A spot beyond a row is located in the rows after it. -/
theorem locateFrom_eq (number spot : Nat) {parts : List (List Char)} (some : parts ≠ []) :
    ∃ earlier later, parts = earlier ++ (locateFrom number spot parts).text :: later ∧
      (locateFrom number spot parts).row = earlier.length + number ∧
      spot = earlier.flatten.length + (locateFrom number spot parts).column ∧
      (later = [] ∨
        (locateFrom number spot parts).column < (locateFrom number spot parts).text.length) := by
  fun_induction locateFrom number spot parts with
  | case1 => exact absurd rfl some
  | case2 number spot row => exact ⟨[], [], by simp⟩
  | case3 number spot row next rest within => exact ⟨[], next :: rest, by simp [within]⟩
  | case4 number spot row next rest beyond induction =>
      obtain ⟨earlier, later, split, isRow, isSpot, isLast⟩ := induction (List.cons_ne_nil _ _)
      refine ⟨row :: earlier, later, ?_, ?_, ?_, isLast⟩
      · rw [List.cons_append, ← split]
      · rw [isRow, List.length_cons]
        omega
      · rw [List.flatten_cons, List.length_append, Nat.add_assoc, ← isSpot]
        omega

theorem rows_ne_nil (text : List Char) : rows text ≠ [] := by
  unfold rows
  split <;> exact List.cons_ne_nil _ _

/-- A spot is located where it lies. -/
theorem liesIn_locate (text : List Char) (spot : Nat) :
    LiesIn text spot (locate text spot).row (locate text spot).text (locate text spot).column := by
  obtain ⟨earlier, later, split, isRow, isSpot, isLast⟩ :=
    locateFrom_eq 1 spot (rows_ne_nil text)
  rw [← locate] at split isRow isSpot isLast
  generalize locate text spot = location at split isRow isSpot isLast ⊢
  have whole : text = earlier.flatten ++ (location.text ++ later.flatten) := by
    rw [← flatten_rows text, split, List.flatten_append, List.flatten_cons]
  refine ⟨⟨earlier, later, split, isRow, isSpot⟩, ?_, fun isEnd => ?_⟩
  · rw [isSpot, whole, List.getElem?_append_right (by omega), Nat.add_sub_cancel_left]
    rcases isLast with rfl | within
    · simp
    · rw [List.getElem?_append_left within]
  · have length := congrArg List.length whole
    simp only [List.length_append] at length
    rcases isLast with rfl | within
    · simp only [List.flatten_nil, List.length_nil] at length
      omega
    · omega

/-- A line feed after a carriage return is in the row that it ends, and an empty row follows. -/
example : rows "a\r\n\nb\n".toList = ["a\r\n".toList, "\n".toList, "b\n".toList, []] ∧
    locate "a\r\n\nb\n".toList 4 = ⟨3, "b\n".toList, 0⟩ ∧
    locate "a\r\n\nb\n".toList 6 = ⟨4, [], 0⟩ := by
  decide +kernel

end LoxLang.Text
