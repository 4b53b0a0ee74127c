import LoxLang.Token.Stream
import Mathlib.Data.List.TakeWhile

/-!
# Texts one below the other

A line feed ends every lexeme but a text in quotes, and blanks around it mean nothing.
So if no quotes are open at the end of a text, then what follows it on the next line is
read as it is read alone, only further down.
-/

namespace LoxLang

/-- The mark when a text and a line feed come before. -/
def Mark.below (above : String) (mark : Mark) : Mark :=
  ⟨mark.line + (above.toList.count '\n' + 1), mark.spot + (above.toList.length + 1)⟩

/-- The token when a text and a line feed come before. -/
def Token.below (above : String) (token : Token) : Token :=
  { token with toMark := token.toMark.below above }

/-- Two texts one below the other. -/
def joinLines (above text : String) : String := above ++ "\n" ++ text

/-- So many blank lines. -/
def blankLines (count : Nat) : String := String.ofList (List.replicate count '\n')

namespace Lexeme

section Stops

variable {test : Char → Bool} {inner : List Char}

/-- Nothing is taken from behind a character that stops the taking. -/
theorem takeWhile_append_of_stop (stops : ∃ c ∈ inner, test c = false) (after : List Char) :
    (inner ++ after).takeWhile test = inner.takeWhile test := by
  induction inner with
  | nil => simp at stops
  | cons c rest induction =>
      cases passes : test c with
      | false => simp [passes]
      | true =>
          have later : ∃ d ∈ rest, test d = false := by simpa [passes] using stops
          simp [passes, induction later]

theorem dropWhile_append_of_stop (stops : ∃ c ∈ inner, test c = false) (after : List Char) :
    (inner ++ after).dropWhile test = inner.dropWhile test ++ after := by
  induction inner with
  | nil => simp at stops
  | cons c rest induction =>
      cases passes : test c with
      | false => simp [passes]
      | true =>
          have later : ∃ d ∈ rest, test d = false := by simpa [passes] using stops
          simp [passes, induction later]

theorem takeWhile_append_newline (test : Char → Bool) (stops : test '\n' = false)
    (inner after : List Char) :
    (inner ++ '\n' :: after).takeWhile test = inner.takeWhile test := by
  induction inner with
  | nil => simp [stops]
  | cons c rest induction => by_cases passes : test c = true <;> simp [passes, induction]

theorem dropWhile_append_newline (stops : test '\n' = false) (inner after : List Char) :
    (inner ++ '\n' :: after).dropWhile test = inner.dropWhile test ++ '\n' :: after := by
  induction inner with
  | nil => simp [stops]
  | cons c rest induction => by_cases passes : test c = true <;> simp [passes, induction]

end Stops

theorem head?_append_newline {c : Char} (other : c ≠ '\n') (rest after : List Char) :
    (rest ++ '\n' :: after).head? = some c ↔ rest.head? = some c := by
  cases rest with
  | nil => simp [other.symm]
  | cons d rest => rfl

theorem fraction_append_newline (text after : List Char) :
    fraction (text ++ '\n' :: after) = fraction text := by
  have notDigit : isDigit '\n' = false := by decide
  match text with
  | [] => simp [fraction]
  | [c] =>
      by_cases point : c = '.'
      · simp [fraction, point, notDigit]
      · simp [fraction, point]
  | c :: d :: rest =>
      by_cases point : c = '.'
      · simp [fraction, point, takeWhile_append_newline isDigit notDigit]
      · simp [fraction, point]

/-- A line feed behind a text does not change its first lexeme, unless that is an open text, or
blanks up to the end. -/
theorem first_append_newline {c : Char} {rest : List Char}
    (closed : (first c rest).kind ≠ .openText)
    (blanksEnd : isBlank c = true → ∃ d ∈ rest, isBlank d = false) (after : List Char) :
    first c (rest ++ '\n' :: after) = first c rest := by
  unfold first at closed ⊢
  simp only [head?_append_newline (by decide : '/' ≠ '\n'),
    head?_append_newline (by decide : '=' ≠ '\n')]
  by_cases blank : isBlank c = true
  · simp only [if_pos blank, takeWhile_append_of_stop (blanksEnd blank)]
  simp only [if_neg blank] at closed ⊢
  by_cases comment : c = '/' ∧ rest.head? = some '/'
  · simp only [if_pos comment, takeWhile_append_newline (· != '\n') rfl]
  simp only [if_neg comment] at closed ⊢
  by_cases lone : isLonePunctuation c = true
  · simp only [if_pos lone]
  simp only [if_neg lone] at closed ⊢
  by_cases takesEqual : mayTakeEqual c = true
  · simp only [if_pos takesEqual]
  simp only [if_neg takesEqual] at closed ⊢
  by_cases digit : isDigit c = true
  · have notDigit : isDigit '\n' = false := by decide
    simp only [if_pos digit, takeWhile_append_newline isDigit notDigit,
      dropWhile_append_newline notDigit, fraction_append_newline]
  simp only [if_neg digit] at closed ⊢
  by_cases quote : c = '"'
  · simp only [if_pos quote] at closed ⊢
    by_cases unclosed : (rest.dropWhile (· != '"')).isEmpty = true
    · simp [unclosed] at closed
    · have stops : ∃ d ∈ rest, (d != '"') = false := by
        simpa [List.isEmpty_iff, List.dropWhile_eq_nil_iff] using unclosed
      simp [takeWhile_append_of_stop stops, dropWhile_append_of_stop stops, unclosed]
  simp only [if_neg quote] at closed ⊢
  by_cases starts : startsWord c = true
  · simp only [if_pos starts, takeWhile_append_newline continuesWord (by decide)]
  · simp only [if_neg starts]

end Lexeme

/-! ## What is read of a text -/

section Reading

variable {α : Type} {view : PlacedLexeme → Option α} {mark : Mark}

/-- What is read of a text from a mark on. -/
def readFrom (view : PlacedLexeme → Option α) (mark : Mark) (text : List Char) : List α :=
  (PlacedLexeme.place mark (Lexeme.all text)).filterMap view

theorem Mark.advance_advance (mark : Mark) (first second : List Char) :
    (mark.advance first).advance second = mark.advance (first ++ second) := by
  simp [Mark.advance, Nat.add_assoc]

@[simp] theorem readFrom_nil : readFrom view mark [] = [] := by
  rw [readFrom, Lexeme.all]
  rfl

theorem readFrom_cons (c : Char) (rest : List Char) :
    readFrom view mark (c :: rest) =
      (view ⟨Lexeme.first c rest, mark⟩).toList ++
        readFrom view (mark.advance (Lexeme.first c rest).chars)
          (rest.drop (Lexeme.first c rest).chars.tail.length) := by
  rw [readFrom, Lexeme.all, PlacedLexeme.place, List.filterMap_cons]
  cases view ⟨Lexeme.first c rest, mark⟩ <;> rfl

/-- A view that sees nothing in blanks. -/
def SkipsBlanks (view : PlacedLexeme → Option α) : Prop :=
  ∀ placed : PlacedLexeme, placed.kind = .blank → view placed = none

/-- Blanks in front of a text only move it. -/
theorem readFrom_blanks (skips : SkipsBlanks view) (text : List Char) :
    readFrom view mark text =
      readFrom view (mark.advance (text.takeWhile Lexeme.isBlank))
        (text.dropWhile Lexeme.isBlank) := by
  cases text with
  | nil => rfl
  | cons c rest =>
      by_cases blank : Lexeme.isBlank c = true
      · have isFirst : Lexeme.first c rest = ⟨.blank, c :: rest.takeWhile Lexeme.isBlank⟩ :=
          if_pos blank
        have dropped : (rest.takeWhile Lexeme.isBlank ++ rest.dropWhile Lexeme.isBlank).drop
            (rest.takeWhile Lexeme.isBlank).length = rest.dropWhile Lexeme.isBlank := List.drop_left
        rw [List.takeWhile_append_dropWhile] at dropped
        rw [readFrom_cons, isFirst, skips _ rfl, List.takeWhile_cons_of_pos blank,
          List.dropWhile_cons_of_pos blank, List.tail_cons, dropped]
        rfl
      · rw [List.takeWhile_cons_of_neg blank, List.dropWhile_cons_of_neg blank]
        rfl

theorem readFrom_blanks_append (skips : SkipsBlanks view) {blanks : List Char}
    (blank : ∀ c ∈ blanks, Lexeme.isBlank c = true) (mark : Mark) (text : List Char) :
    readFrom view mark (blanks ++ text) = readFrom view (mark.advance blanks) text := by
  rw [readFrom_blanks skips (blanks ++ text), readFrom_blanks skips text,
    List.takeWhile_append_of_pos blank, List.dropWhile_append_of_pos blank, Mark.advance_advance]

/-- What is read of two texts one below the other. -/
theorem readFrom_joined (skips : SkipsBlanks view) (mark : Mark) {above : List Char}
    (closed : ∀ lexeme ∈ Lexeme.all above, lexeme.kind ≠ .openText) (text : List Char) :
    readFrom view mark (above ++ '\n' :: text) =
      readFrom view mark above ++ readFrom view (mark.advance (above ++ ['\n'])) text := by
  have newline : Lexeme.isBlank '\n' = true := by decide
  fun_induction Lexeme.all above generalizing mark with
  | case1 =>
      rw [readFrom_nil]
      exact readFrom_blanks_append skips (List.forall_mem_singleton.2 newline) mark text
  | case2 c rest induction =>
      obtain ⟨firstClosed, restClosed⟩ := List.forall_mem_cons.1 closed
      -- Blanks at the end of a text go on over the seam, so there the lexemes are not the same.
      by_cases allBlank : ∀ d ∈ c :: rest, Lexeme.isBlank d = true
      · have nothing : readFrom view mark (c :: rest) = [] := by
          rw [readFrom_blanks skips, List.dropWhile_eq_nil_iff.2 allBlank, readFrom_nil]
        have blank : ∀ d ∈ c :: rest ++ ['\n'], Lexeme.isBlank d = true :=
          List.forall_mem_append.2 ⟨allBlank, List.forall_mem_singleton.2 newline⟩
        rw [nothing, ← readFrom_blanks_append skips blank, List.append_assoc]
        rfl
      · have blanksEnd : Lexeme.isBlank c = true → ∃ d ∈ rest, Lexeme.isBlank d = false := by
          intro blank
          simpa [blank] using allBlank
        obtain ⟨more, begins, isPrefix⟩ := Lexeme.chars_first c rest
        have within : (Lexeme.first c rest).chars.tail.length ≤ rest.length := by
          rw [begins]
          exact isPrefix.length_le
        rw [List.cons_append, readFrom_cons, readFrom_cons,
          Lexeme.first_append_newline firstClosed blanksEnd, List.drop_append_of_le_length within,
          induction _ restClosed, List.append_assoc, Mark.advance_advance, ← List.append_assoc
            (Lexeme.first c rest).chars, Lexeme.chars_first_append]

/-- What is read further down is what is read at the top, moved. -/
theorem readFrom_below {above : String} {move : α → α}
    (moves : ∀ lexeme mark, view ⟨lexeme, mark.below above⟩ = (view ⟨lexeme, mark⟩).map move)
    (text : List Char) :
    readFrom view (mark.below above) text = (readFrom view mark text).map move := by
  unfold readFrom
  generalize Lexeme.all text = lexemes
  induction lexemes generalizing mark with
  | nil => rfl
  | cons first rest induction =>
      have advances : (mark.below above).advance first.chars =
          (mark.advance first.chars).below above := by
        simp only [Mark.advance, Mark.below, Mark.mk.injEq]
        omega
      rw [PlacedLexeme.place, PlacedLexeme.place, List.filterMap_cons, List.filterMap_cons, moves,
        advances, induction]
      cases view ⟨first, mark⟩ <;> rfl

end Reading

theorem PlacedLexeme.token?_skipsBlanks : SkipsBlanks PlacedLexeme.token? := by
  intro placed blank
  simp [PlacedLexeme.token?, PlacedLexeme.tokenKind?, blank]

theorem PlacedLexeme.error?_skipsBlanks :
    SkipsBlanks fun placed => PlacedLexeme.error? placed.kind := by
  intro placed blank
  simp [PlacedLexeme.error?, blank]

theorem readFrom_blankLines {α : Type} {view : PlacedLexeme → Option α} (skips : SkipsBlanks view)
    (mark : Mark) (count : Nat) : readFrom view mark (blankLines count).toList = [] := by
  have allBlank : ∀ c ∈ (blankLines count).toList, Lexeme.isBlank c = true := by
    intro c member
    rw [blankLines, String.toList_ofList] at member
    rw [(List.mem_replicate.1 member).2]
    decide
  rw [readFrom_blanks skips, List.dropWhile_eq_nil_iff.2 allBlank, readFrom_nil]

theorem Mark.start_advance_newline (above : String) :
    Mark.start.advance (above.toList ++ ['\n']) = Mark.start.below above := by
  simp [Mark.advance, Mark.below, Mark.start, List.count_append]

/-- Nothing is wrong with the lexemes of a text if none of them is of a kind that is an error. -/
theorem TokenStream.issuesOf_eq_nil (text : String) :
    issuesOf text = [] ↔ readFrom (fun placed => PlacedLexeme.error? placed.kind) Mark.start
      text.toList = [] := by
  simp [issuesOf, readFrom, placedLexemes, PlacedLexeme.issue?, List.filterMap_eq_nil_iff]

theorem TokenStream.tokens_blankLines (count : Nat) : (ofText (blankLines count)).tokens = [] :=
  readFrom_blankLines PlacedLexeme.token?_skipsBlanks Mark.start count

theorem TokenStream.issuesOf_blankLines (count : Nat) : issuesOf (blankLines count) = [] :=
  (issuesOf_eq_nil _).2 (readFrom_blankLines PlacedLexeme.error?_skipsBlanks Mark.start count)

section Joined

variable {above : String} (clean : TokenStream.issuesOf above = [])

include clean

/-- A text without issues leaves no quotes open. -/
theorem TokenStream.closed_of_issuesOf :
    ∀ lexeme ∈ Lexeme.all above.toList, lexeme.kind ≠ .openText := by
  intro lexeme member isOpen
  rw [← PlacedLexeme.map_toLexeme_place Mark.start (Lexeme.all above.toList)] at member
  obtain ⟨placed, inText, rfl⟩ := List.mem_map.1 member
  have noError := List.filterMap_eq_nil_iff.1 ((issuesOf_eq_nil above).1 clean) placed inText
  rw [isOpen] at noError
  cases noError

/-- The tokens of two texts one below the other, if nothing is wrong with the upper one. -/
theorem TokenStream.tokens_joinLines (text : String) :
    (ofText (joinLines above text)).tokens =
      (ofText above).tokens ++ (ofText text).tokens.map (Token.below above) := by
  have moves : ∀ lexeme mark, PlacedLexeme.token? ⟨lexeme, mark.below above⟩ =
      (PlacedLexeme.token? ⟨lexeme, mark⟩).map (Token.below above) := by
    intro lexeme mark
    unfold PlacedLexeme.token?
    cases PlacedLexeme.tokenKind? lexeme <;> rfl
  have joined := readFrom_joined PlacedLexeme.token?_skipsBlanks Mark.start
    (closed_of_issuesOf clean) text.toList
  rw [Mark.start_advance_newline, readFrom_below moves] at joined
  simpa [joinLines, ofText, placedLexemes, readFrom] using joined

theorem TokenStream.issuesOf_joinLines {text : String} (textClean : issuesOf text = []) :
    issuesOf (joinLines above text) = [] := by
  let view : PlacedLexeme → Option LexicalError := fun placed => PlacedLexeme.error? placed.kind
  have moves : ∀ lexeme mark, view ⟨lexeme, mark.below above⟩ = (view ⟨lexeme, mark⟩).map id :=
    fun lexeme mark => Option.map_id'.symm
  have joined := readFrom_joined PlacedLexeme.error?_skipsBlanks Mark.start
    (closed_of_issuesOf clean) text.toList
  rw [Mark.start_advance_newline, readFrom_below moves, (issuesOf_eq_nil above).1 clean,
    (issuesOf_eq_nil text).1 textClean] at joined
  rw [issuesOf_eq_nil]
  simpa [joinLines] using joined

end Joined

end LoxLang
