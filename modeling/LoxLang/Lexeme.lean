import LoxLang.Token

/-!
# Lexemes

A text is a sequence of lexemes: blanks, comments, punctuation, numbers, texts
in quotes, words, and stray characters.  `Lexeme.first` takes the first lexeme
off a text by looking at one character, sometimes two, and then as far as the
lexeme goes; `Lexeme.all` goes on with what is left.  No character is lost:
the lexemes of a text, one after the other, are the text (`flatMap_chars_all`).
-/

namespace LoxLang

/-- The kinds of lexemes. -/
inductive LexemeKind where
  | blank | comment | punctuation | number | text | openText | word | stray
deriving DecidableEq, Repr, Inhabited

/-- A piece of the text with its kind. -/
structure Lexeme where
  kind : LexemeKind
  chars : List Char
deriving DecidableEq, Repr, Inhabited

namespace Lexeme

/-- The four characters that only separate lexemes. -/
def isBlank (c : Char) : Bool := c == ' ' || c == '\t' || c == '\r' || c == '\n'

/-- The digits of ASCII. -/
def isDigit (c : Char) : Bool := '0' ≤ c && c ≤ '9'

/-- What begins a word: a letter of ASCII or an underscore. -/
def startsWord (c : Char) : Bool :=
  ('a' ≤ c && c ≤ 'z') || ('A' ≤ c && c ≤ 'Z') || c == '_'

/-- What goes on with a word. -/
def continuesWord (c : Char) : Bool := startsWord c || isDigit c

/-- Punctuation that an equals sign may follow as part of the lexeme. -/
def mayTakeEqual (c : Char) : Bool := c == '!' || c == '=' || c == '<' || c == '>'

/-- Punctuation that stands alone. -/
def isLonePunctuation (c : Char) : Bool :=
  c == '-' || c == '(' || c == ')' || c == '{' || c == '}' || c == ',' || c == '.' || c == '+' ||
  c == ';' || c == '*' || c == '/'

/-- What belongs to a number after its leading digits: a point counts only if a digit follows. -/
def fraction : List Char → List Char
  | '.' :: d :: rest => if isDigit d then '.' :: d :: rest.takeWhile isDigit else []
  | _ => []

/-- The first lexeme of a text that begins with `c`. -/
def first (c : Char) (rest : List Char) : Lexeme :=
  if isBlank c then ⟨.blank, c :: rest.takeWhile isBlank⟩
  else if c = '/' ∧ rest.head? = some '/' then ⟨.comment, c :: rest.takeWhile (· != '\n')⟩
  else if isLonePunctuation c then ⟨.punctuation, [c]⟩
  else if mayTakeEqual c then ⟨.punctuation, if rest.head? = some '=' then [c, '='] else [c]⟩
  else if isDigit c then
    let whole := rest.takeWhile isDigit
    ⟨.number, c :: (whole ++ fraction (rest.dropWhile isDigit))⟩
  else if c = '"' then
    let inner := rest.takeWhile (· != '"')
    if (rest.dropWhile (· != '"')).isEmpty then ⟨.openText, c :: inner⟩
    else ⟨.text, c :: (inner ++ ['"'])⟩
  else if startsWord c then ⟨.word, c :: rest.takeWhile continuesWord⟩
  else ⟨.stray, [c]⟩

/-- The lexemes of a text. -/
def all : List Char → List Lexeme
  | [] => []
  | c :: rest => first c rest :: all (rest.drop (first c rest).chars.tail.length)
termination_by text => text.length
decreasing_by
  rw [List.length_drop, List.length_cons]
  omega

theorem fraction_prefix (text : List Char) : fraction text <+: text := by
  unfold fraction
  split
  · split
    · simpa using List.takeWhile_prefix isDigit
    · exact List.nil_prefix
  · exact List.nil_prefix

/-- A lexeme begins with the first character and goes on with what stands next. -/
theorem chars_first (c : Char) (rest : List Char) :
    ∃ more, (first c rest).chars = c :: more ∧ more <+: rest := by
  unfold first
  split
  · exact ⟨_, rfl, List.takeWhile_prefix _⟩
  split
  · exact ⟨_, rfl, List.takeWhile_prefix _⟩
  split
  · exact ⟨_, rfl, List.nil_prefix⟩
  split
  · split
    · rename_i follows
      obtain ⟨tail, rfl⟩ := List.head?_eq_some_iff.1 follows
      exact ⟨_, rfl, by simp⟩
    · exact ⟨_, rfl, List.nil_prefix⟩
  split
  · obtain ⟨after, same⟩ := fraction_prefix (rest.dropWhile isDigit)
    refine ⟨_, rfl, after, ?_⟩
    rw [List.append_assoc, same, List.takeWhile_append_dropWhile]
  split
  · dsimp only
    split
    · exact ⟨_, rfl, List.takeWhile_prefix _⟩
    · rename_i closed
      cases after : rest.dropWhile (· != '"') with
      | nil => simp [after] at closed
      | cons quote tail =>
          have isQuote : quote = '"' := by
            have head := List.head?_dropWhile_not (· != '"') rest
            simpa [after] using head
          subst isQuote
          refine ⟨_, rfl, tail, ?_⟩
          rw [List.append_assoc, List.singleton_append, ← after, List.takeWhile_append_dropWhile]
  split
  · exact ⟨_, rfl, List.takeWhile_prefix _⟩
  · exact ⟨_, rfl, List.nil_prefix⟩

theorem chars_first_append (c : Char) (rest : List Char) :
    (first c rest).chars ++ rest.drop (first c rest).chars.tail.length = c :: rest := by
  obtain ⟨more, begins, after, whole⟩ := chars_first c rest
  rw [begins, List.tail_cons, ← whole]
  simp

/-- The lexemes of a text, one after the other, are the text. -/
theorem flatMap_chars_all (text : List Char) : (all text).flatMap chars = text := by
  fun_induction all text with
  | case1 => rfl
  | case2 c rest induction => rw [List.flatMap_cons, induction, chars_first_append]

end Lexeme

end LoxLang
