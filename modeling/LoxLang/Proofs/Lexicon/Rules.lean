import LoxLang.Proofs.Lexemes

/-!
# The lexical rules

For each kind of lexeme there is a rule that says what its characters are, whatever stands
around it.  Every lexeme that is found obeys the rule for its kind.  Conversely, what obeys
the rule for a kind of token is found whole in front of a blank.
-/

namespace LoxLang.Lexeme

/-- A character with which no lexeme of another kind begins. -/
def isStray (c : Char) : Bool :=
  !(isBlank c || isLonePunctuation c || mayTakeEqual c || isDigit c || c == '"' || startsWord c)

/-- The characters make up a lexeme of the kind. -/
inductive Rule : LexemeKind → List Char → Prop where
  | blank {chars : List Char} (nonempty : chars ≠ []) (blank : ∀ c ∈ chars, isBlank c = true) :
      Rule .blank chars
  | comment {body : List Char} (oneLine : '\n' ∉ body) : Rule .comment ('/' :: '/' :: body)
  | lone {c : Char} (lone : isLonePunctuation c = true) : Rule .punctuation [c]
  | single {c : Char} (takes : mayTakeEqual c = true) : Rule .punctuation [c]
  | double {c : Char} (takes : mayTakeEqual c = true) : Rule .punctuation [c, '=']
  | whole {c : Char} {more : List Char} (digit : isDigit c = true)
      (digits : ∀ d ∈ more, isDigit d = true) : Rule .number (c :: more)
  | fraction {c d : Char} {more part : List Char} (digit : isDigit c = true)
      (digits : ∀ d ∈ more, isDigit d = true) (partDigit : isDigit d = true)
      (partDigits : ∀ d ∈ part, isDigit d = true) :
      Rule .number (c :: (more ++ '.' :: d :: part))
  | text {inner : List Char} (closed : '"' ∉ inner) : Rule .text ('"' :: (inner ++ ['"']))
  | openText {inner : List Char} (unclosed : '"' ∉ inner) : Rule .openText ('"' :: inner)
  | word {chars : List Char} (isWord : IsWord chars) : Rule .word chars
  | stray {c : Char} (stray : isStray c = true) : Rule .stray [c]

theorem Rule.chars_ne_nil {kind : LexemeKind} {chars : List Char} (rule : Rule kind chars) :
    chars ≠ [] := by
  cases rule with
  | blank nonempty _ => exact nonempty
  | word isWord =>
      obtain ⟨_, _, rfl, _⟩ := isWord
      exact List.cons_ne_nil _ _
  | _ => exact List.cons_ne_nil _ _

theorem not_mem_takeWhile_bne {stop : Char} (text : List Char) :
    stop ∉ text.takeWhile (· != stop) := by
  intro member
  simpa using passes_of_mem_takeWhile stop member

theorem fraction_point {d : Char} (digit : isDigit d = true) (tail : List Char) :
    fraction ('.' :: d :: tail) = '.' :: d :: tail.takeWhile isDigit := by
  simp [fraction, digit]

/-- A number goes on with digits, and perhaps with a point and more digits. -/
theorem rule_number {c : Char} (digit : isDigit c = true) (rest : List Char) :
    Rule .number (c :: (rest.takeWhile isDigit ++ fraction (rest.dropWhile isDigit))) := by
  have digits : ∀ d ∈ rest.takeWhile isDigit, isDigit d = true := passes_of_mem_takeWhile
  cases pointed : beginsFraction (rest.dropWhile isDigit) with
  | false =>
      rw [(fraction_eq_nil _).2 pointed, List.append_nil]
      exact .whole digit digits
  | true =>
      unfold beginsFraction at pointed
      split at pointed
      · rename_i d tail after
        rw [after, fraction_point pointed]
        exact .fraction digit digits pointed passes_of_mem_takeWhile
      · cases pointed

/-- What is found obeys the rule for its kind. -/
theorem rule_first (c : Char) (rest : List Char) :
    Rule (first c rest).kind (first c rest).chars := by
  unfold first
  split
  · rename_i blank
    refine .blank (List.cons_ne_nil _ _) ?_
    exact List.forall_mem_cons.2 ⟨blank, passes_of_mem_takeWhile⟩
  rename_i notBlank
  split
  · rename_i slashes
    obtain ⟨rfl, follows⟩ := slashes
    obtain ⟨body, rfl⟩ := List.head?_eq_some_iff.1 follows
    exact .comment (not_mem_takeWhile_bne body)
  split
  · rename_i lone
    exact .lone lone
  rename_i notLone
  split
  · rename_i takes
    dsimp only
    split
    · exact .double takes
    · exact .single takes
  rename_i notTakes
  split
  · rename_i digit
    exact rule_number digit rest
  rename_i notDigit
  split
  · rename_i quote
    subst quote
    dsimp only
    split
    · exact .openText (not_mem_takeWhile_bne rest)
    · exact .text (not_mem_takeWhile_bne rest)
  rename_i notQuote
  split
  · rename_i starts
    exact .word ⟨c, _, rfl, starts, passes_of_mem_takeWhile⟩
  · rename_i notStarts
    refine .stray ?_
    simp [isStray, notBlank, notLone, notTakes, notDigit, notQuote, notStarts]

theorem first_quote (rest : List Char) :
    first '"' rest =
      if (rest.dropWhile (· != '"')).isEmpty then ⟨.openText, '"' :: rest.takeWhile (· != '"')⟩
      else ⟨.text, '"' :: (rest.takeWhile (· != '"') ++ ['"'])⟩ := rfl

/-! ## Where lexemes end -/

/-- What goes as far as a test allows is followed by nothing that passes the test. -/
theorem head_of_takeWhile {test : Char → Bool} {more after : List Char}
    (reached : (more ++ after).takeWhile test = more) : ∀ d ∈ after.head?, test d = false := by
  have split := List.takeWhile_append_dropWhile (p := test) (l := more ++ after)
  rw [reached, List.append_cancel_left_eq] at split
  have stops := List.head?_dropWhile_not test (more ++ after)
  rw [split] at stops
  intro d begins
  rw [Option.mem_def.1 begins] at stops
  simpa using stops

section Found

variable {c : Char} {more after : List Char} {kind : LexemeKind}

theorem rule_of_first (found : first c (more ++ after) = ⟨kind, c :: more⟩) :
    Rule kind (c :: more) := by
  have rule := rule_first c (more ++ after)
  rwa [found] at rule

/-- Blanks end in front of what is no blank. -/
theorem blanks_end (found : first c (more ++ after) = ⟨.blank, c :: more⟩) :
    ∀ d ∈ after.head?, isBlank d = false := by
  cases rule_of_first found with
  | blank _ blank =>
      have isFirst : first c (more ++ after) = ⟨.blank, c :: (more ++ after).takeWhile isBlank⟩ :=
        if_pos (blank c List.mem_cons_self)
      rw [isFirst] at found
      simp only [Lexeme.mk.injEq, List.cons.injEq, true_and] at found
      exact head_of_takeWhile found

/-- A comment ends in front of a line feed. -/
theorem comment_ends (found : first c (more ++ after) = ⟨.comment, c :: more⟩) :
    ∀ d ∈ after.head?, d = '\n' := by
  cases rule_of_first found with
  | @comment body _ =>
      have isFirst : first '/' ('/' :: body ++ after) =
        ⟨.comment, '/' :: ('/' :: body ++ after).takeWhile (· != '\n')⟩ := rfl
      rw [isFirst] at found
      simp only [Lexeme.mk.injEq, List.cons.injEq, true_and] at found
      intro d begins
      simpa using head_of_takeWhile found d begins

/-- An open text goes on to the end. -/
theorem openText_ends (found : first c (more ++ after) = ⟨.openText, c :: more⟩) : after = [] := by
  cases rule_of_first found with
  | openText _ =>
      rw [first_quote] at found
      split at found
      · rename_i nothing
        simp only [Lexeme.mk.injEq, List.cons.injEq, true_and] at found
        have split := List.takeWhile_append_dropWhile (p := (· != '"')) (l := more ++ after)
        rw [found, List.isEmpty_iff.1 nothing, List.append_nil] at split
        simpa using split.symm
      · cases found

end Found

/-! ## What is found in front of a blank -/

section Classes

variable {c : Char}

theorem eq_of_isBlank (blank : isBlank c = true) : c = ' ' ∨ c = '\t' ∨ c = '\r' ∨ c = '\n' := by
  simpa [isBlank, or_assoc] using blank

theorem eq_of_mayTakeEqual (takes : mayTakeEqual c = true) :
    c = '!' ∨ c = '=' ∨ c = '<' ∨ c = '>' := by
  simpa [mayTakeEqual, or_assoc] using takes

/-- Two classes of which the first is small are disjoint if none of its members is in the second. -/
theorem not_of_disjoint {small test : Char → Bool}
    (disjoint : ∀ d, small d = true → test d = false) (passes : test c = true) :
    small c = false := by
  cases member : small c with
  | false => rfl
  | true => rw [disjoint c member] at passes; cases passes

theorem isDigit_of_isBlank (blank : isBlank c = true) : isDigit c = false := by
  rcases eq_of_isBlank blank with rfl | rfl | rfl | rfl <;> decide

theorem continuesWord_of_isBlank (blank : isBlank c = true) : continuesWord c = false := by
  rcases eq_of_isBlank blank with rfl | rfl | rfl | rfl <;> decide

theorem ne_of_isBlank {d : Char} (blank : isBlank c = true) (other : isBlank d = false) :
    c ≠ d := by
  rintro rfl
  rw [other] at blank
  cases blank

end Classes

theorem first_lone {c : Char} (lone : isLonePunctuation c = true) {rest : List Char}
    (noComment : rest.head? ≠ some '/') : first c rest = ⟨.punctuation, [c]⟩ := by
  have notBlank : isBlank c = false := by
    refine not_of_disjoint ?_ lone
    intro d blank
    rcases eq_of_isBlank blank with rfl | rfl | rfl | rfl <;> decide
  simp [first, notBlank, noComment, lone]

theorem first_mayTakeEqual {c : Char} (takes : mayTakeEqual c = true) (rest : List Char) :
    first c rest = ⟨.punctuation, if rest.head? = some '=' then [c, '='] else [c]⟩ := by
  rcases eq_of_mayTakeEqual takes with rfl | rfl | rfl | rfl <;> rfl

theorem first_digit {c : Char} (digit : isDigit c = true) (rest : List Char) :
    first c rest =
      ⟨.number, c :: (rest.takeWhile isDigit ++ fraction (rest.dropWhile isDigit))⟩ := by
  have notBlank : isBlank c = false := not_of_disjoint (fun _ => isDigit_of_isBlank) digit
  have notSlash : c ≠ '/' := by
    rintro rfl
    cases digit
  have notLone : isLonePunctuation c = false := by
    refine not_of_disjoint ?_ digit
    intro d lone
    simp only [isLonePunctuation, Bool.or_eq_true, beq_iff_eq, or_assoc] at lone
    rcases lone with rfl | rfl | rfl | rfl | rfl | rfl | rfl | rfl | rfl | rfl | rfl <;> decide
  have takesNone : mayTakeEqual c = false := by
    refine not_of_disjoint ?_ digit
    intro d takes
    rcases eq_of_mayTakeEqual takes with rfl | rfl | rfl | rfl <;> decide
  simp [first, notBlank, notSlash, notLone, takesNone, digit]

/-- What obeys the rule for a kind of token is found whole in front of a blank. -/
theorem Rule.first_eq {kind : LexemeKind} {c : Char} {more : List Char}
    (rule : Rule kind (c :: more)) (isToken : kind ∈ [.punctuation, .number, .text, .word])
    {b : Char} (blank : isBlank b = true) (after : List Char) :
    first c (more ++ b :: after) = ⟨kind, c :: more⟩ := by
  have notDigit := isDigit_of_isBlank blank
  have notWord := continuesWord_of_isBlank blank
  cases rule with
  | blank | comment | openText | stray => simp at isToken
  | lone lone =>
      exact first_lone lone (by simpa using ne_of_isBlank blank (by decide))
  | single takes =>
      rw [first_mayTakeEqual takes, if_neg (by simpa using ne_of_isBlank blank (by decide))]
  | double takes =>
      rw [first_mayTakeEqual takes]
      rfl
  | whole digit digits =>
      rw [first_digit digit, takeWhile_of_stop digits notDigit, dropWhile_of_stop digits notDigit]
      have noPoint : beginsFraction (b :: after) = false := by
        simp [beginsFraction_eq, ne_of_isBlank blank (by decide : isBlank '.' = false)]
      rw [(fraction_eq_nil _).2 noPoint, List.append_nil]
  | @fraction _ d more part digit digits partDigit partDigits =>
      have point : isDigit '.' = false := by decide
      have whole : (more ++ '.' :: d :: part) ++ b :: after =
          more ++ '.' :: (d :: part ++ b :: after) := by simp
      rw [first_digit digit, whole, takeWhile_of_stop digits point, dropWhile_of_stop digits point,
        List.cons_append, fraction_point partDigit, takeWhile_of_stop partDigits notDigit]
  | @text inner closed =>
      have passes : ∀ d ∈ inner, (d != '"') = true := by
        intro d member
        exact bne_iff_ne.2 fun quote => closed (quote ▸ member)
      have stops : ('"' != '"') = false := by decide
      rw [List.append_assoc, List.singleton_append, first_quote, takeWhile_of_stop passes stops,
        dropWhile_of_stop passes stops]
      rfl
  | word isWord =>
      obtain ⟨_, _, same, starts, continues⟩ := isWord
      cases same
      rw [first_word starts, takeWhile_of_stop continues notWord]

end LoxLang.Lexeme
