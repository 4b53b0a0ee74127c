import LoxLang.Proofs.Lexicon.Rules

/-!
# One pass over a text

How far a lexeme goes is told by its characters and by one or two that follow it.  Blanks,
numbers and words go on as long as they can, a point belongs to a number only if a digit
follows it, a comment ends in front of a line feed, quotes end at the next quote or else at the
end, and operators of two characters come before those of one.  The lexeme that is found first
in a text is the one that these rules take off it.
-/

namespace LoxLang.Lexeme

/-- The text does not begin with a character that passes the test. -/
def Stops (test : Char → Bool) (after : List Char) : Prop :=
  ∀ d ∈ after.head?, test d = false

/-- One pass over a text takes the lexeme off it if this is what comes after. -/
inductive Taken : Lexeme → (after : List Char) → Prop where
  | blank {chars after : List Char} (nonempty : chars ≠ [])
      (blank : ∀ c ∈ chars, isBlank c = true) (ends : Stops isBlank after) :
      Taken ⟨.blank, chars⟩ after
  | comment {body after : List Char} (oneLine : '\n' ∉ body) (ends : ∀ d ∈ after.head?, d = '\n') :
      Taken ⟨.comment, '/' :: '/' :: body⟩ after
  | double {c : Char} {after : List Char} (takes : mayTakeEqual c = true) :
      Taken ⟨.punctuation, [c, '=']⟩ after
  | single {c : Char} {after : List Char} (takes : mayTakeEqual c = true)
      (ends : after.head? ≠ some '=') : Taken ⟨.punctuation, [c]⟩ after
  | lone {c : Char} {after : List Char} (lone : isLonePunctuation c = true)
      (noComment : ¬(c = '/' ∧ after.head? = some '/')) : Taken ⟨.punctuation, [c]⟩ after
  | whole {c : Char} {more after : List Char} (digit : isDigit c = true)
      (digits : ∀ d ∈ more, isDigit d = true) (ends : Stops isDigit after)
      (noFraction : beginsFraction after = false) : Taken ⟨.number, c :: more⟩ after
  | fraction {c d : Char} {more part after : List Char} (digit : isDigit c = true)
      (digits : ∀ d ∈ more, isDigit d = true) (partDigit : isDigit d = true)
      (partDigits : ∀ d ∈ part, isDigit d = true) (ends : Stops isDigit after) :
      Taken ⟨.number, c :: (more ++ '.' :: d :: part)⟩ after
  | text {inner after : List Char} (closed : '"' ∉ inner) :
      Taken ⟨.text, '"' :: (inner ++ ['"'])⟩ after
  | openText {inner : List Char} (unclosed : '"' ∉ inner) : Taken ⟨.openText, '"' :: inner⟩ []
  | word {chars after : List Char} (isWord : IsWord chars) (ends : Stops continuesWord after) :
      Taken ⟨.word, chars⟩ after
  | stray {c : Char} {after : List Char} (stray : isStray c = true) : Taken ⟨.stray, [c]⟩ after

/-- What a pass takes off a text obeys the rule for its kind. -/
theorem Taken.rule {lexeme : Lexeme} {after : List Char} (taken : Taken lexeme after) :
    Rule lexeme.kind lexeme.chars := by
  cases taken with
  | blank nonempty blank _ => exact .blank nonempty blank
  | comment oneLine _ => exact .comment oneLine
  | double takes => exact .double takes
  | single takes _ => exact .single takes
  | lone lone _ => exact .lone lone
  | whole digit digits _ _ => exact .whole digit digits
  | fraction digit digits partDigit partDigits _ =>
      exact .fraction digit digits partDigit partDigits
  | text closed => exact .text closed
  | openText unclosed => exact .openText unclosed
  | word isWord _ => exact .word isWord
  | stray stray => exact .stray stray

section Stopping

variable {test : Char → Bool} {more after : List Char}

theorem takeWhile_of_stops (passes : ∀ c ∈ more, test c = true) (stops : Stops test after) :
    (more ++ after).takeWhile test = more := by
  cases after with
  | nil => rw [List.takeWhile_append_of_pos passes, List.takeWhile_nil, List.append_nil]
  | cons d after => exact takeWhile_of_stop passes (stops d rfl) after

theorem dropWhile_of_stops (passes : ∀ c ∈ more, test c = true) (stops : Stops test after) :
    (more ++ after).dropWhile test = after := by
  cases after with
  | nil => rw [List.dropWhile_append_of_pos passes, List.dropWhile_nil]
  | cons d after => exact dropWhile_of_stop passes (stops d rfl) after

end Stopping

/-- What does not occur is passed over. -/
theorem passes_of_not_mem {stop : Char} {inner : List Char} (missing : stop ∉ inner) :
    ∀ d ∈ inner, (d != stop) = true :=
  fun _ member => bne_iff_ne.2 fun same => missing (same ▸ member)

section Characters

variable {c : Char}

theorem eq_of_isLonePunctuation (lone : isLonePunctuation c = true) :
    c = '-' ∨ c = '(' ∨ c = ')' ∨ c = '{' ∨ c = '}' ∨ c = ',' ∨ c = '.' ∨ c = '+' ∨ c = ';' ∨
      c = '*' ∨ c = '/' := by
  simpa [isLonePunctuation, or_assoc] using lone

theorem first_blank (blank : isBlank c = true) (rest : List Char) :
    first c rest = ⟨.blank, c :: rest.takeWhile isBlank⟩ :=
  if_pos blank

theorem first_stray (stray : isStray c = true) (rest : List Char) :
    first c rest = ⟨.stray, [c]⟩ := by
  simp only [isStray, Bool.not_eq_eq_eq_not, Bool.not_true, Bool.or_eq_false_iff,
    beq_eq_false_iff_ne] at stray
  obtain ⟨⟨⟨⟨⟨notBlank, notLone⟩, takesNone⟩, notDigit⟩, notQuote⟩, notWord⟩ := stray
  have notSlash : c ≠ '/' := by
    rintro rfl
    cases notLone
  simp [first, notBlank, notSlash, notLone, takesNone, notDigit, notQuote, notWord]

end Characters

/-- What a pass takes off a text is found first in it. -/
theorem Taken.first_eq {kind : LexemeKind} {c : Char} {more after : List Char}
    (taken : Taken ⟨kind, c :: more⟩ after) : first c (more ++ after) = ⟨kind, c :: more⟩ := by
  cases taken with
  | blank nonempty blank ends =>
      obtain ⟨begins, blanks⟩ := List.forall_mem_cons.1 blank
      rw [first_blank begins, takeWhile_of_stops blanks ends]
  | @comment body _ oneLine ends =>
      have passes : ∀ d ∈ '/' :: body, (d != '\n') = true :=
        List.forall_mem_cons.2 ⟨rfl, passes_of_not_mem oneLine⟩
      have stops : Stops (· != '\n') after := fun d begins => by simp [ends d begins]
      have isFirst : first '/' ('/' :: body ++ after) =
        ⟨.comment, '/' :: ('/' :: body ++ after).takeWhile (· != '\n')⟩ := rfl
      rw [isFirst, takeWhile_of_stops passes stops]
  | double takes => rw [first_mayTakeEqual takes]; rfl
  | single takes ends => rw [List.nil_append, first_mayTakeEqual takes, if_neg ends]
  | lone lone noComment =>
      rcases eq_of_isLonePunctuation lone with
        rfl | rfl | rfl | rfl | rfl | rfl | rfl | rfl | rfl | rfl | rfl <;> try rfl
      exact first_lone lone fun follows => noComment ⟨rfl, follows⟩
  | whole digit digits ends noFraction =>
      rw [first_digit digit, takeWhile_of_stops digits ends, dropWhile_of_stops digits ends,
        (fraction_eq_nil _).2 noFraction, List.append_nil]
  | @fraction _ d more part _ digit digits partDigit partDigits ends =>
      have point : Stops isDigit ('.' :: d :: part ++ after) := fun _ begins => by
        cases begins
        decide
      rw [List.append_assoc, first_digit digit, takeWhile_of_stops digits point,
        dropWhile_of_stops digits point, List.cons_append, List.cons_append,
        fraction_point partDigit, takeWhile_of_stops partDigits ends]
  | @text inner _ closed =>
      have passes := passes_of_not_mem closed
      have stops : ('"' != '"') = false := by decide
      rw [List.append_assoc, List.singleton_append, first_quote, takeWhile_of_stop passes stops,
        dropWhile_of_stop passes stops]
      rfl
  | openText unclosed =>
      have passes := passes_of_not_mem unclosed
      have stops : Stops (· != '"') [] := nofun
      rw [first_quote, takeWhile_of_stops passes stops, dropWhile_of_stops passes stops]
      rfl
  | word isWord ends =>
      obtain ⟨_, _, same, starts, continues⟩ := isWord
      cases same
      rw [first_word starts, takeWhile_of_stops continues ends]
  | stray stray => exact first_stray stray _

section Found

variable {kind : LexemeKind} {c : Char} {more after : List Char}

/-- Digits without a point are followed by no digit, and by no point with a digit. -/
theorem whole_ends (found : first c (more ++ after) = ⟨.number, c :: more⟩)
    (digit : isDigit c = true) (digits : ∀ d ∈ more, isDigit d = true) :
    Stops isDigit after ∧ beginsFraction after = false := by
  rw [first_digit digit] at found
  simp only [Lexeme.mk.injEq, List.cons.injEq, true_and] at found
  rw [List.takeWhile_append_of_pos digits, List.dropWhile_append_of_pos digits, List.append_assoc,
    List.append_right_eq_self, List.append_eq_nil_iff] at found
  obtain ⟨noDigit, noFraction⟩ := found
  have split := List.takeWhile_append_dropWhile (p := isDigit) (l := after)
  rw [noDigit, List.nil_append] at split
  rw [split, fraction_eq_nil] at noFraction
  have reached : ([] ++ after).takeWhile isDigit = [] := noDigit
  exact ⟨head_of_takeWhile reached, noFraction⟩

/-- The digits after a point are followed by no digit. -/
theorem fraction_ends {d : Char} {part : List Char}
    (found : first c (more ++ '.' :: d :: part ++ after) =
      ⟨.number, c :: (more ++ '.' :: d :: part)⟩)
    (digit : isDigit c = true) (digits : ∀ d ∈ more, isDigit d = true)
    (partDigit : isDigit d = true) : Stops isDigit after := by
  have point : isDigit '.' = false := by decide
  rw [List.append_assoc, List.cons_append, List.cons_append, first_digit digit,
    takeWhile_of_stop digits point, dropWhile_of_stop digits point,
    fraction_point partDigit] at found
  simp only [Lexeme.mk.injEq, List.cons.injEq, true_and, List.append_cancel_left_eq] at found
  exact head_of_takeWhile found

/-- What is found first in a text is what a pass takes off it. -/
theorem taken_of_first (found : first c (more ++ after) = ⟨kind, c :: more⟩) :
    Taken ⟨kind, c :: more⟩ after := by
  cases rule_of_first found with
  | blank nonempty blank => exact .blank nonempty blank (blanks_end found)
  | comment oneLine => exact .comment oneLine (comment_ends found)
  | lone lone =>
      refine .lone lone ?_
      rintro ⟨rfl, follows⟩
      obtain ⟨tail, rfl⟩ := List.head?_eq_some_iff.1 follows
      cases found
  | single takes =>
      refine .single takes fun follows => ?_
      rw [List.nil_append, first_mayTakeEqual takes, if_pos follows] at found
      cases found
  | double takes => exact .double takes
  | whole digit digits =>
      obtain ⟨ends, noFraction⟩ := whole_ends found digit digits
      exact .whole digit digits ends noFraction
  | fraction digit digits partDigit partDigits =>
      exact .fraction digit digits partDigit partDigits
        (fraction_ends found digit digits partDigit)
  | text closed => exact .text closed
  | openText unclosed =>
      cases openText_ends found
      exact .openText unclosed
  | word isWord =>
      refine .word isWord ?_
      obtain ⟨_, _, same, starts, continues⟩ := isWord
      cases same
      rw [first_word starts] at found
      simp only [Lexeme.mk.injEq, List.cons.injEq, true_and] at found
      exact head_of_takeWhile found
  | stray stray => exact .stray stray

end Found

/-! ## Prefixes that obey a rule -/

section Prefixes

variable {kind other : LexemeKind} {c : Char} {more chars : List Char}

/-- At the end of a text a pass takes whatever obeys a rule. -/
theorem Rule.taken (rule : Rule kind chars) : Taken ⟨kind, chars⟩ [] := by
  cases rule with
  | blank nonempty blank => exact .blank nonempty blank nofun
  | comment oneLine => exact .comment oneLine nofun
  | lone lone => exact .lone lone nofun
  | single takes => exact .single takes nofun
  | double takes => exact .double takes
  | whole digit digits => exact .whole digit digits nofun rfl
  | fraction digit digits partDigit partDigits =>
      exact .fraction digit digits partDigit partDigits nofun
  | text closed => exact .text closed
  | openText unclosed => exact .openText unclosed
  | word isWord => exact .word isWord nofun
  | stray stray => exact .stray stray

/-- The same characters obey no two rules for different kinds. -/
theorem Rule.kind_eq (rule : Rule kind chars) (otherRule : Rule other chars) : kind = other := by
  obtain ⟨c, more, rfl⟩ := List.exists_cons_of_ne_nil rule.chars_ne_nil
  have found := rule.taken.first_eq
  rw [otherRule.taken.first_eq] at found
  exact (congrArg Lexeme.kind found).symm

/-- What is found first in a text goes on at least as far as a prefix that obeys a rule. -/
theorem Rule.length_le (rule : Rule kind (c :: more)) (after : List Char) :
    (c :: more).length ≤ (first c (more ++ after)).chars.length := by
  cases rule with
  | blank _ blank =>
      obtain ⟨begins, blanks⟩ := List.forall_mem_cons.1 blank
      rw [first_blank begins, List.takeWhile_append_of_pos blanks]
      simp
  | @comment body oneLine =>
      have passes : ∀ d ∈ '/' :: body, (d != '\n') = true :=
        List.forall_mem_cons.2 ⟨rfl, passes_of_not_mem oneLine⟩
      have isFirst : first '/' ('/' :: body ++ after) =
        ⟨.comment, '/' :: ('/' :: body ++ after).takeWhile (· != '\n')⟩ := rfl
      rw [isFirst, List.takeWhile_append_of_pos passes]
      simp
  | lone | single | stray => exact List.length_pos_of_ne_nil (rule_first _ _).chars_ne_nil
  | double takes =>
      rw [first_mayTakeEqual takes]
      exact Nat.le_refl 2
  | whole digit digits =>
      rw [first_digit digit, List.takeWhile_append_of_pos digits]
      simp only [List.length_cons, List.length_append]
      omega
  | @fraction _ d more part digit digits partDigit partDigits =>
      have point : isDigit '.' = false := by decide
      rw [List.append_assoc, List.cons_append, List.cons_append, first_digit digit,
        takeWhile_of_stop digits point, dropWhile_of_stop digits point,
        fraction_point partDigit, List.takeWhile_append_of_pos partDigits]
      simp
  | @text inner closed =>
      have passes := passes_of_not_mem closed
      have stops : ('"' != '"') = false := by decide
      rw [List.append_assoc, List.singleton_append, first_quote, takeWhile_of_stop passes stops,
        dropWhile_of_stop passes stops]
      exact Nat.le_refl _
  | openText unclosed =>
      have passes := passes_of_not_mem unclosed
      rw [first_quote, List.takeWhile_append_of_pos passes]
      split <;> simp [Nat.add_assoc]
  | word isWord =>
      obtain ⟨_, _, same, starts, continues⟩ := isWord
      cases same
      rw [first_word starts, List.takeWhile_append_of_pos continues]
      simp

end Prefixes

end LoxLang.Lexeme
