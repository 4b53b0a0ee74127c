import LoxLang.Lexeme
import Mathlib.Data.List.Forall2

/-!
# Words spelled anew

How far a lexeme goes depends on the characters of the lexeme and on one or two that
follow.  A word may be spelled anew, as another word, without any effect on the
lexemes around it: what goes before sees only that a word follows.
-/

namespace LoxLang.Lexeme

/-- The lexemes that are found, one after the other, in the text that they make up. -/
inductive Sequence : List Lexeme → Prop where
  | nil : Sequence []
  | cons {c : Char} {more : List Char} {kind : LexemeKind} {rest : List Lexeme} :
      first c (more ++ rest.flatMap chars) = ⟨kind, c :: more⟩ → Sequence rest →
      Sequence (⟨kind, c :: more⟩ :: rest)

theorem sequence_all (text : List Char) : Sequence (all text) := by
  fun_induction all text with
  | case1 => exact .nil
  | case2 c rest induction =>
      obtain ⟨more, begins, after, whole⟩ := chars_first c rest
      have found : first c rest = ⟨(first c rest).kind, c :: more⟩ := by rw [← begins]
      rw [begins, List.tail_cons] at induction ⊢
      rw [found]
      refine .cons ?_ induction
      rw [flatMap_chars_all, ← whole, List.drop_left, whole]
      exact found

theorem Sequence.all_eq {lexemes : List Lexeme} (sequence : Sequence lexemes) :
    all (lexemes.flatMap chars) = lexemes := by
  induction sequence with
  | nil => simp [all]
  | cons found _ induction =>
      rw [List.flatMap_cons, List.cons_append, all, found, List.tail_cons, List.drop_left,
        induction]

/-- A test that cannot tell the beginnings of two words apart. -/
def BlindToWords (test : Char → Bool) : Prop :=
  ∀ c d, startsWord c = true → startsWord d = true → test c = test d

/-- Whether the text begins with a point and a digit. -/
def beginsFraction : List Char → Bool
  | '.' :: d :: _ => isDigit d
  | _ => false

/-- What a lexeme can tell of two texts that follow it is the same. -/
structure LookAlike (after other : List Char) : Prop where
  head : ∀ test, BlindToWords test → other.head?.map test = after.head?.map test
  fraction : beginsFraction other = beginsFraction after

section Characters

variable {c d : Char}

theorem ne_of_startsWord (starts : startsWord c = true) (other : startsWord d = false) : c ≠ d := by
  intro same
  rw [same, other] at starts
  cases starts

theorem isBlank_of_startsWord (starts : startsWord c = true) : isBlank c = false := by
  have other (d : Char) : startsWord d = false → c ≠ d := ne_of_startsWord starts
  simp only [isBlank, Bool.or_eq_false_iff, beq_eq_false_iff_ne]
  refine ⟨⟨⟨other ' ' ?_, other '\t' ?_⟩, other '\r' ?_⟩, other '\n' ?_⟩ <;> decide

theorem isDigit_of_startsWord (starts : startsWord c = true) : isDigit c = false := by
  have zero : ('0' : Char).val.toNat = 48 := rfl
  have nine : ('9' : Char).val.toNat = 57 := rfl
  have lower : ('a' : Char).val.toNat = 97 := rfl
  have upper : ('A' : Char).val.toNat = 65 := rfl
  simp only [startsWord, isDigit, Bool.or_eq_true, Bool.and_eq_true, decide_eq_true_eq,
    beq_iff_eq, Char.le_def, UInt32.le_iff_toNat_le, Bool.and_eq_false_iff,
    decide_eq_false_iff_not] at starts ⊢
  rcases starts with (isLower | isUpper) | isUnderscore
  · right
    omega
  · right
    omega
  · right
    rw [isUnderscore]
    decide

theorem isLonePunctuation_of_startsWord (starts : startsWord c = true) :
    isLonePunctuation c = false := by
  cases lone : isLonePunctuation c with
  | false => rfl
  | true =>
      simp only [isLonePunctuation, Bool.or_eq_true, beq_iff_eq] at lone
      rcases lone with (((((((((same | same) | same) | same) | same) | same) | same) | same) |
        same) | same) | same <;> exact absurd same (ne_of_startsWord starts (by decide))

theorem mayTakeEqual_of_startsWord (starts : startsWord c = true) : mayTakeEqual c = false := by
  have other (d : Char) : startsWord d = false → c ≠ d := ne_of_startsWord starts
  simp only [mayTakeEqual, Bool.or_eq_false_iff, beq_eq_false_iff_ne]
  refine ⟨⟨⟨other '!' ?_, other '=' ?_⟩, other '<' ?_⟩, other '>' ?_⟩ <;> decide

end Characters

section Tests

variable {test : Char → Bool}

theorem blind_of_constant {answer : Bool} (same : ∀ c, startsWord c = true → test c = answer) :
    BlindToWords test := by
  intro c d cStarts dStarts
  rw [same c cStarts, same d dStarts]

theorem blind_isBlank : BlindToWords isBlank :=
  blind_of_constant fun _ => isBlank_of_startsWord

theorem blind_isDigit : BlindToWords isDigit :=
  blind_of_constant fun _ => isDigit_of_startsWord

theorem blind_continuesWord : BlindToWords continuesWord :=
  blind_of_constant fun c starts => by
    show (startsWord c || isDigit c) = true
    rw [starts, Bool.true_or]

theorem blind_beq {mark : Char} (other : startsWord mark = false) : BlindToWords (· == mark) :=
  blind_of_constant fun _ starts => beq_eq_false_iff_ne.2 (ne_of_startsWord starts other)

theorem blind_bne {mark : Char} (other : startsWord mark = false) : BlindToWords (· != mark) :=
  blind_of_constant fun _ starts => bne_iff_ne.2 (ne_of_startsWord starts other)

end Tests

namespace LookAlike

variable {after other more : List Char} {test : Char → Bool}

theorem eq_nil (alike : LookAlike after other) (nothing : after = []) : other = [] := by
  have same := alike.head (fun _ => true) fun _ _ _ _ => rfl
  rw [nothing] at same
  simpa using same

theorem head_eq (alike : LookAlike after other) {mark : Char} (isMark : startsWord mark = false) :
    other.head? = some mark ↔ after.head? = some mark := by
  have same := alike.head (· == mark) (blind_beq isMark)
  cases after <;> cases other <;> simp_all

/-- What goes as far as a test allows goes as far in a text that looks alike. -/
theorem takeWhile_eq (alike : LookAlike after other) (blind : BlindToWords test)
    (whole : (more ++ after).takeWhile test = more) : (more ++ other).takeWhile test = more := by
  induction more with
  | nil =>
      have same := alike.head test blind
      cases after <;> cases other <;> simp_all [List.takeWhile_cons]
  | cons c more induction =>
      rw [List.cons_append, List.takeWhile_cons] at whole ⊢
      split at whole
      · rename_i passes
        rw [if_pos passes, induction (List.cons.inj whole).2]
      · cases whole

end LookAlike

section First

variable {c : Char} {more after other : List Char} {kind : LexemeKind}

theorem fraction_eq_nil (text : List Char) : fraction text = [] ↔ beginsFraction text = false := by
  unfold fraction beginsFraction
  split <;> simp_all

theorem takeWhile_of_stop {test : Char → Bool} {inner : List Char} {stop : Char}
    (passes : ∀ c ∈ inner, test c = true) (stops : test stop = false) (rest : List Char) :
    (inner ++ stop :: rest).takeWhile test = inner := by
  rw [List.takeWhile_append_of_pos passes, List.takeWhile_cons, stops]
  simp

theorem dropWhile_of_stop {test : Char → Bool} {inner : List Char} {stop : Char}
    (passes : ∀ c ∈ inner, test c = true) (stops : test stop = false) (rest : List Char) :
    (inner ++ stop :: rest).dropWhile test = stop :: rest := by
  rw [List.dropWhile_append_of_pos passes, List.dropWhile_cons, stops]
  simp

theorem passes_of_mem_takeWhile {test : Char → Bool} {text : List Char} :
    ∀ c ∈ text.takeWhile test, test c = true := by
  intro c member
  exact List.all_eq_true.1 List.all_takeWhile c member

theorem number_alike (alike : LookAlike after other)
    (whole : (more ++ after).takeWhile isDigit ++
      fraction ((more ++ after).dropWhile isDigit) = more) :
    (more ++ other).takeWhile isDigit ++ fraction ((more ++ other).dropWhile isDigit) = more := by
  have split := List.takeWhile_append_dropWhile (p := isDigit) (l := more ++ after)
  generalize (more ++ after).dropWhile isDigit = rest at whole split
  cases pointed : beginsFraction rest with
  | false =>
      rw [(fraction_eq_nil rest).2 pointed, List.append_nil] at whole
      rw [whole, List.append_cancel_left_eq] at split
      have reached := alike.takeWhile_eq blind_isDigit whole
      have otherSplit := List.takeWhile_append_dropWhile (p := isDigit) (l := more ++ other)
      rw [reached, List.append_cancel_left_eq] at otherSplit
      rw [split, ← alike.fraction, ← fraction_eq_nil] at pointed
      rw [reached, otherSplit, pointed, List.append_nil]
  | true =>
      unfold beginsFraction at pointed
      split at pointed
      · rename_i d tail
        have fractionEq : fraction ('.' :: d :: tail) = '.' :: d :: tail.takeWhile isDigit := by
          simp [fraction, pointed]
        rw [fractionEq] at whole
        have digits : ∀ c ∈ (more ++ after).takeWhile isDigit, isDigit c = true :=
          passes_of_mem_takeWhile
        generalize (more ++ after).takeWhile isDigit = integer at whole split digits
        subst whole
        have tailEq : tail = tail.takeWhile isDigit ++ after := by simpa using split
        have reached : (tail.takeWhile isDigit ++ after).takeWhile isDigit =
            tail.takeWhile isDigit := by
          rw [← tailEq]
        have otherReached := alike.takeWhile_eq blind_isDigit reached
        rw [List.append_assoc, List.cons_append, List.cons_append,
          takeWhile_of_stop digits (by decide), dropWhile_of_stop digits (by decide)]
        simp [fraction, pointed, otherReached]
      · cases pointed

/-- A text in quotes is closed in both texts or in neither. -/
theorem quoted_alike (alike : LookAlike after other)
    (found : (if ((more ++ after).dropWhile (· != '"')).isEmpty
      then ⟨.openText, c :: (more ++ after).takeWhile (· != '"')⟩
      else ⟨.text, c :: ((more ++ after).takeWhile (· != '"') ++ ['"'])⟩ : Lexeme) =
        ⟨kind, c :: more⟩) :
    (if ((more ++ other).dropWhile (· != '"')).isEmpty
      then ⟨.openText, c :: (more ++ other).takeWhile (· != '"')⟩
      else ⟨.text, c :: ((more ++ other).takeWhile (· != '"') ++ ['"'])⟩ : Lexeme) =
        ⟨kind, c :: more⟩ := by
  have split := List.takeWhile_append_dropWhile (p := (· != '"')) (l := more ++ after)
  split at found
  · rename_i unclosed
    simp only [Lexeme.mk.injEq, List.cons.injEq, true_and] at found
    rw [List.isEmpty_iff.1 unclosed, found.2, List.append_nil] at split
    have nothing : after = [] := by simpa using split
    rw [alike.eq_nil nothing, ← nothing, if_pos unclosed, found.2, found.1]
  · simp only [Lexeme.mk.injEq, List.cons.injEq, true_and] at found
    have passes : ∀ c ∈ (more ++ after).takeWhile (· != '"'), (c != '"') = true :=
      passes_of_mem_takeWhile
    generalize (more ++ after).takeWhile (· != '"') = inner at found passes
    obtain ⟨rfl, rfl⟩ := found
    rw [List.append_assoc, List.singleton_append, takeWhile_of_stop passes (by decide),
      dropWhile_of_stop passes (by decide)]
    rfl

/-- A lexeme is found as well before a text that looks alike. -/
theorem first_alike (alike : LookAlike after other)
    (found : first c (more ++ after) = ⟨kind, c :: more⟩) :
    first c (more ++ other) = ⟨kind, c :: more⟩ := by
  have sameHead {mark : Char} (isMark : startsWord mark = false) :
      (more ++ other).head? = some mark ↔ (more ++ after).head? = some mark := by
    cases more with
    | nil => exact alike.head_eq isMark
    | cons next rest => rfl
  have comment : (c = '/' ∧ (more ++ other).head? = some '/') ↔
      (c = '/' ∧ (more ++ after).head? = some '/') := and_congr_right fun _ => sameHead (by decide)
  -- The tests of `first` come out the same before both texts.  In each case it is left to show
  -- that the lexeme goes as far before the one as before the other.
  unfold first at found ⊢
  split at found
  · rename_i blank
    rw [if_pos blank]
    simp only [Lexeme.mk.injEq, List.cons.injEq, true_and] at found ⊢
    exact ⟨found.1, alike.takeWhile_eq blind_isBlank found.2⟩
  rename_i notBlank
  rw [if_neg notBlank]
  split at found
  · rename_i slashes
    rw [if_pos (comment.2 slashes)]
    simp only [Lexeme.mk.injEq, List.cons.injEq, true_and] at found ⊢
    exact ⟨found.1, alike.takeWhile_eq (blind_bne (by decide)) found.2⟩
  rename_i noComment
  rw [if_neg (mt comment.1 noComment)]
  split at found
  · rename_i alone
    rw [if_pos alone]
    exact found
  rename_i notAlone
  rw [if_neg notAlone]
  split at found
  · rename_i mayTake
    rw [if_pos mayTake, if_congr (sameHead (by decide)) rfl rfl]
    exact found
  rename_i mayNotTake
  rw [if_neg mayNotTake]
  split at found
  · rename_i digit
    rw [if_pos digit]
    simp only [Lexeme.mk.injEq, List.cons.injEq, true_and] at found ⊢
    exact ⟨found.1, number_alike alike found.2⟩
  rename_i notDigit
  rw [if_neg notDigit]
  split at found
  · rename_i quote
    rw [if_pos quote]
    exact quoted_alike alike found
  rename_i noQuote
  rw [if_neg noQuote]
  split at found
  · rename_i starts
    rw [if_pos starts]
    simp only [Lexeme.mk.injEq, List.cons.injEq, true_and] at found ⊢
    exact ⟨found.1, alike.takeWhile_eq blind_continuesWord found.2⟩
  · rename_i notStarts
    rw [if_neg notStarts]
    exact found

theorem first_word (starts : startsWord c = true) (text : List Char) :
    first c text = ⟨.word, c :: text.takeWhile continuesWord⟩ := by
  have noComment : ¬(c = '/' ∧ text.head? = some '/') :=
    fun slashes => ne_of_startsWord starts (by decide) slashes.1
  unfold first
  rw [isBlank_of_startsWord starts, if_neg Bool.false_ne_true, if_neg noComment,
    isLonePunctuation_of_startsWord starts, if_neg Bool.false_ne_true,
    mayTakeEqual_of_startsWord starts, if_neg Bool.false_ne_true, isDigit_of_startsWord starts,
    if_neg Bool.false_ne_true, if_neg (ne_of_startsWord starts (by decide)), if_pos starts]

theorem startsWord_of_first {text chars : List Char} (found : first c text = ⟨.word, chars⟩) :
    startsWord c = true := by
  unfold first at found
  split at found
  · cases found
  split at found
  · cases found
  split at found
  · cases found
  split at found
  · cases found
  split at found
  · cases found
  split at found
  · dsimp only at found
    split at found <;> cases found
  split at found
  · assumption
  · cases found

end First

/-- The characters make up a word. -/
def IsWord (chars : List Char) : Prop :=
  ∃ c more, chars = c :: more ∧ startsWord c = true ∧ ∀ d ∈ more, continuesWord d = true

theorem IsWord.count_newline {chars : List Char} (isWord : IsWord chars) :
    chars.count '\n' = 0 := by
  obtain ⟨c, more, rfl, starts, continues⟩ := isWord
  rw [List.count_eq_zero]
  intro member
  rcases List.mem_cons.1 member with same | later
  · exact ne_of_startsWord starts (by decide) same.symm
  · exact absurd (continues '\n' later) (by decide)

/-- The lexeme is the same, or both are words. -/
def Respelled (lexeme other : Lexeme) : Prop :=
  other = lexeme ∨ lexeme.kind = .word ∧ other.kind = .word ∧ IsWord other.chars

theorem beginsFraction_eq (c : Char) (text : List Char) :
    beginsFraction (c :: text) = (c == '.' && text.head?.map isDigit == some true) := by
  cases text with
  | nil => simp [beginsFraction]
  | cons d rest =>
      by_cases point : c = '.'
      · simp [beginsFraction, point]
      · have neither : beginsFraction (c :: d :: rest) = false := by
          unfold beginsFraction
          split
          · rename_i same
            cases same
            exact absurd rfl point
          · rfl
        simp [neither, point]

theorem isWord_of_first {c : Char} {more after : List Char}
    (found : first c (more ++ after) = ⟨.word, c :: more⟩) : IsWord (c :: more) := by
  have starts := startsWord_of_first found
  rw [first_word starts] at found
  simp only [Lexeme.mk.injEq, List.cons.injEq, true_and] at found
  refine ⟨c, more, rfl, starts, ?_⟩
  intro d member
  rw [← found] at member
  exact passes_of_mem_takeWhile d member

/-- No word goes on in a text that looks like one before which a word has ended. -/
theorem LookAlike.ends_word {c : Char} {more after other : List Char}
    (alike : LookAlike after other) (found : first c (more ++ after) = ⟨.word, c :: more⟩) :
    other.takeWhile continuesWord = [] := by
  obtain ⟨_, _, same, starts, passes⟩ := isWord_of_first found
  cases same
  rw [first_word starts] at found
  simp only [Lexeme.mk.injEq, List.cons.injEq, true_and] at found
  rw [List.takeWhile_append_of_pos passes, List.append_right_eq_self] at found
  have ended : ([] ++ after).takeWhile continuesWord = [] := found
  exact alike.takeWhile_eq blind_continuesWord ended

variable {lexemes others : List Lexeme}

theorem Sequence.chars_ne_nil (sequence : Sequence lexemes) :
    ∀ lexeme ∈ lexemes, lexeme.chars ≠ [] := by
  induction sequence with
  | nil => simp
  | cons _ _ induction => exact List.forall_mem_cons.2 ⟨List.cons_ne_nil _ _, induction⟩

theorem Sequence.isWord (sequence : Sequence lexemes) :
    ∀ lexeme ∈ lexemes, lexeme.kind = .word → IsWord lexeme.chars := by
  induction sequence with
  | nil => simp
  | cons found _ induction =>
      refine List.forall_mem_cons.2 ⟨?_, induction⟩
      intro isWord
      dsimp only at isWord
      subst isWord
      exact isWord_of_first found

theorem Sequence.kind_of_startsWord (sequence : Sequence lexemes) :
    ∀ lexeme ∈ lexemes, ∀ c ∈ lexeme.chars.head?, startsWord c = true → lexeme.kind = .word := by
  induction sequence with
  | nil => simp
  | @cons d more kind rest found _ induction =>
      refine List.forall_mem_cons.2 ⟨?_, induction⟩
      intro c begins starts
      cases begins
      rw [first_word starts] at found
      exact (congrArg Lexeme.kind found).symm

/-- What goes before respelled lexemes sees no difference. -/
theorem Sequence.lookAlike (sequence : Sequence lexemes)
    (respelled : List.Forall₂ Respelled lexemes others) :
    LookAlike (lexemes.flatMap chars) (others.flatMap chars) := by
  induction sequence generalizing others with
  | nil =>
      cases respelled
      exact ⟨fun _ _ => rfl, rfl⟩
  | @cons c more kind rest found _ induction =>
      cases respelled with
      | @cons _ other _ restOther same restSame =>
          have alike := induction restSame
          rcases same with rfl | ⟨isWord, _, d, moreOther, begins, starts, _⟩
          · refine ⟨fun _ _ => rfl, ?_⟩
            simp only [List.flatMap_cons, List.cons_append, beginsFraction_eq]
            cases more with
            | nil =>
                simp only [List.nil_append]
                rw [alike.head isDigit blind_isDigit]
            | cons next more => rfl
          · dsimp only at isWord
            subst isWord
            have startsFirst := startsWord_of_first found
            simp only [List.flatMap_cons, begins, List.cons_append]
            constructor
            · intro test blind
              simp [blind d c starts startsFirst]
            · rw [beginsFraction_eq, beginsFraction_eq,
                beq_eq_false_iff_ne.2 (ne_of_startsWord starts (by decide)),
                beq_eq_false_iff_ne.2 (ne_of_startsWord startsFirst (by decide)), Bool.false_and,
                Bool.false_and]

/-- Respelled lexemes are found in the text that they make up. -/
theorem Sequence.respelled (sequence : Sequence lexemes)
    (respelled : List.Forall₂ Respelled lexemes others) : Sequence others := by
  induction sequence generalizing others with
  | nil =>
      cases respelled
      exact .nil
  | @cons c more kind rest found restSequence induction =>
      cases respelled with
      | @cons _ other _ restOther same restSame =>
          have alike := restSequence.lookAlike restSame
          rcases same with rfl | ⟨isWord, isWordOther, d, moreOther, begins, starts, continues⟩
          · exact .cons (first_alike alike found) (induction restSame)
          · obtain ⟨kindOther, charsOther⟩ := other
            dsimp only at isWord isWordOther begins
            subst isWord isWordOther begins
            refine .cons ?_ (induction restSame)
            rw [first_word starts, List.takeWhile_append_of_pos continues,
              alike.ends_word found, List.append_nil]

end LoxLang.Lexeme
