import LoxLang.Proofs.Decimal.Doubles
import LoxLang.Proofs.Decimal.Numerals

/-!
# The text of a number

A finite number is written with the decimal that was chosen for its magnitude, after a minus sign
if it has the sign bit.  A program prints it as a plain numeral: digits, and perhaps a point and
digits that do not end in a zero.  The numeral is read as the magnitude.
-/

namespace LoxLang.Decimal

/-- The decimal that is written for a finite magnitude. -/
def decimalOf (pattern : Nat) : Decimal := if pattern = 0 then ⟨0, 0⟩ else shortest pattern

/-- The sign of a double as it is written. -/
def signOf (x : Float) : List Char := if isSigned x then ['-'] else []

variable {wanted : Nat} (finite : wanted < infinityPattern)

include finite

theorem pattern_decimalOf : pattern (decimalOf wanted) = wanted := by
  unfold decimalOf
  split
  · rename_i zero
    rw [zero]
    exact pattern_eq_zero rfl
  · rename_i nonzero
    exact pattern_shortest (Nat.pos_of_ne_zero nonzero) finite

/-- A decimal that is written without trailing zeros has none unless it is zero. -/
theorem decimalOf_last : (decimalOf wanted).digits % 10 ≠ 0 ∨ 0 ≤ (decimalOf wanted).exponent := by
  unfold decimalOf
  split
  · exact .inr le_rfl
  · rename_i nonzero
    exact .inl (digits_shortest_mod (Nat.pos_of_ne_zero nonzero) finite)

theorem magnitude_eq (layout : Layout) :
    layout.magnitude wanted = layout.decimal (decimalOf wanted) := by
  unfold Layout.magnitude decimalOf
  rw [if_neg (by omega), if_neg (by omega)]
  split <;> rfl

omit finite

theorem number_eq (layout : Layout) {x : Float} (finite : x.isFinite = true) :
    layout.number x = signOf x ++ layout.decimal (decimalOf (patternOf x)) := by
  have below := (isFinite_iff x).1 finite
  have text : layout.number x = if signBit ≤ x.toBits.toNat ∧ patternOf x ≤ infinityPattern then
      '-' :: layout.magnitude (patternOf x) else layout.magnitude (patternOf x) := rfl
  rw [text, magnitude_eq below, signOf, isSigned]
  by_cases signed : signBit ≤ x.toBits.toNat
  · rw [if_pos ⟨signed, below.le⟩, if_pos (decide_eq_true signed), List.singleton_append]
  · rw [if_neg (signed ·.1), if_neg (by simpa using signed), List.nil_append]

/-! ## Plain numerals -/

/-- Digits, and perhaps a point and digits that do not end in a zero. -/
inductive PlainNumeral : List Char → Prop where
  | whole {digits : List Char} (nonempty : digits ≠ [])
      (areDigits : ∀ c ∈ digits, Lexeme.isDigit c = true) : PlainNumeral digits
  | pointed {digits part : List Char} (nonempty : digits ≠ [])
      (areDigits : ∀ c ∈ digits, Lexeme.isDigit c = true) (partNonempty : part ≠ [])
      (partDigits : ∀ c ∈ part, Lexeme.isDigit c = true) (last : part.getLast? ≠ some '0') :
      PlainNumeral (digits ++ '.' :: part)

/-- A decimal without trailing zeros after the point is printed as a plain numeral. -/
theorem plainNumeral_decimal {d : Decimal} (last : d.digits % 10 ≠ 0 ∨ 0 ≤ d.exponent) :
    PlainNumeral (Layout.printed.decimal d) := by
  show PlainNumeral (Layout.printed.positionally d)
  by_cases whole : 0 ≤ d.exponent
  · rw [positionally_of_nonneg Layout.printed whole]
    refine .whole ?_ ?_
    · simp [wholeDigits, digitsOf_ne_nil]
    · intro c mem
      exact isDigit_of_mem_wholeDigits (by simpa [Layout.printed] using mem)
  · obtain ⟨whole, part, laidOut, split⟩ :=
      positionally_of_negative Layout.printed (not_le.1 whole)
    rw [laidOut]
    have noZero : part.getLast? ≠ some '0' := by
      rw [split.last]
      exact getLast?_digitsOf_ne (last.resolve_right ‹_›)
    refine .pointed split.whole_ne_nil split.whole_digits ?_ split.part_digits noZero
    rintro rfl
    have length := split.part_length
    simp only [List.length_nil] at length
    omega

theorem PlainNumeral.isDigit_or {numeral : List Char} (plain : PlainNumeral numeral) {c : Char}
    (member : c ∈ numeral) : Lexeme.isDigit c = true ∨ c = '.' := by
  cases plain with
  | whole _ areDigits => exact .inl (areDigits c member)
  | pointed _ areDigits _ partDigits _ =>
      rcases List.mem_append.1 member with digit | later
      · exact .inl (areDigits c digit)
      · rcases List.mem_cons.1 later with point | digit
        · exact .inr point
        · exact .inl (partDigits c digit)

/-- A plain numeral is a lexeme if neither a digit nor a point follows it. -/
theorem PlainNumeral.taken {numeral after : List Char} (plain : PlainNumeral numeral)
    (ends : Lexeme.Stops Lexeme.isDigit after) (noPoint : after.head? ≠ some '.') :
    Lexeme.Taken ⟨.number, numeral⟩ after := by
  cases plain with
  | whole nonempty areDigits =>
      obtain ⟨c, more, rfl⟩ := List.exists_cons_of_ne_nil nonempty
      obtain ⟨digit, digits⟩ := List.forall_mem_cons.1 areDigits
      have noFraction : Lexeme.beginsFraction after = false := by
        unfold Lexeme.beginsFraction
        split
        · exact absurd rfl noPoint
        · rfl
      exact .whole digit digits ends noFraction
  | pointed nonempty areDigits partNonempty partDigits _ =>
      obtain ⟨c, more, rfl⟩ := List.exists_cons_of_ne_nil nonempty
      obtain ⟨d, part, rfl⟩ := List.exists_cons_of_ne_nil partNonempty
      obtain ⟨digit, digits⟩ := List.forall_mem_cons.1 areDigits
      obtain ⟨partDigit, partDigits⟩ := List.forall_mem_cons.1 partDigits
      exact .fraction digit digits partDigit partDigits ends

/-! ## Reading the text -/

/-- The numeral of a finite magnitude is read as the magnitude. -/
theorem toFloat_ofNumeral (finite : wanted < infinityPattern) :
    (ofNumeral (Layout.printed.decimal (decimalOf wanted))).toFloat =
      Float.ofBits wanted.toUInt64 := by
  have same : pattern (ofNumeral (Layout.printed.positionally (decimalOf wanted))) = wanted := by
    rw [pattern_congr (value_ofNumeral_positionally Layout.printed (decimalOf wanted)),
      pattern_decimalOf finite]
  show Float.ofBits (pattern (ofNumeral (Layout.printed.positionally _))).toUInt64 = _
  rw [same]

/-- A finite number denotes the same in every layout. -/
theorem denoted_number (layout : Layout) {x : Float} (finite : x.isFinite = true) :
    denoted (layout.number x) =
      if isSigned x then -(decimalOf (patternOf x)).value else (decimalOf (patternOf x)).value := by
  rw [number_eq layout finite, signOf]
  split
  · rw [List.singleton_append, denoted, denotedUnsigned_decimal]
  · rw [List.nil_append, denoted_decimal]

end LoxLang.Decimal
