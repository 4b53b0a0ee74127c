import LoxLang.Decimal.Layout
import LoxLang.Proofs.Lexicon.Taking
import LoxLang.Proofs.Decimal.ReadingBack

/-!
# What numerals denote

A decimal denotes the same number however it is laid out: positionally, with or without a point
and a zero, or with an exponent.  A decimal without trailing zeros that is laid out positionally
is digits, and perhaps a point and digits that do not end in a zero.
-/

namespace LoxLang.Decimal

/-! ## Digits -/

theorem readDigits_eq_ofDigitChars (value : Nat) (chars : List Char) :
    readDigits value chars = Nat.ofDigitChars 10 chars value := by
  induction chars generalizing value with
  | nil => rfl
  | cons c rest induction => exact induction (10 * value + digitValue c)

theorem readDigits_append (value : Nat) (chars more : List Char) :
    readDigits value (chars ++ more) = readDigits (readDigits value chars) more := by
  simp only [readDigits_eq_ofDigitChars, Nat.ofDigitChars_append]

theorem readDigits_replicate (value count : Nat) :
    readDigits value (List.replicate count '0') = 10 ^ count * value := by
  rw [readDigits_eq_ofDigitChars, Nat.ofDigitChars_replicate_zero]

theorem readDigits_zero (value : Nat) : readDigits value ['0'] = 10 * value := by
  rw [← List.replicate_one, readDigits_replicate, Nat.pow_one]

theorem readDigits_digitsOf (n : Nat) : readDigits 0 (digitsOf n) = n := by
  rw [readDigits_eq_ofDigitChars]
  exact Nat.ofDigitChars_ten_toDigits

theorem isDigit_of_mem_digitsOf {n : Nat} {c : Char} (mem : c ∈ digitsOf n) :
    Lexeme.isDigit c = true :=
  Nat.isDigit_of_mem_toDigits (by decide) (by decide) mem

theorem digitsOf_ne_nil (n : Nat) : digitsOf n ≠ [] := Nat.toDigits_ne_nil

/-- The last digit stands for the remainder. -/
theorem getLast?_digitsOf (n : Nat) : (digitsOf n).getLast? = some (n % 10).digitChar := by
  rw [digitsOf, Nat.toDigits_eq_if (by decide)]
  split
  · rename_i less
    rw [Nat.mod_eq_of_lt less]
    rfl
  · rw [List.getLast?_append, List.getLast?_singleton, Option.some_or]

theorem getLast?_digitsOf_ne {n : Nat} (last : n % 10 ≠ 0) : (digitsOf n).getLast? ≠ some '0' := by
  rw [getLast?_digitsOf]
  have small : n % 10 < 10 := Nat.mod_lt n (by decide)
  generalize n % 10 = digit at last small
  revert last
  decide +revert

theorem not_mem_digitsOf {n : Nat} {c : Char} (other : Lexeme.isDigit c = false) :
    c ∉ digitsOf n := by
  intro mem
  rw [isDigit_of_mem_digitsOf mem] at other
  cases other

/-! ## Numerals -/

theorem ofNumeral_whole {whole : List Char} (noPoint : '.' ∉ whole) :
    ofNumeral whole = ⟨readDigits 0 whole, 0⟩ := by
  have passes := Lexeme.passes_of_not_mem noPoint
  have none : Lexeme.Stops (· != '.') [] := by simp [Lexeme.Stops]
  have taken := Lexeme.takeWhile_of_stops passes none
  have dropped := Lexeme.dropWhile_of_stops passes none
  rw [List.append_nil] at taken dropped
  simp [ofNumeral, taken, dropped]

theorem ofNumeral_point {whole : List Char} (noPoint : '.' ∉ whole) (part : List Char) :
    ofNumeral (whole ++ '.' :: part) = ⟨readDigits 0 (whole ++ part), -(part.length : Int)⟩ := by
  have passes := Lexeme.passes_of_not_mem noPoint
  have stops : Lexeme.Stops (· != '.') ('.' :: part) := by simp [Lexeme.Stops]
  simp [ofNumeral, Lexeme.takeWhile_of_stops passes stops, Lexeme.dropWhile_of_stops passes stops]

/-! ## Positional layout -/

/-- How a decimal with a negative exponent is split at the point: its digits stand after zeros, if
at all, and so many of them stand after the point as the exponent says. -/
structure SplitAtPoint (d : Decimal) (whole part : List Char) : Prop where
  whole_ne_nil : whole ≠ []
  whole_digits : ∀ c ∈ whole, Lexeme.isDigit c = true
  part_digits : ∀ c ∈ part, Lexeme.isDigit c = true
  part_length : (part.length : Int) = -d.exponent
  reads : readDigits 0 (whole ++ part) = d.digits
  last : part.getLast? = (digitsOf d.digits).getLast?

theorem SplitAtPoint.noPoint {d : Decimal} {whole part : List Char}
    (split : SplitAtPoint d whole part) : '.' ∉ whole :=
  fun mem => absurd (split.whole_digits '.' mem) (by decide)

theorem splitAtPoint_within {d : Decimal} {places : Nat}
    (negative : (places : Int) = (digitsOf d.digits).length + d.exponent) (some : 0 < places)
    (fewer : places < (digitsOf d.digits).length) :
    SplitAtPoint d ((digitsOf d.digits).take places) ((digitsOf d.digits).drop places) where
  whole_ne_nil := by simp [digitsOf_ne_nil, some.ne']
  whole_digits := fun _ mem => isDigit_of_mem_digitsOf (List.mem_of_mem_take mem)
  part_digits := fun _ mem => isDigit_of_mem_digitsOf (List.mem_of_mem_drop mem)
  part_length := by
    rw [List.length_drop]
    omega
  reads := by rw [List.take_append_drop, readDigits_digitsOf]
  last := by rw [List.getLast?_drop, if_neg (by omega)]

theorem splitAtPoint_before {d : Decimal} {zeros : Nat}
    (negative : (zeros : Int) = -((digitsOf d.digits).length + d.exponent)) :
    SplitAtPoint d ['0'] (List.replicate zeros '0' ++ digitsOf d.digits) where
  whole_ne_nil := List.cons_ne_nil _ _
  whole_digits := by simp; decide
  part_digits := by
    intro c mem
    rcases List.mem_append.1 mem with zero | digit
    · rw [List.eq_of_mem_replicate zero]
      decide
    · exact isDigit_of_mem_digitsOf digit
  part_length := by
    rw [List.length_append, List.length_replicate]
    omega
  reads := by
    rw [← List.append_assoc, ← List.replicate_one, ← List.replicate_add, readDigits_append,
      readDigits_replicate, Nat.mul_zero, readDigits_digitsOf]
  last := by rw [List.getLast?_append, getLast?_digitsOf, Option.some_or]

/-- A decimal with a negative exponent is laid out with a point. -/
theorem positionally_of_negative (layout : Layout) {d : Decimal} (negative : d.exponent < 0) :
    ∃ whole part, layout.positionally d = whole ++ '.' :: part ∧ SplitAtPoint d whole part := by
  unfold Layout.positionally
  rw [if_neg (by omega)]
  split
  · rename_i some
    exact ⟨_, _, rfl, splitAtPoint_within (by omega) (by omega) (by omega)⟩
  · rename_i none
    exact ⟨['0'], _, rfl, splitAtPoint_before (by omega)⟩

/-- The digits of a whole number, which all stand before the point. -/
def wholeDigits (d : Decimal) : List Char :=
  digitsOf d.digits ++ List.replicate d.exponent.toNat '0'

theorem isDigit_of_mem_wholeDigits {d : Decimal} {c : Char} (mem : c ∈ wholeDigits d) :
    Lexeme.isDigit c = true := by
  rcases List.mem_append.1 mem with digit | zero
  · exact isDigit_of_mem_digitsOf digit
  · rw [List.eq_of_mem_replicate zero]
    decide

theorem readDigits_wholeDigits {d : Decimal} (whole : 0 ≤ d.exponent) :
    (readDigits 0 (wholeDigits d) : ℚ) = d.value := by
  rw [wholeDigits, readDigits_append, readDigits_digitsOf, readDigits_replicate, value]
  conv_rhs => rw [← Int.toNat_of_nonneg whole, zpow_natCast]
  push_cast
  ring

/-- A decimal with no negative exponent is laid out without a point, or with one and a zero. -/
theorem positionally_of_nonneg (layout : Layout) {d : Decimal} (whole : 0 ≤ d.exponent) :
    layout.positionally d = wholeDigits d ++ if layout.pointZero then ['.', '0'] else [] :=
  if_pos whole

/-- A decimal that is laid out positionally is read with its value. -/
theorem value_ofNumeral_positionally (layout : Layout) (d : Decimal) :
    (ofNumeral (layout.positionally d)).value = d.value := by
  by_cases whole : 0 ≤ d.exponent
  · have noPoint : '.' ∉ wholeDigits d :=
      fun mem => absurd (isDigit_of_mem_wholeDigits mem) (by decide)
    rw [positionally_of_nonneg layout whole]
    split
    · rw [ofNumeral_point noPoint, readDigits_append, readDigits_zero,
        ← readDigits_wholeDigits whole]
      simp only [value, List.length_singleton, Nat.cast_mul, Nat.cast_ofNat, Nat.cast_one, zpow_neg,
        zpow_one]
      ring
    · rw [List.append_nil, ofNumeral_whole noPoint, ← readDigits_wholeDigits whole]
      simp [value]
  · obtain ⟨whole, part, laidOut, split⟩ := positionally_of_negative layout (not_le.1 whole)
    rw [laidOut, ofNumeral_point split.noPoint, split.reads, split.part_length, neg_neg]

/-! ## Exponents -/

/-- The power of ten that an exponent says: a sign and digits, or nothing for zero. -/
def readExponent : List Char → Int
  | 'e' :: '-' :: digits => -(readDigits 0 digits : Int)
  | 'e' :: '+' :: digits => readDigits 0 digits
  | _ => 0

/-- The number that a text without a sign denotes: a numeral, and perhaps an exponent. -/
def denotedUnsigned (text : List Char) : ℚ :=
  (ofNumeral (text.takeWhile (· != 'e'))).value * 10 ^ readExponent (text.dropWhile (· != 'e'))

/-- The number that a text denotes. -/
def denoted : List Char → ℚ
  | '-' :: text => -denotedUnsigned text
  | text => denotedUnsigned text

theorem denotedUnsigned_append {mantissa exponent : List Char} (noMark : 'e' ∉ mantissa)
    (stops : Lexeme.Stops (· != 'e') exponent) :
    denotedUnsigned (mantissa ++ exponent) =
      (ofNumeral mantissa).value * 10 ^ readExponent exponent := by
  have passes := Lexeme.passes_of_not_mem noMark
  rw [denotedUnsigned, Lexeme.takeWhile_of_stops passes stops,
    Lexeme.dropWhile_of_stops passes stops]

theorem denotedUnsigned_of_not_mem {text : List Char} (noMark : 'e' ∉ text) :
    denotedUnsigned text = (ofNumeral text).value := by
  have appended : denotedUnsigned (text ++ []) =
      (ofNumeral text).value * 10 ^ readExponent [] :=
    denotedUnsigned_append noMark (by simp [Lexeme.Stops])
  have none : readExponent [] = 0 := rfl
  rw [List.append_nil, none, zpow_zero, mul_one] at appended
  exact appended

theorem readExponent_exponentMark (exponent : Int) :
    readExponent (Layout.exponentMark exponent) = exponent := by
  have read : readDigits 0 (List.replicate (2 - (digitsOf exponent.natAbs).length) '0' ++
      digitsOf exponent.natAbs) = exponent.natAbs := by
    rw [readDigits_append, readDigits_replicate, Nat.mul_zero, readDigits_digitsOf]
  unfold Layout.exponentMark
  dsimp only
  split
  · rw [readExponent, read]
    omega
  · rw [readExponent, read]
    omega

theorem stops_exponentMark (exponent : Int) :
    Lexeme.Stops (· != 'e') (Layout.exponentMark exponent) := by
  simp [Layout.exponentMark, Lexeme.Stops]

theorem not_mem_positionally {layout : Layout} {d : Decimal} {c : Char}
    (other : Lexeme.isDigit c = false) (noPoint : c ≠ '.') : c ∉ layout.positionally d := by
  by_cases whole : 0 ≤ d.exponent
  · rw [positionally_of_nonneg layout whole, List.mem_append, not_or]
    refine ⟨fun mem => absurd (isDigit_of_mem_wholeDigits mem) (by simp [other]), ?_⟩
    split
    · rintro (_ | ⟨_, _ | ⟨_, none⟩⟩)
      · exact noPoint rfl
      · cases other
      · cases none
    · exact List.not_mem_nil
  · obtain ⟨whole, part, laidOut, split⟩ := positionally_of_negative layout (not_le.1 whole)
    rw [laidOut, List.mem_append, List.mem_cons]
    rintro (mem | same | mem)
    · exact absurd (split.whole_digits c mem) (by simp [other])
    · exact noPoint same
    · exact absurd (split.part_digits c mem) (by simp [other])

theorem value_mul_zpow (digits : Nat) (exponent power : Int) :
    (⟨digits, exponent⟩ : Decimal).value * 10 ^ power =
      (⟨digits, exponent + power⟩ : Decimal).value := by
  rw [value, value, zpow_add₀ (by norm_num), mul_assoc]

/-- A decimal with an exponent denotes its value: the exponent counts from the point, which stands
after the first digit. -/
theorem denotedUnsigned_withExponent (d : Decimal) :
    denotedUnsigned (Layout.withExponent d) = d.value := by
  obtain ⟨lead, rest, digits⟩ := List.exists_cons_of_ne_nil (digitsOf_ne_nil d.digits)
  have reads : readDigits 0 ([lead] ++ rest) = d.digits := by
    rw [List.singleton_append, ← digits, readDigits_digitsOf]
  have noPoint : '.' ∉ lead :: rest := digits ▸ not_mem_digitsOf (by decide)
  have noMark : 'e' ∉ lead :: rest := digits ▸ not_mem_digitsOf (by decide)
  unfold Layout.withExponent
  rw [digits]
  cases rest with
  | nil =>
      show denotedUnsigned ([lead] ++ Layout.exponentMark _) = d.value
      rw [List.append_nil] at reads
      rw [denotedUnsigned_append noMark (stops_exponentMark _), readExponent_exponentMark,
        ofNumeral_whole noPoint, reads, value_mul_zpow]
      congr 2
      simp only [List.length_singleton]
      omega
  | cons next rest =>
      show denotedUnsigned (([lead] ++ '.' :: next :: rest) ++ Layout.exponentMark _) = d.value
      have noMark : 'e' ∉ [lead] ++ '.' :: next :: rest := by simpa using noMark
      have noPoint : '.' ∉ [lead] := fun mem => noPoint (List.mem_append_left _ mem)
      rw [denotedUnsigned_append noMark (stops_exponentMark _), readExponent_exponentMark,
        ofNumeral_point noPoint, reads, value_mul_zpow]
      congr 2
      simp only [List.length_cons]
      omega

/-- A decimal denotes its value in every layout. -/
theorem denotedUnsigned_decimal (layout : Layout) (d : Decimal) :
    denotedUnsigned (layout.decimal d) = d.value := by
  unfold Layout.decimal
  dsimp only
  split
  · rw [denotedUnsigned_of_not_mem (not_mem_positionally (by decide) (by decide)),
      value_ofNumeral_positionally]
  · exact denotedUnsigned_withExponent d

/-- A decimal begins with a digit in every layout. -/
theorem decimal_begins (layout : Layout) (d : Decimal) :
    ∃ c rest, layout.decimal d = c :: rest ∧ Lexeme.isDigit c = true := by
  obtain ⟨lead, others, digits⟩ := List.exists_cons_of_ne_nil (digitsOf_ne_nil d.digits)
  have isDigit : Lexeme.isDigit lead = true :=
    isDigit_of_mem_digitsOf (digits ▸ List.mem_cons_self)
  unfold Layout.decimal
  dsimp only
  split
  · by_cases whole : 0 ≤ d.exponent
    · rw [positionally_of_nonneg layout whole, wholeDigits, digits]
      exact ⟨lead, _, rfl, isDigit⟩
    · obtain ⟨whole, part, laidOut, split⟩ := positionally_of_negative layout (not_le.1 whole)
      obtain ⟨c, more, rfl⟩ := List.exists_cons_of_ne_nil split.whole_ne_nil
      exact ⟨c, _, laidOut, split.whole_digits c List.mem_cons_self⟩
  · unfold Layout.withExponent
    rw [digits]
    cases others with
    | nil => exact ⟨lead, _, rfl, isDigit⟩
    | cons next rest => exact ⟨lead, _, rfl, isDigit⟩

theorem denoted_decimal (layout : Layout) (d : Decimal) : denoted (layout.decimal d) = d.value := by
  obtain ⟨c, rest, begins, isDigit⟩ := decimal_begins layout d
  have unsigned : denoted (c :: rest) = denotedUnsigned (c :: rest) := by
    rw [denoted]
    rintro _ ⟨rfl, -⟩
    cases isDigit
  rw [begins, unsigned, ← begins, denotedUnsigned_decimal]

end LoxLang.Decimal
