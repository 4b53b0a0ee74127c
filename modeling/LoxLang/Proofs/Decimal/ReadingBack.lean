import LoxLang.Decimal.Shortest
import LoxLang.Proofs.Decimal.Rounding

/-!
# The shortest decimal reads back

The decimals with seventeen digits lie so close to each other that one of the two neighbours of a
magnitude is rounded to it.  So the search for the shortest decimal never falls back on the exact
value, what it finds has at most eighteen digits, and all its trailing zeros can be dropped.
-/

namespace LoxLang.Decimal

/-! ## Powers of ten -/

theorem lt_pow_length_digitsOf (n : Nat) : n < 10 ^ (digitsOf n).length :=
  (Nat.length_toDigits_le_iff (by decide) Nat.length_toDigits_pos).1 le_rfl

theorem pow_length_digitsOf_le {n : Nat} (positive : 0 < n) :
    10 ^ ((digitsOf n).length - 1) ≤ n := by
  by_contra less
  have some : 0 < (digitsOf n).length := Nat.length_toDigits_pos
  rcases Nat.eq_zero_or_pos ((digitsOf n).length - 1) with none | more
  · rw [none] at less
    omega
  · have shorter : (digitsOf n).length ≤ (digitsOf n).length - 1 :=
      (Nat.length_toDigits_le_iff (by decide) more).2 (Nat.lt_of_not_le less)
    omega

theorem unitsInOne_pos : 0 < unitsInOne := by decide +kernel

theorem unitsInOne_le : unitsInOne ≤ 10 ^ wholePlaces := by decide +kernel

/-- The magnitude of so many units. -/
def magnitudeOf (units : Nat) : ℚ := units / unitsInOne

/-- A decimal is compared with a magnitude by multiplying crosswise. -/
theorem mul_zpow_le_magnitudeOf_iff (digits units up down : Nat) :
    digits * (10 : ℚ) ^ ((up : Int) - down) ≤ magnitudeOf units ↔
      digits * (unitsInOne * 10 ^ up) ≤ units * 10 ^ down := by
  have positive : (0 : ℚ) < unitsInOne := by exact_mod_cast unitsInOne_pos
  rw [magnitudeOf, zpow_sub₀ (by norm_num), zpow_natCast, zpow_natCast, ← mul_div_assoc,
    div_le_div_iff₀ (by positivity) positive, ← @Nat.cast_le ℚ]
  push_cast
  rw [mul_assoc, mul_comm ((10 : ℚ) ^ up)]

theorem zpow_le_magnitudeOf_iff (units up down : Nat) :
    (10 : ℚ) ^ ((up : Int) - down) ≤ magnitudeOf units ↔
      10 ^ up * unitsInOne ≤ units * 10 ^ down := by
  have one := mul_zpow_le_magnitudeOf_iff 1 units up down
  rw [Nat.cast_one, one_mul, Nat.one_mul, Nat.mul_comm] at one
  exact one

/-! ## The scale -/

/-- The whole part of a magnitude after multiplication by the power of ten. -/
def wholePart (units : Nat) : Nat := units * 10 ^ wholePlaces / unitsInOne

theorem scale_eq (units : Nat) :
    scale units = ((digitsOf (wholePart units)).length : Int) - wholePlaces := by
  rw [scale, wholePart, Nat.pow_eq]

theorem wholePart_pos {units : Nat} (positive : 0 < units) : 0 < wholePart units :=
  Nat.div_pos (unitsInOne_le.trans (Nat.le_mul_of_pos_left _ positive)) unitsInOne_pos

/-- The scale of a magnitude tells the power of ten of its leading digit. -/
theorem zpow_scale_le {units : Nat} (positive : 0 < units) :
    (10 : ℚ) ^ (scale units - 1) ≤ magnitudeOf units := by
  have some : 1 ≤ (digitsOf (wholePart units)).length := Nat.length_toDigits_pos
  have exponent :
      scale units - 1 = (((digitsOf (wholePart units)).length - 1 : ℕ) : Int) - wholePlaces := by
    rw [scale_eq, Nat.cast_sub some, Nat.cast_one, sub_right_comm]
  rw [exponent, zpow_le_magnitudeOf_iff, ← Nat.le_div_iff_mul_le unitsInOne_pos]
  exact pow_length_digitsOf_le (wholePart_pos positive)

theorem magnitudeOf_lt_zpow_scale (units : Nat) : magnitudeOf units < 10 ^ scale units := by
  rw [← not_le, scale_eq, zpow_le_magnitudeOf_iff, ← Nat.le_div_iff_mul_le unitsInOne_pos, not_le]
  exact lt_pow_length_digitsOf (wholePart units)

/-! ## The two neighbours on a grid -/

theorem floorOn_eq (exponent : Int) (units : Nat) : floorOn exponent units =
    ⟨units * 10 ^ (-exponent).toNat / (unitsInOne * 10 ^ exponent.toNat), exponent⟩ := rfl

/-- The decimals on a grid that are not above a magnitude are those up to the lower neighbour. -/
theorem mul_zpow_le_iff_le_floorOn (digits : Nat) (exponent : Int) (units : Nat) :
    digits * (10 : ℚ) ^ exponent ≤ magnitudeOf units ↔
      digits ≤ (floorOn exponent units).digits := by
  have parts : exponent = (exponent.toNat : Int) - (-exponent).toNat := by omega
  have positive : 0 < unitsInOne * 10 ^ exponent.toNat :=
    Nat.mul_pos unitsInOne_pos (Nat.pow_pos (by decide))
  rw [floorOn_eq, Nat.le_div_iff_mul_le positive, ← mul_zpow_le_magnitudeOf_iff, ← parts]

theorem value_floorOn_le (exponent : Int) (units : Nat) :
    (floorOn exponent units).value ≤ magnitudeOf units :=
  (mul_zpow_le_iff_le_floorOn _ exponent units).2 le_rfl

theorem value_next (d : Decimal) : d.next.value = d.value + 10 ^ d.exponent := by
  simp only [next, value, Nat.cast_add, Nat.cast_one]
  ring

/-- The least decimal with the given exponent that is above the magnitude. -/
def nextOn (exponent : Int) (units : Nat) : Decimal := (floorOn exponent units).next

theorem value_nextOn (exponent : Int) (units : Nat) :
    (nextOn exponent units).value = (floorOn exponent units).value + 10 ^ exponent := by
  rw [nextOn, value_next, floorOn_eq]

theorem magnitudeOf_lt_value_nextOn (exponent : Int) (units : Nat) :
    magnitudeOf units < (nextOn exponent units).value := by
  by_contra less
  rw [not_lt, nextOn, next, value, floorOn_eq, mul_zpow_le_iff_le_floorOn, floorOn_eq] at less
  exact Nat.not_succ_le_self _ less

/-! ## Seventeen digits -/

theorem unitsOf_pos {wanted : Nat} (positive : 0 < wanted) : 0 < unitsOf wanted := by
  rcases unitsOf_cases wanted with ⟨-, same⟩ | ⟨shift, mantissa, least, -, -, same⟩
  · rw [same]
    exact positive
  · rw [same]
    exact Nat.mul_pos (by omega) (Nat.two_pow_pos _)

variable {wanted : Nat}

/-- What differs from a magnitude by no more than its part in `2 * 10 ^ 16` is rounded to it. -/
theorem pattern_eq_of_near {d : Decimal} (positive : 0 < wanted) (finite : wanted < infinityPattern)
    (near : |d.value - magnitudeOf (unitsOf wanted)| * (2 * 10 ^ 16) ≤
      magnitudeOf (unitsOf wanted)) :
    pattern d = wanted := by
  have one : (0 : ℚ) < unitsInOne := by exact_mod_cast unitsInOne_pos
  have some : (0 : ℚ) < unitsOf wanted := by exact_mod_cast unitsOf_pos positive
  have scaled : |d.value * unitsInOne - unitsOf wanted| =
      |d.value - magnitudeOf (unitsOf wanted)| * unitsInOne := by
    rw [← abs_of_pos one, ← abs_mul, abs_of_pos one, sub_mul, magnitudeOf,
      div_mul_cancel₀ _ one.ne']
  refine pattern_eq_of_close finite ?_
  rw [magnitudeOf, le_div_iff₀ one] at near
  rw [scaled]
  have less : |d.value - magnitudeOf (unitsOf wanted)| * unitsInOne * (2 * 10 ^ 16) ≤
      (unitsOf wanted : ℚ) := by
    rw [mul_right_comm]
    exact near
  linarith

/-- One of the two neighbours with seventeen digits is rounded to the magnitude. -/
theorem pattern_floorOn_or_nextOn (positive : 0 < wanted) (finite : wanted < infinityPattern) :
    pattern (floorOn (scale (unitsOf wanted) - 17) (unitsOf wanted)) = wanted ∨
      pattern (nextOn (scale (unitsOf wanted) - 17) (unitsOf wanted)) = wanted := by
  have above := value_floorOn_le (scale (unitsOf wanted) - 17) (unitsOf wanted)
  have below := magnitudeOf_lt_value_nextOn (scale (unitsOf wanted) - 17) (unitsOf wanted)
  have step := value_nextOn (scale (unitsOf wanted) - 17) (unitsOf wanted)
  have least := zpow_scale_le (unitsOf_pos positive)
  have gap : (10 : ℚ) ^ (scale (unitsOf wanted) - 17) * 10 ^ 16 =
      10 ^ (scale (unitsOf wanted) - 1) := by
    rw [← zpow_natCast, ← zpow_add₀ (by norm_num)]
    congr 1
    omega
  rcases le_total (2 * (magnitudeOf (unitsOf wanted) -
    (floorOn (scale (unitsOf wanted) - 17) (unitsOf wanted)).value))
    (10 ^ (scale (unitsOf wanted) - 17)) with near | near
  · refine .inl (pattern_eq_of_near positive finite ?_)
    rw [abs_sub_comm, abs_of_nonneg (by linarith)]
    linarith
  · refine .inr (pattern_eq_of_near positive finite ?_)
    rw [abs_of_nonneg (by linarith)]
    linarith

/-! ## The search -/

theorem nearerOf_eq_some {order : Ordering} {lower upper found : Decimal}
    {lowerReadsBack upperReadsBack : Bool}
    (hit : nearerOf order lower upper lowerReadsBack upperReadsBack = some found) :
    (found = lower ∧ lowerReadsBack = true) ∨ (found = upper ∧ upperReadsBack = true) := by
  revert hit
  cases lowerReadsBack <;> cases upperReadsBack <;> cases order <;> simp only [nearerOf] <;> grind

theorem nearerOf_eq_none {order : Ordering} {lower upper : Decimal}
    {lowerReadsBack upperReadsBack : Bool}
    (missed : nearerOf order lower upper lowerReadsBack upperReadsBack = none) :
    lowerReadsBack = false ∧ upperReadsBack = false := by
  revert missed
  cases lowerReadsBack <;> cases upperReadsBack <;> cases order <;> simp [nearerOf]

theorem readingBackOn_eq (exponent : Int) : readingBackOn exponent wanted =
    nearerOf (towardsNext (unitsOf wanted) (floorOn exponent (unitsOf wanted)))
      (floorOn exponent (unitsOf wanted)) (nextOn exponent (unitsOf wanted))
      (pattern (floorOn exponent (unitsOf wanted)) == wanted)
      (pattern (nextOn exponent (unitsOf wanted)) == wanted) := by
  rw [readingBackOn, nextOn]

/-- What is found on a grid reads back, and is one of the two neighbours. -/
theorem readingBackOn_eq_some {exponent : Int} {found : Decimal}
    (hit : readingBackOn exponent wanted = some found) :
    pattern found = wanted ∧ (found = floorOn exponent (unitsOf wanted) ∨
      found = nextOn exponent (unitsOf wanted)) := by
  rw [readingBackOn_eq] at hit
  rcases nearerOf_eq_some hit with ⟨same, reads⟩ | ⟨same, reads⟩
  · exact ⟨same ▸ beq_iff_eq.1 reads, .inl same⟩
  · exact ⟨same ▸ beq_iff_eq.1 reads, .inr same⟩

theorem readingBackOn_ne_none {exponent : Int}
    (hit : pattern (floorOn exponent (unitsOf wanted)) = wanted ∨
      pattern (nextOn exponent (unitsOf wanted)) = wanted) :
    readingBackOn exponent wanted ≠ none := by
  intro missed
  rw [readingBackOn_eq] at missed
  obtain ⟨lower, upper⟩ := nearerOf_eq_none missed
  exact hit.elim (beq_eq_false_iff_ne.1 lower) (beq_eq_false_iff_ne.1 upper)

/-- The search succeeds if one of the grids has a hit. -/
theorem firstReadingBack_ne_none {exponent : Int} {grids step : Nat} (less : step < grids)
    (hit : readingBackOn (exponent - step) wanted ≠ none) :
    firstReadingBack wanted exponent grids ≠ none := by
  intro missed
  rw [firstReadingBack, List.findSome?_eq_none_iff] at missed
  exact hit (missed step (List.mem_range.2 less))

/-- What the search finds is a hit on one of the grids. -/
theorem readingBackOn_of_firstReadingBack {exponent : Int} {grids : Nat} {found : Decimal}
    (search : firstReadingBack wanted exponent grids = some found) :
    ∃ step : Nat, step < grids ∧ readingBackOn (exponent - step) wanted = some found := by
  obtain ⟨step, inRange, hit⟩ := List.exists_of_findSome?_eq_some search
  exact ⟨step, List.mem_range.1 inRange, hit⟩

/-- On the grids that are searched the neighbours have few digits. -/
theorem digits_floorOn_lt (units : Nat) {exponent : Int} (fine : scale units - 17 ≤ exponent) :
    (floorOn exponent units).digits < 10 ^ 17 := by
  by_contra many
  have below := (mul_zpow_le_iff_le_floorOn (10 ^ 17) exponent units).2 (not_lt.1 many)
  have above := magnitudeOf_lt_zpow_scale units
  have gap : (10 : ℚ) ^ scale units ≤ (10 ^ 17 : ℕ) * 10 ^ exponent := by
    rw [Nat.cast_pow, Nat.cast_ofNat, ← zpow_natCast, ← zpow_add₀ (by norm_num)]
    exact zpow_le_zpow_right₀ (by norm_num) (by omega)
  exact absurd (gap.trans below) (not_le.2 above)

/-! ## Trailing zeros -/

theorem value_dropZeros (fuel : Nat) (d : Decimal) : (dropZeros fuel d).value = d.value := by
  fun_induction dropZeros fuel d with
  | case1 => rfl
  | case2 fuel d zeros induction =>
      rw [induction]
      have whole : (d.digits : ℚ) = (d.digits / 10 : ℕ) * 10 := by
        exact_mod_cast (Nat.div_mul_cancel (Nat.dvd_of_mod_eq_zero zeros.1)).symm
      rw [value, value, whole, zpow_add₀ (by norm_num), zpow_one]
      ring
  | case3 => rfl

/-- With enough fuel no trailing zero is left. -/
theorem digits_dropZeros_mod {fuel : Nat} {d : Decimal} (nonzero : d.digits ≠ 0)
    (few : d.digits < 10 ^ fuel) : (dropZeros fuel d).digits % 10 ≠ 0 := by
  fun_induction dropZeros fuel d with
  | case1 => exact absurd (Nat.lt_one_iff.1 few) nonzero
  | case2 fuel d zeros induction =>
      refine induction ?_ ?_
      · dsimp only
        omega
      · dsimp only
        omega
  | case3 fuel d last => omega

/-! ## The shortest decimal -/

/-- The search finds a decimal that reads back and has no more than eighteen digits. -/
theorem firstReadingBack_spec (positive : 0 < wanted) (finite : wanted < infinityPattern) :
    ∃ found, firstReadingBack wanted (scale (unitsOf wanted) - 1) 17 = some found ∧
      pattern found = wanted ∧ found.digits < 10 ^ 18 := by
  have hit : readingBackOn (scale (unitsOf wanted) - 1 - (16 : ℕ)) wanted ≠ none := by
    have same : scale (unitsOf wanted) - 1 - (16 : ℕ) = scale (unitsOf wanted) - 17 := by omega
    rw [same]
    exact readingBackOn_ne_none (pattern_floorOn_or_nextOn positive finite)
  obtain ⟨found, search⟩ := Option.ne_none_iff_exists'.1
    (firstReadingBack_ne_none (show 16 < 17 by decide) hit)
  obtain ⟨step, less, hit⟩ := readingBackOn_of_firstReadingBack search
  obtain ⟨reads, neighbour⟩ := readingBackOn_eq_some hit
  refine ⟨found, search, reads, ?_⟩
  have few := digits_floorOn_lt (unitsOf wanted)
    (show scale (unitsOf wanted) - 17 ≤ scale (unitsOf wanted) - 1 - step by omega)
  rcases neighbour with same | same
  · rw [same]
    omega
  · rw [same]
    show (floorOn _ _).digits + 1 < 10 ^ 18
    omega

/-- The shortest decimal reads back. -/
theorem pattern_shortest (positive : 0 < wanted) (finite : wanted < infinityPattern) :
    pattern (shortest wanted) = wanted := by
  obtain ⟨found, search, reads, -⟩ := firstReadingBack_spec positive finite
  rw [shortest, search, Option.getD_some, pattern_congr (value_dropZeros 18 found), reads]

theorem digits_ne_zero_of_pattern {d : Decimal} (positive : 0 < pattern d) : d.digits ≠ 0 := by
  intro none
  rw [pattern_eq_zero none] at positive
  exact absurd positive (Nat.lt_irrefl 0)

/-- The shortest decimal has no trailing zeros. -/
theorem digits_shortest_mod (positive : 0 < wanted) (finite : wanted < infinityPattern) :
    (shortest wanted).digits % 10 ≠ 0 := by
  obtain ⟨found, search, reads, few⟩ := firstReadingBack_spec positive finite
  rw [shortest, search, Option.getD_some]
  exact digits_dropZeros_mod (digits_ne_zero_of_pattern (reads.symm ▸ positive)) few

end LoxLang.Decimal
