import LoxLang.Decimal.Nearest
import Mathlib.Algebra.Order.Field.Power
import Mathlib.Data.Rat.Cast.Order
import Mathlib.Tactic.FieldSimp
import Mathlib.Tactic.Linarith
import Mathlib.Tactic.Positivity
import Mathlib.Tactic.Ring

/-!
# Rounding to the nearest double

The double nearest to a decimal number depends on its value alone, and every decimal number
whose relative distance from a finite magnitude is less than one in `2 ^ 54` is rounded to that
magnitude.  Half of the gap to the next magnitude is nowhere smaller than this.
-/

namespace LoxLang.Decimal

/-! ## Values -/

/-- The number that the decimal stands for. -/
def value (d : Decimal) : ℚ := d.digits * 10 ^ d.exponent

theorem value_eq_div (d : Decimal) : d.value = d.numerator / d.denominator := by
  have whole : (10 : ℚ) ^ d.exponent = 10 ^ d.exponent.toNat / 10 ^ (-d.exponent).toNat := by
    rw [eq_div_iff (by positivity), ← zpow_natCast, ← zpow_natCast, ← zpow_add₀ (by norm_num)]
    congr 1
    omega
  simp only [value, numerator, denominator, whole, Nat.pow_eq, Nat.cast_mul, Nat.cast_pow,
    Nat.cast_ofNat]
  ring

/-! ## Rounding depends on the fraction -/

theorem roundDiv_mul {factor : Nat} (positive : 0 < factor) (num den : Nat) :
    roundDiv (factor * num) (factor * den) = roundDiv num den := by
  have less : 2 * (factor * (num % den)) < factor * den ↔ 2 * (num % den) < den := by
    rw [Nat.mul_left_comm, Nat.mul_lt_mul_left positive]
  have same : 2 * (factor * (num % den)) = factor * den ↔ 2 * (num % den) = den := by
    rw [Nat.mul_left_comm, Nat.mul_right_inj positive.ne']
  simp only [roundDiv, Nat.mul_div_mul_left _ _ positive, Nat.mul_mod_mul_left, less, same]

theorem nearest_mul {factor : Nat} (positive : 0 < factor) (num den : Nat) :
    nearest (factor * num) (factor * den) = nearest num den := by
  simp only [nearest, Nat.mul_assoc, Nat.mul_div_mul_left _ _ positive, roundDiv_mul positive]

/-- Decimals with the same value are rounded to the same double. -/
theorem pattern_congr {d other : Decimal} (same : d.value = other.value) :
    pattern d = pattern other := by
  rw [value_eq_div, value_eq_div, div_eq_div_iff (by exact_mod_cast d.denominator_pos.ne')
    (by exact_mod_cast other.denominator_pos.ne')] at same
  have cross : d.numerator * other.denominator = other.numerator * d.denominator := by
    exact_mod_cast same
  calc pattern d = nearest (other.denominator * d.numerator) (other.denominator * d.denominator) :=
        (nearest_mul other.denominator_pos _ _).symm
    _ = nearest (d.denominator * other.numerator) (d.denominator * other.denominator) := by
        rw [Nat.mul_comm, cross, Nat.mul_comm, Nat.mul_comm other.denominator]
    _ = pattern other := nearest_mul d.denominator_pos _ _

/-! ## Rounding of what is close -/

/-- What differs from a natural number by less than one half is rounded to it. -/
theorem roundDiv_eq {num den target : Nat} (above : 2 * (target * den) < 2 * num + den)
    (below : 2 * num < 2 * (target * den) + den) : roundDiv num den = target := by
  have positive : 0 < den := by omega
  have split := Nat.div_add_mod num den
  have less := Nat.mod_lt num positive
  have upper : target < num / den + 2 := by
    by_contra far
    have := Nat.mul_le_mul_right den (Nat.le_of_not_lt far)
    have expanded : (num / den + 2) * den = den * (num / den) + 2 * den := by ring
    omega
  have lower : num / den < target + 1 := by
    by_contra far
    have := Nat.mul_le_mul_right den (Nat.le_of_not_lt far)
    have expanded : (target + 1) * den = target * den + den := by ring
    have sameProduct : num / den * den = den * (num / den) := Nat.mul_comm _ _
    omega
  unfold roundDiv
  rcases Nat.lt_succ_iff_lt_or_eq.1 upper with near | far
  · have same : target = num / den := by omega
    have product : target * den = den * (num / den) := by rw [same, Nat.mul_comm]
    rw [if_pos (.inl (by omega)), same]
  · have product : target * den = den * (num / den) + den := by rw [far]; ring
    rw [if_neg (by omega), far]

/-! ## Magnitudes -/

/-- How a magnitude is made up: below `2 ^ 53` it is its pattern, and above it has 53 bits and a
shift. -/
theorem unitsOf_cases (wanted : Nat) :
    (wanted < 2 ^ 53 ∧ unitsOf wanted = wanted) ∨
      ∃ shift mantissa, 2 ^ 52 ≤ mantissa ∧ mantissa < 2 ^ 53 ∧
        wanted = (shift + 1) * 2 ^ 52 + mantissa ∧
        unitsOf wanted = mantissa * 2 ^ (shift + 1) := by
  unfold unitsOf
  simp only [Nat.pow_eq]
  by_cases small : wanted < 2 ^ 53
  · left
    have noShift : wanted / 2 ^ 52 - 1 = 0 := by omega
    rw [noShift, Nat.zero_mul, Nat.sub_zero, Nat.pow_zero, Nat.mul_one]
    exact ⟨small, rfl⟩
  · right
    refine ⟨wanted / 2 ^ 52 - 2, wanted - (wanted / 2 ^ 52 - 1) * 2 ^ 52, ?_, ?_, ?_, ?_⟩
    · omega
    · omega
    · omega
    · congr 2
      omega

/-- The fraction is so close to a natural number that less than one in `2 ^ 54` is missing or too
much. -/
structure CloseTo (num den units : Nat) : Prop where
  above : units * den * (2 ^ 54 - 1) < num * 2 ^ 54
  below : num * 2 ^ 54 < units * den * (2 ^ 54 + 1)

theorem closeTo_of_abs {num den units : Nat} (positive : 0 < den)
    (close : |(num / den : ℚ) - units| * 2 ^ 54 < units) : CloseTo num den units := by
  have some : (0 : ℚ) < den := by exact_mod_cast positive
  rw [← lt_div_iff₀ (by positivity), abs_lt] at close
  have above : ((units : ℚ) - units / 2 ^ 54) * den < num := by
    rw [← lt_div_iff₀ some]
    linarith
  have below : num < ((units : ℚ) + units / 2 ^ 54) * den := by
    rw [← div_lt_iff₀ some]
    linarith
  constructor
  · have cleared : (units * den * (18014398509481983 : ℕ) : ℚ) < num * 2 ^ 54 := by
      push_cast
      linarith
    exact_mod_cast cleared
  · have cleared : (num * 2 ^ 54 : ℚ) < units * den * (2 ^ 54 + 1) := by linarith
    exact_mod_cast cleared

/-- The pattern of the magnitude nearest to a fraction of units. -/
def nearestUnits (scaled den : Nat) : Nat :=
  let shift := (scaled / den).log2 - 52
  min (shift * 2 ^ 52 + roundDiv scaled (den * 2 ^ shift)) infinityPattern

theorem nearest_eq_nearestUnits (num den : Nat) :
    nearest num den = nearestUnits (num * unitsInOne) den := rfl

section Nearest

variable {scaled den shift : Nat} (positive : 0 < den)

include positive

/-- The shift is told by the whole part of the fraction. -/
theorem nearestUnits_eq (least : 2 ^ (52 + shift) * den ≤ scaled)
    (greatest : scaled < 2 ^ (53 + shift) * den) :
    nearestUnits scaled den =
      min (shift * 2 ^ 52 + roundDiv scaled (den * 2 ^ shift)) infinityPattern := by
  have atLeast : 2 ^ (52 + shift) ≤ scaled / den := (Nat.le_div_iff_mul_le positive).2 least
  have lessThan : scaled / den < 2 ^ (52 + shift + 1) := by
    rw [Nat.div_lt_iff_lt_mul positive, Nat.add_right_comm]
    exact greatest
  have nonzero : scaled / den ≠ 0 :=
    Nat.ne_of_gt (Nat.lt_of_lt_of_le (Nat.two_pow_pos _) atLeast)
  have log : (scaled / den).log2 = 52 + shift := (Nat.log2_eq_iff nonzero).2 ⟨atLeast, lessThan⟩
  simp only [nearestUnits, log, Nat.add_sub_cancel_left]

/-- A fraction with no more than 53 bits is rounded to a natural number. -/
theorem nearestUnits_eq_of_small (greatest : scaled < 2 ^ 53 * den) :
    nearestUnits scaled den = min (roundDiv scaled den) infinityPattern := by
  have lessThan : scaled / den < 2 ^ 53 := (Nat.div_lt_iff_lt_mul positive).2 greatest
  have noShift : (scaled / den).log2 - 52 = 0 := by
    by_cases zero : scaled / den = 0
    · simp [zero]
    · have := (Nat.log2_lt zero).2 lessThan
      omega
  simp only [nearestUnits, noShift, Nat.zero_mul, Nat.zero_add, Nat.pow_zero, Nat.mul_one]

/-- What is close to a magnitude with 53 bits and a shift is rounded to it, if necessary from
below the power of two that has one bit more. -/
theorem nearestUnits_of_close_shifted {mantissa : Nat} (least : 2 ^ 52 ≤ mantissa)
    (greatest : mantissa < 2 ^ 53)
    (close : CloseTo scaled den (mantissa * 2 ^ (shift + 1))) :
    nearestUnits scaled den = min ((shift + 1) * 2 ^ 52 + mantissa) infinityPattern := by
  obtain ⟨above, below⟩ := close
  have half : den * 2 ^ (shift + 1) = 2 * (den * 2 ^ shift) := by ring
  have units : mantissa * 2 ^ (shift + 1) * den = mantissa * (den * 2 ^ (shift + 1)) := by ring
  have full : 2 ^ (52 + (shift + 1)) * den = 2 ^ 52 * (den * 2 ^ (shift + 1)) := by ring
  have double : 2 ^ (53 + (shift + 1)) * den = 2 ^ 53 * (den * 2 ^ (shift + 1)) := by ring
  have lower : 2 ^ (52 + shift) * den = 2 ^ 52 * (den * 2 ^ shift) := by ring
  have upper : 2 ^ (53 + shift) * den = 2 ^ 53 * (den * 2 ^ shift) := by ring
  have some : 0 < den * 2 ^ shift := Nat.mul_pos positive (Nat.two_pow_pos _)
  have more : 2 ^ 52 * (den * 2 ^ (shift + 1)) ≤ mantissa * (den * 2 ^ (shift + 1)) :=
    Nat.mul_le_mul_right _ least
  have less : mantissa * (den * 2 ^ (shift + 1)) ≤ (2 ^ 53 - 1) * (den * 2 ^ (shift + 1)) :=
    Nat.mul_le_mul_right _ (by omega)
  rw [units] at above below
  by_cases reaches : 2 ^ 52 * (den * 2 ^ (shift + 1)) ≤ scaled
  · have least : 2 ^ (52 + (shift + 1)) * den ≤ scaled := by omega
    have rounded : roundDiv scaled (den * 2 ^ (shift + 1)) = mantissa :=
      roundDiv_eq (by omega) (by omega)
    rw [nearestUnits_eq positive least (by omega), rounded]
  · have power : mantissa = 2 ^ 52 := by
      by_contra larger
      have : (2 ^ 52 + 1) * (den * 2 ^ (shift + 1)) ≤ mantissa * (den * 2 ^ (shift + 1)) :=
        Nat.mul_le_mul_right _ (by omega)
      omega
    have carried : shift * 2 ^ 52 + 2 ^ 53 = (shift + 1) * 2 ^ 52 + 2 ^ 52 := by ring
    have least : 2 ^ (52 + shift) * den ≤ scaled := by omega
    have rounded : roundDiv scaled (den * 2 ^ shift) = 2 ^ 53 := roundDiv_eq (by omega) (by omega)
    rw [nearestUnits_eq positive least (by omega), rounded, power, carried]

/-- What is close to a finite magnitude is rounded to it. -/
theorem nearestUnits_of_close {wanted : Nat} (finite : wanted < infinityPattern)
    (close : CloseTo scaled den (unitsOf wanted)) : nearestUnits scaled den = wanted := by
  rcases unitsOf_cases wanted with ⟨small, units⟩ | ⟨shift, mantissa, least, greatest, same, units⟩
  · obtain ⟨above, below⟩ := close
    rw [units] at above below
    have product : wanted * den ≤ (2 ^ 53 - 1) * den := Nat.mul_le_mul_right den (by omega)
    have rounded : roundDiv scaled den = wanted := roundDiv_eq (by omega) (by omega)
    rw [nearestUnits_eq_of_small positive (by omega), rounded]
    exact Nat.min_eq_left finite.le
  · rw [units] at close
    rw [nearestUnits_of_close_shifted positive least greatest close, ← same]
    exact Nat.min_eq_left finite.le

end Nearest

/-- A decimal number close to a finite magnitude is rounded to it. -/
theorem pattern_eq_of_close {d : Decimal} {wanted : Nat} (finite : wanted < infinityPattern)
    (close : |d.value * unitsInOne - unitsOf wanted| * 2 ^ 54 < (unitsOf wanted : ℚ)) :
    pattern d = wanted := by
  have scaled : ((d.numerator * unitsInOne : ℕ) : ℚ) / d.denominator = d.value * unitsInOne := by
    rw [value_eq_div, Nat.cast_mul, div_mul_eq_mul_div]
  rw [pattern, nearest_eq_nearestUnits]
  refine nearestUnits_of_close d.denominator_pos finite (closeTo_of_abs d.denominator_pos ?_)
  rw [scaled]
  exact close

theorem pattern_eq_zero {d : Decimal} (none : d.digits = 0) : pattern d = 0 := by
  have noNumerator : d.numerator = 0 := by rw [numerator, none, Nat.zero_mul]
  have rounded : roundDiv 0 d.denominator = 0 := by simp [roundDiv, d.denominator_pos]
  have less : 0 < 2 ^ 53 * d.denominator := Nat.mul_pos (by decide) d.denominator_pos
  rw [pattern, nearest_eq_nearestUnits, noNumerator, Nat.zero_mul,
    nearestUnits_eq_of_small d.denominator_pos less, rounded, Nat.zero_min]

end LoxLang.Decimal
