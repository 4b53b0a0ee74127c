import LoxLang.Decimal.Basic

/-!
# The double nearest to a fraction

A finite double of either sign has a magnitude that is a whole multiple of the
least positive double, `2 ^ (-1074)`.  `unitsOf` gives this multiple for the bit
pattern of a magnitude, and `nearest` the bit pattern of the magnitude nearest
to a fraction, where a tie goes to the even pattern and what is too large goes
to infinity.  Both are exact computations on natural numbers: the patterns of
the magnitudes, read as numbers, are in the order of the magnitudes, so carrying
from the fraction field into the exponent field is an ordinary sum.
-/

namespace LoxLang.Decimal

/-- The bit pattern of positive infinity; the patterns below it are the finite magnitudes. -/
def infinityPattern : Nat := 0x7FF0000000000000

/-- The bit that stands for the minus sign. -/
def signBit : Nat := 0x8000000000000000

/-- The quotient rounded to the nearest natural number; a tie goes to the even one. -/
def roundDiv (num den : Nat) : Nat :=
  let quotient := num / den
  let twice := 2 * (num % den)
  if twice < den ∨ (twice = den ∧ quotient % 2 = 0) then quotient else quotient + 1

/-- The magnitude of a finite pattern, in units of the least positive double. -/
def unitsOf (pattern : Nat) : Nat :=
  let shift := pattern / Nat.pow 2 52 - 1
  (pattern - shift * Nat.pow 2 52) * Nat.pow 2 shift

/-- How often the least positive double goes into one. -/
def unitsInOne : Nat := Nat.pow 2 1074

/-- The pattern of the magnitude nearest to `num / den`. -/
def nearest (num den : Nat) : Nat :=
  let scaled := num * unitsInOne
  let shift := (scaled / den).log2 - 52
  min (shift * Nat.pow 2 52 + roundDiv scaled (den * Nat.pow 2 shift)) infinityPattern

/-- The pattern of the magnitude nearest to a decimal number. -/
def pattern (d : Decimal) : Nat := nearest d.numerator d.denominator

/-- The double nearest to a decimal number. -/
def toFloat (d : Decimal) : Float := Float.ofBits (pattern d).toUInt64

end LoxLang.Decimal
