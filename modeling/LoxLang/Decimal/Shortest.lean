import LoxLang.Decimal.Nearest

/-!
# The shortest decimal that reads back

Among the decimals whose nearest double is a given one, the shortest has the
fewest digits, and of several with that many it lies nearest to the double; an
exact tie goes to the even digits.

For 1, 2, …, 17 digits the two neighbours of the double on the grid of decimals
with that many digits are tried, and the first grid with a hit wins: if any
decimal of a grid reads back, so does one of these two.  Whether a decimal reads
back is asked of the reader itself (`pattern`), so what is found reads back by
construction, and the exact value does so too.
-/

namespace LoxLang.Decimal

/-- A magnitude in units as a decimal number, exactly. -/
def exact (units : Nat) : Decimal := ⟨units * Nat.pow 5 1074, -1074⟩

/-- The least positive double is above `10 ^ (-324)`, so after multiplication by this power of ten
every positive magnitude has at least one digit before the point. -/
def wholePlaces : Nat := 324

/-- The decimal scale of a positive magnitude: the least `k` with `units < 10 ^ k * 2 ^ 1074`. -/
def scale (units : Nat) : Int :=
  (digitsOf (units * Nat.pow 10 wholePlaces / unitsInOne)).length - wholePlaces

/-- The greatest decimal with the given exponent that is not above the magnitude. -/
def floorOn (exponent : Int) (units : Nat) : Decimal :=
  ⟨units * Nat.pow 10 (-exponent).toNat / (unitsInOne * Nat.pow 10 exponent.toNat), exponent⟩

/-- Where a magnitude lies between a decimal and the next one on its grid: twice the magnitude
against their sum.  The lesser one is nearer if the answer is `lt`. -/
def towardsNext (units : Nat) (lower : Decimal) : Ordering :=
  let next := ⟨2 * lower.digits + 1, lower.exponent⟩
  compare (2 * units * denominator next) (numerator next * unitsInOne)

/-- The next decimal on the same grid. -/
def next (d : Decimal) : Decimal := ⟨d.digits + 1, d.exponent⟩

/-- Of two neighbours on a grid the one that reads back, if there is one.  If both do, the order
says which one is nearer, and a tie goes to the even digits. -/
def nearerOf (order : Ordering) (lower upper : Decimal) :
    (lowerReadsBack upperReadsBack : Bool) → Option Decimal
  | true, true =>
      match order with
      | .lt => some lower
      | .gt => some upper
      | .eq => some (if lower.digits % 2 = 0 then lower else upper)
  | true, false => some lower
  | false, true => some upper
  | false, false => none

/-- The decimal with the given exponent that reads back to the pattern, if there is one. -/
def readingBackOn (exponent : Int) (wanted : Nat) : Option Decimal :=
  let units := unitsOf wanted
  let lower := floorOn exponent units
  nearerOf (towardsNext units lower) lower lower.next
    (pattern lower == wanted) (pattern lower.next == wanted)

/-- The first decimal that reads back to the pattern, on the grids with the given exponent, the
next smaller one, and so on. -/
def firstReadingBack (wanted : Nat) (exponent : Int) (grids : Nat) : Option Decimal :=
  (List.range grids).findSome? fun step : Nat => readingBackOn (exponent - step) wanted

/-- The shortest decimal that reads back to the pattern of a positive finite magnitude, without
trailing zeros.  Seventeen digits are enough; the exact value stands for what is left. -/
def shortest (wanted : Nat) : Decimal :=
  let units := unitsOf wanted
  let found := (firstReadingBack wanted (scale units - 1) 17).getD (exact units)
  dropZeros 18 found

end LoxLang.Decimal
