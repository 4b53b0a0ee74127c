import LoxLang.Decimal.Shortest

/-!
# The layout of numbers

Once the digits of a number are chosen they are laid out, positionally or with
an exponent.  A `Layout` holds the decisions; there are two of them, one for
values that a program prints and one for the listing of tokens and literals.
-/

namespace LoxLang

/-- The decisions on how a number is written. -/
structure Layout where
  /-- Whether a number whose leading digit stands for this power of ten is written positionally. -/
  positional : Int → Bool
  /-- Whether a whole number is written with a point and a zero. -/
  pointZero : Bool
  notANumber : String
  infinity : String

namespace Layout

/-- How a program's values are printed: always positionally, and whole numbers without a point. -/
def printed : Layout where
  positional := fun _ => true
  pointZero := false
  notANumber := "NaN"
  infinity := "Infinity"

/-- How literals are listed: positionally from `0.0001` up to below `10 ^ 16`, and whole numbers
with a point and a zero. -/
def listed : Layout where
  positional := fun e => -4 ≤ e && e < 16
  pointZero := true
  notANumber := "nan"
  infinity := "inf"

/-- A decimal written positionally.  The digits before the point are counted from the left, so
the point comes after the digits, between them, or before them. -/
def positionally (layout : Layout) (d : Decimal) : List Char :=
  let digits := Decimal.digitsOf d.digits
  let before := digits.length + d.exponent
  if 0 ≤ d.exponent then
    digits ++ List.replicate d.exponent.toNat '0' ++ (if layout.pointZero then ['.', '0'] else [])
  else if 0 < before then
    digits.take before.toNat ++ '.' :: digits.drop before.toNat
  else
    '0' :: '.' :: (List.replicate (-before).toNat '0' ++ digits)

/-- An exponent: its sign and at least two digits. -/
def exponentMark (exponent : Int) : List Char :=
  let digits := Decimal.digitsOf exponent.natAbs
  'e' :: (if exponent < 0 then '-' else '+') :: (List.replicate (2 - digits.length) '0' ++ digits)

/-- A decimal written as one digit, perhaps a point and more digits, and a power of ten. -/
def withExponent (d : Decimal) : List Char :=
  let digits := Decimal.digitsOf d.digits
  let exponent := digits.length + d.exponent - 1
  match digits with
  | [] => []
  | [lead] => lead :: exponentMark exponent
  | lead :: rest => lead :: '.' :: (rest ++ exponentMark exponent)

/-- A decimal in the given layout. -/
def decimal (layout : Layout) (d : Decimal) : List Char :=
  let leading := (Decimal.digitsOf d.digits).length + d.exponent - 1
  if layout.positional leading then layout.positionally d else withExponent d

/-- The text of the magnitude with the given pattern. -/
def magnitude (layout : Layout) (pattern : Nat) : List Char :=
  if Decimal.infinityPattern < pattern then layout.notANumber.toList
  else if pattern = Decimal.infinityPattern then layout.infinity.toList
  else if pattern = 0 then layout.decimal ⟨0, 0⟩
  else layout.decimal (Decimal.shortest pattern)

/-- The text of a number.  What is not a number has no sign. -/
def number (layout : Layout) (x : Float) : List Char :=
  let bits := x.toBits.toNat
  let pattern := bits % Decimal.signBit
  let text := layout.magnitude pattern
  if Decimal.signBit ≤ bits ∧ pattern ≤ Decimal.infinityPattern then '-' :: text else text

end Layout

end LoxLang
