/-!
# Decimal numbers

A decimal number is a natural number times a power of ten.  This is what a
numeral says before it is rounded, and what is chosen to stand for a number
before it is laid out.
-/

namespace LoxLang

/-- The number `digits * 10 ^ exponent`. -/
structure Decimal where
  digits : Nat
  exponent : Int
deriving DecidableEq, Repr

namespace Decimal

/-- The upper part of the number as a fraction. -/
def numerator (d : Decimal) : Nat := d.digits * Nat.pow 10 d.exponent.toNat

/-- The lower part of the number as a fraction; it is positive. -/
def denominator (d : Decimal) : Nat := Nat.pow 10 (-d.exponent).toNat

theorem denominator_pos (d : Decimal) : 0 < d.denominator :=
  Nat.pow_pos (by decide)

/-- The value of a digit. -/
def digitValue (c : Char) : Nat := c.toNat - '0'.toNat

/-- Read digits from left to right, going on from a value already read. -/
def readDigits : (value : Nat) → List Char → Nat
  | value, [] => value
  | value, c :: rest => readDigits (10 * value + digitValue c) rest

/-- The decimal number that a numeral spells: digits, and perhaps a point and more digits. -/
def ofNumeral (numeral : List Char) : Decimal :=
  let whole := numeral.takeWhile (· != '.')
  let fraction := (numeral.dropWhile (· != '.')).drop 1
  ⟨readDigits 0 (whole ++ fraction), -(fraction.length : Int)⟩

/-- The digits of a natural number, without leading zeros; `0` for zero. -/
def digitsOf (n : Nat) : List Char := Nat.toDigits 10 n

/-- Move trailing zeros of the digits into the exponent, at most `fuel` of them. -/
def dropZeros : (fuel : Nat) → Decimal → Decimal
  | 0, d => d
  | fuel + 1, d =>
      if d.digits % 10 = 0 ∧ d.digits ≠ 0 then
        dropZeros fuel ⟨d.digits / 10, d.exponent + 1⟩
      else d

end Decimal

end LoxLang
