import Mathlib
import LoxLang.Proofs.Decimal.ReadingBack

/-!
# Doubles and their bits

A double is told by its bits: the sign bit, and the pattern of its magnitude.  It is finite if the
pattern is below that of infinity.  A double with the sign bit is the one without it, negated.
-/

namespace LoxLang.Decimal

open Float.Model (Format)
open Float.Model.UnpackedFloat

/-- The pattern of the magnitude of a double. -/
def patternOf (x : Float) : Nat := x.toBits.toNat % signBit

/-- Whether a double has the sign bit. -/
def isSigned (x : Float) : Bool := signBit ≤ x.toBits.toNat

section Parts

variable (bits : BitVec Format.binary64.numBits)

theorem toNat_unpackExponent : (unpackExponent bits).toNat = bits.toNat / 2 ^ 52 % 2 ^ 11 := by
  simp [unpackExponent, Nat.shiftRight_eq_div_pow]

theorem toNat_unpackMantissa : (unpackMantissa bits).toNat = bits.toNat % 2 ^ 52 := by
  simp [unpackMantissa]

theorem toNat_unpackSign : (unpackSign bits).toNat = bits.toNat / 2 ^ 63 % 2 := by
  simp [unpackSign, Nat.shiftRight_eq_div_pow]

theorem unpackExponent_eq_iff :
    unpackExponent bits = -1#_ ↔ infinityPattern ≤ bits.toNat % signBit := by
  rw [← BitVec.toNat_inj, toNat_unpackExponent, infinityPattern, signBit]
  have less := bits.isLt
  simp
  omega

theorem isFinite_unpack :
    (unpack Format.binary64 bits).isFinite = true ↔ bits.toNat % signBit < infinityPattern := by
  rw [← not_le, ← unpackExponent_eq_iff]
  unfold unpack
  dsimp only
  split_ifs with top
  · exact iff_of_false Bool.false_ne_true (not_not.2 top)
  · exact iff_of_false Bool.false_ne_true (not_not.2 top)
  all_goals exact iff_of_true rfl top

end Parts

/-- The parts of two bit vectors that differ in the sign bit alone. -/
theorem unpack_eq_neg {bits other : BitVec Format.binary64.numBits}
    (exponent : unpackExponent bits = unpackExponent other)
    (mantissa : unpackMantissa bits = unpackMantissa other)
    (sign : unpackSign bits = 1#1) (otherSign : unpackSign other = 0#1) :
    unpack Format.binary64 bits = (unpack Format.binary64 other).neg := by
  simp only [unpack, exponent, mantissa, sign, otherSign]
  split_ifs <;> rfl

theorem isFinite_iff (x : Float) : x.isFinite = true ↔ patternOf x < infinityPattern :=
  isFinite_unpack _

/-- A pattern below that of infinity, with or without the sign bit, is that of a double. -/
theorem valid_of_finite {bits : UInt64} (finite : bits.toNat % signBit < infinityPattern) :
    Format.binary64.Valid bits.toBitVec :=
  ⟨fun top _ => absurd ((unpackExponent_eq_iff bits.toBitVec).1 top) (not_le.2 finite)⟩

theorem toBits_ofBits {bits : UInt64} (finite : bits.toNat % signBit < infinityPattern) :
    (Float.ofBits bits).toBits = bits :=
  congrArg Float.toBits (Float.ofBits_toBits ⟨⟨bits, valid_of_finite finite⟩⟩)

theorem toNat_toUInt64 {pattern : Nat} (less : pattern < signBit) :
    pattern.toUInt64.toNat = pattern := by
  rw [Nat.toUInt64, UInt64.toNat_ofNat']
  rw [signBit] at less
  omega

theorem patternOf_lt (x : Float) : patternOf x < signBit := Nat.mod_lt _ (by decide)

/-- A double without the sign bit is the one with its pattern. -/
theorem ofBits_patternOf {x : Float} (positive : isSigned x = false) :
    Float.ofBits (patternOf x).toUInt64 = x := by
  have less : x.toBits.toNat < signBit := by simpa [isSigned] using positive
  rw [patternOf, Nat.mod_eq_of_lt less, Nat.toUInt64, UInt64.ofNat_toNat, Float.ofBits_toBits]

/-- A finite double with the sign bit is the one with its pattern, negated. -/
theorem neg_ofBits_patternOf {x : Float} (finite : x.isFinite = true) (signed : isSigned x = true) :
    -Float.ofBits (patternOf x).toUInt64 = x := by
  have below := (isFinite_iff x).1 finite
  have bits := toNat_toUInt64 (patternOf_lt x)
  have small : (patternOf x).toUInt64.toNat % signBit < infinityPattern := by
    rw [bits, Nat.mod_eq_of_lt (patternOf_lt x)]
    exact below
  have unpacked : unpack Format.binary64 x.toBits.toBitVec =
      (unpack Format.binary64 (Float.ofBits (patternOf x).toUInt64).toBits.toBitVec).neg := by
    rw [toBits_ofBits small]
    have same : (patternOf x).toUInt64.toBitVec.toNat = x.toBits.toBitVec.toNat % 2 ^ 63 := bits
    have less := x.toBits.toBitVec.isLt
    have least : 2 ^ 63 ≤ x.toBits.toBitVec.toNat := of_decide_eq_true signed
    refine unpack_eq_neg (BitVec.eq_of_toNat_eq ?_) (BitVec.eq_of_toNat_eq ?_)
      (BitVec.eq_of_toNat_eq ?_) (BitVec.eq_of_toNat_eq ?_)
    · rw [toNat_unpackExponent, toNat_unpackExponent, same]
      omega
    · rw [toNat_unpackMantissa, toNat_unpackMantissa, same]
      omega
    · rw [toNat_unpackSign, BitVec.toNat_ofNat]
      omega
    · rw [toNat_unpackSign, same, BitVec.toNat_ofNat]
      omega
  have packed : pack Format.binary64
      (unpack Format.binary64 (Float.ofBits (patternOf x).toUInt64).toBits.toBitVec).neg =
        x.toBits.toBitVec := by
    rw [← unpacked]
    exact pack_unpack_of_valid x.toModel.valid
  exact Float.toBits_inj.1 (UInt64.toBitVec_inj.1 packed)

end LoxLang.Decimal
