import RowModel.Value.Basic
import Mathlib

/-!
Doubles by their bits. What the nearest double to a decimal number is made of can be read back, is a
number, and only its sign tells it from its opposite.
-/
namespace RowModel.Decimal

open Float.Model (Format)
open Float.Model.UnpackedFloat

variable {m n : Nat}

section

variable (b : BitVec 64)

theorem toNat_unpackExponent :
    (@unpackExponent Format.binary64 b).toNat = b.toNat / leadingWeight % 2048 := by
  rw [unpackExponent_def, BitVec.extractLsb'_toNat, Nat.shiftRight_eq_div_pow]
  rfl

theorem toNat_unpackMantissa :
    (@unpackMantissa Format.binary64 b).toNat = b.toNat % leadingWeight := by
  rw [unpackMantissa_def, BitVec.extractLsb'_toNat, Nat.shiftRight_eq_div_pow]
  simp [leadingWeight]

theorem toNat_unpackSign :
    (@unpackSign Format.binary64 b).toNat = b.toNat / signWeight := by
  rw [unpackSign_def, BitVec.extractLsb'_toNat, Nat.shiftRight_eq_div_pow]
  have := b.isLt
  simp [signWeight]
  omega

end

def signedBits (negative : Bool) (n : Nat) : Nat := if negative then n + signWeight else n

theorem signedBits_lt (negative : Bool) (h : n ≤ infiniteBits) : signedBits negative n < 2 ^ 64 := by
  unfold signedBits
  unfold infiniteBits leadingWeight at h
  unfold signWeight
  split <;> simp at * <;> omega

theorem exponent_signedBits (negative : Bool) (n : Nat) :
    signedBits negative n / leadingWeight % 2048 = n / leadingWeight % 2048 := by
  unfold signedBits signWeight leadingWeight
  split
  · simp
    omega
  · rfl

theorem fraction_signedBits (negative : Bool) (n : Nat) :
    signedBits negative n % leadingWeight = n % leadingWeight := by
  unfold signedBits signWeight leadingWeight
  split
  · simp
    omega
  · rfl

/-- Only infinity has the largest exponent. -/
theorem fraction_of_exponent (h : n ≤ infiniteBits) (he : n / leadingWeight % 2048 = 2047) :
    n % leadingWeight = 0 := by
  unfold infiniteBits at h
  unfold leadingWeight at *
  simp at *
  omega

theorem toNat_toBitVec_ofNat (h : n < 2 ^ 64) : (UInt64.ofNat n).toBitVec.toNat = n :=
  UInt64.toNat_ofNat_of_lt' h

/-- Bits up to those of infinity are a number, with either sign. -/
theorem isNaNBits_signedBits (negative : Bool) (h : n ≤ infiniteBits) :
    @isNaNBits Format.binary64 (UInt64.ofNat (signedBits negative n)).toBitVec = false := by
  have hbits := toNat_toBitVec_ofNat (signedBits_lt negative h)
  rw [isNaNBits, decide_eq_false_iff_not]
  rintro ⟨hexponent, hfraction⟩
  apply hfraction
  rw [← BitVec.toNat_inj, toNat_unpackMantissa, hbits, fraction_signedBits]
  have he := congrArg BitVec.toNat hexponent
  rw [toNat_unpackExponent, hbits, exponent_signedBits] at he
  exact fraction_of_exponent h he

/-- Bits that are a number are kept by the double. -/
theorem toBits_ofBits {b : UInt64} (h : @isNaNBits Format.binary64 b.toBitVec = false) :
    (Float.ofBits b).toBits = b := by
  change UInt64.ofBitVec (pack Format.binary64 (unpack Format.binary64 b.toBitVec)) = b
  rw [pack_unpack, h]
  rfl

/-- A double with these bits is a number, and they are read back. -/
theorem toBits_ofSignBits (negative : Bool) (h : n ≤ infiniteBits) :
    (ofSignBits negative n).toBits.toNat = signedBits negative n := by
  change (Float.ofBits (UInt64.ofNat (signedBits negative n))).toBits.toNat = _
  rw [toBits_ofBits (isNaNBits_signedBits negative h)]
  exact toNat_toBitVec_ofNat (signedBits_lt negative h)

/-- The two signs are opposite. -/
theorem unpack_signedBits (h : n ≤ infiniteBits) :
    (unpack Format.binary64 (UInt64.ofNat (signedBits false n)).toBitVec).neg =
      unpack Format.binary64 (UInt64.ofNat (signedBits true n)).toBitVec := by
  have hbits := fun negative => toNat_toBitVec_ofNat (signedBits_lt negative h)
  have hexponent : @unpackExponent Format.binary64
        (UInt64.ofNat (signedBits false n)).toBitVec =
      @unpackExponent Format.binary64 (UInt64.ofNat (signedBits true n)).toBitVec := by
    rw [← BitVec.toNat_inj, toNat_unpackExponent, toNat_unpackExponent, hbits, hbits,
      exponent_signedBits, exponent_signedBits]
  have hmantissa : @unpackMantissa Format.binary64
        (UInt64.ofNat (signedBits false n)).toBitVec =
      @unpackMantissa Format.binary64 (UInt64.ofNat (signedBits true n)).toBitVec := by
    rw [← BitVec.toNat_inj, toNat_unpackMantissa, toNat_unpackMantissa, hbits, hbits,
      fraction_signedBits, fraction_signedBits]
  have hpositive : @unpackSign Format.binary64
      (UInt64.ofNat (signedBits false n)).toBitVec = 0#1 := by
    rw [← BitVec.toNat_inj, toNat_unpackSign, hbits]
    unfold infiniteBits leadingWeight at h
    simp [signedBits, signWeight] at *
    omega
  have hnegative : @unpackSign Format.binary64
      (UInt64.ofNat (signedBits true n)).toBitVec = 1#1 := by
    rw [← BitVec.toNat_inj, toNat_unpackSign, hbits]
    unfold infiniteBits leadingWeight at h
    simp [signedBits, signWeight] at *
    omega
  unfold unpack
  simp only [hexponent, hmantissa, hpositive, hnegative]
  split
  · split <;> rfl
  · split
    · split <;> rfl
    · rfl

theorem neg_ofSignBits (h : n ≤ infiniteBits) : -ofSignBits false n = ofSignBits true n := by
  change Float.ofModel (Float.Model.pack
      (unpack Format.binary64 (Float.ofBits (UInt64.ofNat (signedBits false n))).toBits.toBitVec).neg) =
    Float.ofModel (Float.Model.pack
      (unpack Format.binary64 (UInt64.ofNat (signedBits true n)).toBitVec))
  rw [toBits_ofBits (isNaNBits_signedBits false h), unpack_signedBits h]

theorem ofFloat_ofSignBits (mark : Nat) (negative : Bool) (h : n ≤ infiniteBits) :
    Value.ofFloat mark (ofSignBits negative n) = .float (ofSignBits negative n) := by
  have hmagnitude : magnitude (ofSignBits negative n) ≠ .nan := by
    rw [magnitude, toBits_ofSignBits negative h, Magnitude.ofBits, exponent_signedBits,
      fraction_signedBits]
    split
    · next he => simp [fraction_of_exponent h he]
    · split <;> simp
  unfold Value.ofFloat
  split
  · next hnan => exact absurd hnan hmagnitude
  · rfl

/-- The nearest double to a decimal number has bits up to those of infinity, whatever its sign. -/
theorem exists_bits (digits : Nat) (exponent : Int) :
    ∃ n ≤ infiniteBits, ∀ negative, ofDecimal negative digits exponent = ofSignBits negative n := by
  by_cases hsmall : digits = 0 ∨ (Nat.toDigits 10 digits).length + exponent < -400
  · exact ⟨0, Nat.zero_le _, fun negative => if_pos hsmall⟩
  · by_cases hlarge : 400 < (Nat.toDigits 10 digits).length + exponent
    · exact ⟨infiniteBits, Nat.le_refl _, fun negative => (if_neg hsmall).trans (if_pos hlarge)⟩
    · refine ⟨_, ?_, fun negative => (if_neg hsmall).trans (if_neg hlarge)⟩
      unfold nearestBits
      split
      · exact Nat.zero_le _
      · exact Nat.min_le_right _ _

end RowModel.Decimal
