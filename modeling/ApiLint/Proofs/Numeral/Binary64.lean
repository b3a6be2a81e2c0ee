import ApiLint.Numeral.Reading
import Mathlib

/-! Every decimal has a number. What is nearest to a decimal is stored as no more than the bits of
infinity, and none of these stand for what is no number (`decimalSize_isNaN`). The lemmas on floating point
numbers that this rests on come with the whole of Mathlib, and with no part of it. -/
namespace ApiLint.Numeral

open Float.Model (Format)
open Float.Model.UnpackedFloat

def infinityBits : Nat := 0x7FF0000000000000

/-- Bits that stand for what is no number have the highest exponent and some bits below it. -/
theorem isNaNBits_of_isNaN {bits : UInt64} (h : (Float.ofBits bits).isNaN = true) :
    @isNaNBits Format.binary64 bits.toBitVec = true := by
  by_contra hnot
  have hnan : Float.ofBits bits = .nan := by
    rw [Float.isNaN_eq_decide_eq_nan] at h
    exact of_decide_eq_true h
  have hpack : (unpack Format.binary64 bits.toBitVec).pack Format.binary64 = packedNaN Format.binary64 :=
    congrArg (fun x => x.toBits.toBitVec) hnan
  rw [pack_unpack, if_neg hnot] at hpack
  exact hnot (hpack ▸ isNaNBits_packedNaN)

/-- Up to the bits of infinity nothing stands for what is no number. -/
theorem isNaN_ofBits {bits : UInt64} (h : bits.toNat ≤ infinityBits) :
    (Float.ofBits bits).isNaN = false := by
  rw [Bool.eq_false_iff]
  intro hnan
  obtain ⟨hhigh, hmantissa⟩ := of_decide_eq_true (isNaNBits_of_isNaN hnan)
  have hexponent : bits.toNat / 2 ^ 52 % 2 ^ 11 = 2047 := by
    have hnat := congrArg BitVec.toNat hhigh
    simpa [unpackExponent, Nat.shiftRight_eq_div_pow] using hnat
  have hlow : bits.toNat % 2 ^ 52 ≠ 0 := by
    intro hzero
    refine hmantissa (BitVec.eq_of_toNat_eq ?_)
    simpa [unpackMantissa] using hzero
  rw [infinityBits] at h
  omega

theorem isNaN_nearest (num den : Nat) : (nearest num den).isNaN = false := by
  have hbits (bits : Nat) : (Float.ofBits (.ofNat (min bits 0x7FF0000000000000))).isNaN = false := by
    apply isNaN_ofBits
    rw [UInt64.toNat_ofNat', infinityBits]
    omega
  rw [nearest]
  split_ifs
  · decide +kernel
  all_goals exact hbits _

/-- A decimal is a number. -/
theorem decimalSize_isNaN (whole fraction : List Nat) (exponent : Int) :
    (decimalSize whole fraction exponent).isNaN = false := by
  rw [decimalSize, ofDecimal]
  split_ifs
  · decide +kernel
  · decide +kernel
  · exact isNaN_nearest _ _
  · exact isNaN_nearest _ _

end ApiLint.Numeral
