/-
PocketCalc.Proofs.Number.Signs — a minus sign passes through a division.

An operation on doubles unpacks them, computes exactly, rounds, and packs
the result. The sign is a field of its own all the way: no rounding looks
at it, and packing writes it into a bit of its own. So negating commutes
with each step (`roundWithAccuracy_neg`, `unpack_pack_neg`), also where the
result is zero, infinite or no number at all.

Main statement: `neg_div`.
-/
import PocketCalc.Proofs.Number.Bits

namespace PocketCalc.Number

open Float.Model Float.Model.UnpackedFloat

/-! ## 1. Unpacked doubles -/

theorem sign_neg_div (s t : Sign) : -s / t = -(s / t) := by
  cases s <;> cases t <;> rfl

theorem roundWithAccuracy_neg (s : Sign) (mantissa : Nat) (exponent : Int) (accuracy : Accuracy) :
    roundWithAccuracy .binary64 (-s) mantissa exponent accuracy =
      (roundWithAccuracy .binary64 s mantissa exponent accuracy).neg := by
  simp only [roundWithAccuracy]
  split <;> rfl

theorem unpacked_neg_div (u v : UnpackedFloat) :
    UnpackedFloat.div .binary64 u.neg v = (UnpackedFloat.div .binary64 u v).neg := by
  cases u <;> cases v <;>
    simp only [UnpackedFloat.div, UnpackedFloat.neg, sign_neg_div, roundWithAccuracy_neg]

/-! ## 2. Packing -/

theorem unpack_packComponents_neg (s : Sign) (exponent : BitVec 11) (mantissa : BitVec 52) :
    UnpackedFloat.unpack .binary64 (packComponents .binary64 (-s) exponent mantissa) =
      (UnpackedFloat.unpack .binary64 (packComponents .binary64 s exponent mantissa)).neg := by
  have hsign : Sign.ofBitVec (-s).toBitVec = -Sign.ofBitVec s.toBitVec := by
    cases s <;> rfl
  rw [UnpackedFloat.unpack, UnpackedFloat.unpack]
  simp only [unpackExponent_packComponents, unpackMantissa_packComponents,
    unpackSign_packComponents, hsign]
  split
  · split <;> rfl
  · split
    · split <;> rfl
    · rfl

/-- Packing keeps a change of sign, whatever does not fit into the bits. -/
theorem unpack_pack_neg (u : UnpackedFloat) :
    UnpackedFloat.unpack .binary64 (UnpackedFloat.pack .binary64 u.neg) =
      (UnpackedFloat.unpack .binary64 (UnpackedFloat.pack .binary64 u)).neg := by
  cases u with
  | notANumber =>
    rw [UnpackedFloat.neg, UnpackedFloat.pack, unpack_packedNaN]
    rfl
  | infinity s => exact unpack_packComponents_neg s _ _
  | zero s => exact unpack_packComponents_neg s _ _
  | finite s mantissa exponent hpos =>
    simp only [UnpackedFloat.neg, UnpackedFloat.pack]
    split
    · exact unpack_packComponents_neg s _ _
    · split
      · exact unpack_packComponents_neg s _ _
      · exact unpack_packComponents_neg s _ _

theorem pack_unpack_model (m : Float.Model) : Float.Model.pack m.unpack = m := by
  obtain ⟨bits, hvalid⟩ := m
  have hbits : UnpackedFloat.pack .binary64 (UnpackedFloat.unpack .binary64 bits.toBitVec) =
      bits.toBitVec := pack_unpack hvalid
  simp only [Float.Model.unpack, Float.Model.pack, hbits]

theorem unpack_neg (m : Float.Model) : (-m).unpack = m.unpack.neg := by
  have hneg : (-m).unpack = (Float.Model.pack m.unpack).unpack.neg := unpack_pack_neg m.unpack
  rw [hneg, pack_unpack_model]

theorem neg_pack (u : UnpackedFloat) : -(Float.Model.pack u) = Float.Model.pack u.neg := by
  have hneg : Float.Model.pack (Float.Model.pack u.neg).unpack = -(Float.Model.pack u) :=
    congrArg Float.Model.pack (unpack_pack_neg u)
  rw [← hneg, pack_unpack_model]

/-! ## 3. Doubles -/

/-- A minus sign in front of the dividend is one in front of the quotient. -/
theorem neg_div (x y : Float) : -x / y = -(x / y) := by
  obtain ⟨x⟩ := x
  obtain ⟨y⟩ := y
  have hquotient : UnpackedFloat.div .binary64 (-x).unpack y.unpack =
      (UnpackedFloat.div .binary64 x.unpack y.unpack).neg := by
    rw [unpack_neg, unpacked_neg_div]
  have hmodel : -x / y = -(x / y) := by
    show Float.Model.pack _ = -(Float.Model.pack _)
    rw [hquotient, neg_pack]
  exact congrArg Float.ofModel hmodel

end PocketCalc.Number
