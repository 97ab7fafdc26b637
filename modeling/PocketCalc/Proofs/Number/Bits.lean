/-
PocketCalc.Proofs.Number.Bits — a double is known from its sign and rank.

A double is stored as 64 bits: a sign, eleven bits of exponent and 52 of
mantissa. Its operations unpack the bits, compute, and pack the result, so
a fact about an operation needs that packing undoes unpacking
(`pack_unpack`).

Main statements: `ofBits_toBits`, a double is the double of its own bits;
`isFinite_iff`, the finite doubles are those that have a rank;
`eq_of_ofFloat_finite`, such a double is the one of that rank, negated
when its sign is set; and `exists_rank_of_nonneg`, from zero on only
negative zero has its sign set.
-/
import Mathlib
import PocketCalc.Number.Binary64

namespace PocketCalc.Number

open Float.Model Float.Model.UnpackedFloat

/-! ## 1. The fields of the bits -/

/-- The bits of a double. -/
abbrev Word : Type := BitVec Format.binary64.numBits

variable {b c : Word}

theorem toNat_mantissa (b : Word) :
    (unpackMantissa b).toNat = b.toNat % 2 ^ 52 := by
  simp [unpackMantissa]

theorem toNat_exponent (b : Word) :
    (unpackExponent b).toNat = b.toNat / 2 ^ 52 % 2 ^ 11 := by
  simp [unpackExponent, Nat.shiftRight_eq_div_pow]

theorem toNat_sign (b : Word) :
    (unpackSign b).toNat = b.toNat / 2 ^ 63 % 2 := by
  simp [unpackSign, Nat.shiftRight_eq_div_pow]

/-- The bits are put together from their fields. -/
theorem packComponents_fields {exponent : BitVec 11} {mantissa : BitVec 52}
    (hexponent : unpackExponent b = exponent) (hmantissa : unpackMantissa b = mantissa) :
    packComponents .binary64 (Sign.ofBitVec (unpackSign b)) exponent mantissa = b := by
  subst hexponent hmantissa
  have hsign : (Sign.ofBitVec (unpackSign b)).toBitVec = unpackSign b := by
    generalize unpackSign b = sign
    revert sign
    decide
  apply BitVec.eq_of_toNat_eq
  rw [packComponents, hsign, BitVec.toNat_append, BitVec.toNat_append,
    ← Nat.shiftLeft_add_eq_or_of_lt (BitVec.isLt _),
    ← Nat.shiftLeft_add_eq_or_of_lt (BitVec.isLt _), Nat.shiftLeft_eq, Nat.shiftLeft_eq, toNat_sign, toNat_exponent, toNat_mantissa]
  have := b.isLt
  simp only [Format.numBits] at this ⊢
  omega

/-! ## 2. Packing undoes unpacking -/

/-- A mantissa without its implicit bit is that of a subnormal. -/
theorem pack_subnormal {sign : Sign} {mantissa : BitVec 52} (h : 0 < mantissa.toNat) :
    UnpackedFloat.pack .binary64 (.finite sign mantissa.toNat (-1074) h) =
      packComponents .binary64 sign 0 mantissa := by
  have hlog : ¬ mantissa.toNat.log2 + 1 = Format.binary64.mantissaBits := by
    have : mantissa.toNat.log2 < 52 := (Nat.log2_lt (Nat.ne_of_gt h)).mpr mantissa.isLt
    simp only [Format.mantissaBits]
    omega
  rw [UnpackedFloat.pack]
  simp only [hlog, if_false]
  rw [if_neg (by decide), BitVec.ofNat_toNat, BitVec.setWidth_eq]
  rfl

/-- A mantissa with its implicit bit keeps its exponent. -/
theorem pack_normal {sign : Sign} {exponent : BitVec 11} {mantissa : BitVec 52}
    (hlow : 0 < exponent.toNat) (hhigh : exponent.toNat < 2 ^ 11 - 1)
    (hpos : 0 < 2 ^ 52 + mantissa.toNat) :
    UnpackedFloat.pack .binary64
        (.finite sign (2 ^ 52 + mantissa.toNat) (exponent.toNat - 1075 : Int) hpos) =
      packComponents .binary64 sign exponent mantissa := by
  have hlog : (2 ^ 52 + mantissa.toNat).log2 = 52 := by
    have := mantissa.isLt
    exact (Nat.log2_eq_iff (by omega)).mpr ⟨by omega, by omega⟩
  have hbiased : ((exponent.toNat - 1075 : Int) + Format.binary64.exponentBias +
      Format.binary64.mantissaBitsWithoutImplicit).toNat = exponent.toNat := by
    simp only [Format.exponentBias]
    omega
  rw [UnpackedFloat.pack]
  simp only [hlog, hbiased]
  rw [if_neg (by omega), if_pos (by decide), BitVec.ofNat_toNat, BitVec.setWidth_eq]
  congr 1
  apply BitVec.eq_of_toNat_eq
  have := mantissa.isLt
  rw [BitVec.toNat_ofNat]
  omega

theorem pack_unpack (h : Format.binary64.Valid b) :
    UnpackedFloat.pack .binary64 (UnpackedFloat.unpack .binary64 b) = b := by
  rw [UnpackedFloat.unpack]
  by_cases hspecial : unpackExponent b = -1#11
  · by_cases hzero : unpackMantissa b = 0#52
    · simp only [hspecial, hzero, if_true]
      exact packComponents_fields hspecial hzero
    · simp only [hspecial, hzero, if_true, if_false]
      exact (h.eq_packedNaN hspecial hzero).symm
  · by_cases hsmall : unpackExponent b = 0#11
    · by_cases hzero : unpackMantissa b = 0#52
      · simp only [hsmall, hzero]
        exact packComponents_fields hsmall hzero
      · have hpos : 0 < (unpackMantissa b).toNat := by
          simpa [BitVec.toNat_pos, BitVec.pos_iff_ne_zero] using hzero
        simp only [hsmall, hzero]
        exact (pack_subnormal hpos).trans (packComponents_fields hsmall rfl)
    · have hlow : 0 < (unpackExponent b).toNat := by
        simpa [BitVec.toNat_pos, BitVec.pos_iff_ne_zero] using hsmall
      have hhigh : (unpackExponent b).toNat < 2 ^ 11 - 1 := by
        have hlt := (unpackExponent b).isLt
        have hne : (unpackExponent b).toNat ≠ 2 ^ 11 - 1 := by
          intro heq
          exact hspecial (BitVec.eq_of_toNat_eq heq)
        simp only at hlt
        omega
      have happend : (1#1 ++ unpackMantissa b).toNat = 2 ^ 52 + (unpackMantissa b).toNat := by
        rw [BitVec.toNat_append, ← Nat.shiftLeft_add_eq_or_of_lt (BitVec.isLt _)]
        rfl
      simp only [hspecial, hsmall, if_false, happend]
      exact (pack_normal hlow hhigh (by omega)).trans (packComponents_fields rfl rfl)

/-- A double is the double of its own bits. -/
theorem ofBits_toBits (x : Float) : Float.ofBits x.toBits = x := by
  obtain ⟨⟨bits, hvalid⟩⟩ := x
  have hbits : UnpackedFloat.pack .binary64 (UnpackedFloat.unpack .binary64 bits.toBitVec) =
      bits.toBitVec := pack_unpack hvalid
  simp only [Float.ofBits, Float.toBits, Float.Model.ofBits, Float.Model.pack, hbits]

/-! ## 3. Finite doubles -/

/-- The exponent of a word is the largest one exactly when its rank is not that of a finite
double. -/
theorem exponent_eq_iff (b : Word) :
    unpackExponent b = -1#11 ↔ infinityRank ≤ b.toNat % 2 ^ 63 := by
  have hlargest : (-1#11 : BitVec 11).toNat = 2 ^ 11 - 1 := rfl
  rw [← BitVec.toNat_inj, toNat_exponent, hlargest, infinityRank]
  have := b.isLt
  simp only [Format.numBits] at this
  omega

theorem isFinite_unpack (b : Word) :
    (UnpackedFloat.unpack .binary64 b).isFinite = true ↔ b.toNat % 2 ^ 63 < infinityRank := by
  rw [← Nat.not_le, ← exponent_eq_iff, UnpackedFloat.unpack]
  by_cases hspecial : unpackExponent b = -1#11
  · by_cases hzero : unpackMantissa b = 0#52
    · simp [hspecial, hzero, UnpackedFloat.isFinite]
    · simp [hspecial, hzero, UnpackedFloat.isFinite]
  · simp only [hspecial, if_false, not_false_iff, iff_true]
    split
    · split <;> rfl
    · rfl

/-- The sign and the rank of a finite double are its bits. -/
theorem ofFloat_eq_finite_iff {x : Float} {negative : Bool} {rank : Nat} :
    Binary64.ofFloat x = .finite negative rank ↔
      x.toBits.toNat = (if negative then 2 ^ 63 else 0) + rank ∧ rank < infinityRank := by
  have hbits : x.toBits.toNat < 2 ^ 64 := x.toBits.toNat_lt
  simp only [Binary64.ofFloat]
  constructor
  · intro h
    split at h
    · rename_i hrank
      obtain ⟨rfl, rfl⟩ := Binary64.finite.inj h
      refine ⟨?_, hrank⟩
      by_cases hsign : 2 ^ 63 ≤ x.toBits.toNat
      · simp only [hsign, decide_true, if_true]
        omega
      · simp only [hsign, decide_false, Bool.false_eq_true, if_false]
        omega
    · split at h <;> cases h
  · rintro ⟨h, hrank⟩
    have hsmall : rank < 2 ^ 63 := Nat.lt_trans hrank (by decide)
    have hmod : x.toBits.toNat % 2 ^ 63 = rank := by
      rw [h]
      cases negative <;> simp <;> omega
    have hsign : decide (2 ^ 63 ≤ x.toBits.toNat) = negative := by
      rw [h]
      cases negative <;> simp
      omega
    simp only [hmod, hsign, hrank, if_true]

/-- The finite doubles are those that have a rank. -/
theorem isFinite_iff (x : Float) :
    x.isFinite = true ↔ ∃ negative rank, Binary64.ofFloat x = .finite negative rank := by
  have hfinite : x.isFinite = true ↔ x.toBits.toNat % 2 ^ 63 < infinityRank :=
    isFinite_unpack x.toBits.toBitVec
  rw [hfinite]
  constructor
  · intro hrank
    exact ⟨_, _, if_pos hrank⟩
  · rintro ⟨negative, rank, h⟩
    obtain ⟨hbits, hrank⟩ := ofFloat_eq_finite_iff.mp h
    have hsmall : rank < 2 ^ 63 := Nat.lt_trans hrank (by decide)
    rw [hbits]
    cases negative <;> simp <;> omega

/-! ## 4. The sign bit -/

/-- Setting the sign bit is negation. -/
theorem unpack_of_sign (h : c.toNat = 2 ^ 63 + b.toNat) :
    UnpackedFloat.unpack .binary64 c = (UnpackedFloat.unpack .binary64 b).neg := by
  have hlt := c.isLt
  simp only [Format.numBits] at hlt
  have hexponent : unpackExponent c = unpackExponent b := by
    apply BitVec.eq_of_toNat_eq
    rw [toNat_exponent, toNat_exponent, h]
    omega
  have hmantissa : unpackMantissa c = unpackMantissa b := by
    apply BitVec.eq_of_toNat_eq
    rw [toNat_mantissa, toNat_mantissa, h]
    omega
  have hset : unpackSign c = 1#1 := by
    apply BitVec.eq_of_toNat_eq
    rw [toNat_sign, h]
    show _ = 1
    omega
  have hunset : unpackSign b = 0#1 := by
    apply BitVec.eq_of_toNat_eq
    rw [toNat_sign]
    show _ = 0
    omega
  rw [UnpackedFloat.unpack, UnpackedFloat.unpack]
  simp only [hexponent, hmantissa, hset, hunset]
  split
  · split <;> rfl
  · split
    · split <;> rfl
    · rfl

theorem toNat_toBits_floatOfRank {rank : Nat} (h : rank < infinityRank) :
    (floatOfRank rank).toBits.toNat = rank := by
  have hsmall : rank < 2 ^ 63 := Nat.lt_trans h (by decide)
  have hword : (UInt64.ofNat rank).toBitVec.toNat = rank := by
    show rank % 2 ^ 64 = rank
    omega
  have hvalid : Format.binary64.Valid (UInt64.ofNat rank).toBitVec := by
    refine ⟨fun hspecial _ => ?_⟩
    rw [exponent_eq_iff, hword] at hspecial
    omega
  have hbits : (floatOfRank rank).toBits = UInt64.ofNat rank :=
    UInt64.toBitVec_inj.mp (pack_unpack hvalid)
  rw [hbits]
  exact hword

/-- A finite double is the one of its rank, negated when its sign is set. -/
theorem eq_of_ofFloat_finite {x : Float} {negative : Bool} {rank : Nat}
    (h : Binary64.ofFloat x = .finite negative rank) :
    x = if negative then -(floatOfRank rank) else floatOfRank rank := by
  obtain ⟨hbits, hrank⟩ := ofFloat_eq_finite_iff.mp h
  cases negative with
  | false =>
    simp only [Bool.false_eq_true, if_false, Nat.zero_add] at hbits ⊢
    rw [floatOfRank, ← hbits, UInt64.ofNat_toNat, ofBits_toBits]
  | true =>
    simp only [if_true] at hbits ⊢
    have hword : x.toBits.toBitVec.toNat =
        2 ^ 63 + (floatOfRank rank).toBits.toBitVec.toNat := by
      rw [UInt64.toNat_toBitVec, UInt64.toNat_toBitVec, toNat_toBits_floatOfRank hrank, hbits]
    have hneg := unpack_of_sign hword
    show x = Float.ofModel (Float.Model.pack
      (UnpackedFloat.unpack .binary64 (floatOfRank rank).toBits.toBitVec).neg)
    rw [← hneg]
    exact (ofBits_toBits x).symm

/-- Of the words with their sign bit set only that of negative zero is at least zero. -/
theorem not_zero_le_unpack (hsign : 2 ^ 63 ≤ b.toNat) (hne : b.toNat ≠ 2 ^ 63) :
    (UnpackedFloat.zero .positive).le (UnpackedFloat.unpack .binary64 b) = false := by
  have hlt := b.isLt
  simp only [Format.numBits] at hlt
  have hset : unpackSign b = 1#1 := by
    apply BitVec.eq_of_toNat_eq
    rw [toNat_sign]
    show _ = 1
    omega
  have hfields : unpackExponent b = 0#11 → unpackMantissa b ≠ 0#52 := by
    intro hexponent hmantissa
    have hhigh := congrArg BitVec.toNat hexponent
    have hlow := congrArg BitVec.toNat hmantissa
    rw [toNat_exponent] at hhigh
    rw [toNat_mantissa] at hlow
    simp only [BitVec.toNat_ofNat, Nat.zero_mod] at hhigh hlow
    omega
  rw [UnpackedFloat.unpack]
  simp only [hset]
  split
  · split <;> rfl
  · split
    · rename_i hexponent
      rw [dif_neg (hfields hexponent)]
      rfl
    · rfl

/-- A finite double that is not negative and not negative zero has its sign bit unset. -/
theorem exists_rank_of_nonneg {x : Float} (hfinite : x.isFinite = true) (hx : 0 ≤ x)
    (hzero : x ≠ -0) : ∃ rank, Binary64.ofFloat x = .finite false rank := by
  obtain ⟨negative, rank, h⟩ := (isFinite_iff x).mp hfinite
  cases negative with
  | false => exact ⟨rank, h⟩
  | true =>
    obtain ⟨hbits, -⟩ := ofFloat_eq_finite_iff.mp h
    have hrank : rank ≠ 0 := by
      rintro rfl
      exact hzero (eq_of_ofFloat_finite h)
    have hword : x.toBits.toBitVec.toNat = 2 ^ 63 + rank := hbits
    have hle : (UnpackedFloat.zero .positive).le
        (UnpackedFloat.unpack .binary64 x.toBits.toBitVec) = true := of_decide_eq_true hx
    rw [not_zero_le_unpack (by omega) (by omega)] at hle
    cases hle

end PocketCalc.Number
