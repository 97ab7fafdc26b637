/-
PocketCalc.Proofs.Number.Exact — the exact value of a double, and the
whole number nearest to it.

A finite double stands for a rational number: its mantissa times a power
of two. `exactValue` reads that off the fields of the double, as the
standard lays them out, and knows nothing of ranks and quanta.
`exactValue_eq` says that it is the number of quanta of its rank, so what
is computed in whole quanta is computed exactly.

`Nearest` says which whole number is nearest to a rational, the even one
of two that are equally near; there is just one (`roundEven_eq_iff`). The
quotients of natural numbers are rounded to it (`roundEven_div`).
-/
import PocketCalc.Proofs.Number.Bits

namespace PocketCalc.Number

open Float.Model Float.Model.UnpackedFloat

/-! ## 1. Exact values -/

/-- The rational number that a double in its fields stands for; zero where it is none. -/
def unpackedValue : UnpackedFloat → ℚ
  | .finite sign mantissa exponent _ => sign.apply mantissa * 2 ^ exponent
  | _ => 0

/-- The rational number that a finite double stands for. -/
def exactValue (x : Float) : ℚ :=
  unpackedValue (UnpackedFloat.unpack .binary64 x.toBits.toBitVec)

/-- A rational number with its sign set or unset. -/
def signed (negative : Bool) (q : ℚ) : ℚ :=
  if negative then -q else q

theorem signed_mul (negative : Bool) (q r : ℚ) :
    signed negative q * r = signed negative (q * r) := by
  cases negative <;> simp [signed]

/-- The mantissa of a double, without its implicit bit and with it, and its exponent. -/
theorem quanta_eq (rank : Nat) :
    quanta rank =
      if rank / 2 ^ 52 = 0 then rank % 2 ^ 52
      else (2 ^ 52 + rank % 2 ^ 52) * 2 ^ (rank / 2 ^ 52 - 1) := by
  have hsmall : rank < 2 ^ 52 ↔ rank / 2 ^ 52 = 0 := by omega
  simp only [quanta, significand, doublings, hsmall]
  split
  · rename_i h
    rw [h, Nat.mod_eq_of_lt (hsmall.mpr h), Nat.zero_sub, Nat.pow_zero, Nat.mul_one]
  · rfl

/-- The value of the fields, where they are those of a finite double. A mantissa has its
implicit bit unless the exponent is the least. -/
theorem unpackedValue_unpack {b : Word} (h : unpackExponent b ≠ -1#11) :
    unpackedValue (UnpackedFloat.unpack .binary64 b) =
      signed (unpackSign b = 1#1)
        (if unpackExponent b = 0#11 then (unpackMantissa b).toNat * 2 ^ (-1074 : ℤ)
         else (2 ^ 52 + (unpackMantissa b).toNat) * 2 ^ ((unpackExponent b).toNat - 1075 : ℤ)) := by
  have hsign (q : ℚ) (n : Nat) : ((Sign.ofBitVec (unpackSign b)).apply n : ℤ) * q =
      signed (unpackSign b = 1#1) (n * q) := by
    generalize unpackSign b = sign
    rcases (show sign = 0#1 ∨ sign = 1#1 by revert sign; decide) with rfl | rfl
    · simp [signed, Sign.ofBitVec, Sign.apply]
    · simp [signed, Sign.ofBitVec, Sign.apply]
  have happend : (1#1 ++ unpackMantissa b).toNat = 2 ^ 52 + (unpackMantissa b).toNat := by
    rw [BitVec.toNat_append, ← Nat.shiftLeft_add_eq_or_of_lt (BitVec.isLt _)]
    rfl
  rw [UnpackedFloat.unpack]
  simp only [h, if_false]
  by_cases hsmall : unpackExponent b = 0#11
  · by_cases hzero : unpackMantissa b = 0#52
    · simp [hsmall, hzero, unpackedValue, signed]
    · simp only [hsmall, hzero, if_true, dif_neg, not_false_iff, unpackedValue, hsign]
      rfl
  · simp only [hsmall, if_false, unpackedValue, hsign, happend]
    push_cast
    rfl

/-- Quanta are halved as often as one is halved to give the quantum. -/
theorem quanta_div (rank : Nat) :
    (quanta rank / quantaPerUnit : ℚ) =
      if rank / 2 ^ 52 = 0 then ((rank % 2 ^ 52 : Nat) : ℚ) * 2 ^ (-1074 : ℤ)
      else (2 ^ 52 + ((rank % 2 ^ 52 : Nat) : ℚ)) * 2 ^ (((rank / 2 ^ 52 : Nat) : ℤ) - 1075) := by
  have hunit : (quantaPerUnit : ℚ) = 2 ^ (1074 : ℤ) := by
    rw [quantaPerUnit, Nat.cast_pow, ← zpow_natCast]
    rfl
  rw [hunit, quanta_eq, div_eq_mul_inv, ← zpow_neg]
  split
  · rfl
  · rename_i h
    have hexponent : ((rank / 2 ^ 52 : Nat) : ℤ) - 1075 =
        ((rank / 2 ^ 52 - 1 : Nat) : ℤ) + -1074 := by
      omega
    rw [hexponent, zpow_add₀ two_ne_zero, zpow_natCast, ← mul_assoc]
    simp only [Nat.cast_mul, Nat.cast_add, Nat.cast_pow, Nat.cast_ofNat]

theorem unpackedValue_of_toNat {b : Word} {negative : Bool} {rank : Nat}
    (hb : b.toNat = (if negative then 2 ^ 63 else 0) + rank) (hrank : rank < infinityRank) :
    unpackedValue (UnpackedFloat.unpack .binary64 b) =
      signed negative (quanta rank / quantaPerUnit) := by
  have hlt : rank < 0x7FF * 2 ^ 52 := hrank
  have hexponent : (unpackExponent b).toNat = rank / 2 ^ 52 := by
    rw [toNat_exponent, hb]
    split <;> omega
  have hmantissa : (unpackMantissa b).toNat = rank % 2 ^ 52 := by
    rw [toNat_mantissa, hb]
    split <;> omega
  have hsign : decide (unpackSign b = 1#1) = negative := by
    simp only [← BitVec.toNat_inj, toNat_sign, hb]
    cases negative <;> simp <;> omega
  have hzero : unpackExponent b = 0#11 ↔ rank / 2 ^ 52 = 0 := by
    rw [← BitVec.toNat_inj, hexponent]
    rfl
  have hspecial : unpackExponent b ≠ -1#11 := by
    intro h
    have hlargest : (unpackExponent b).toNat = 2 ^ 11 - 1 := congrArg BitVec.toNat h
    omega
  rw [unpackedValue_unpack hspecial, quanta_div]
  simp only [hsign, hzero, hexponent, hmantissa]

/-- The value of a finite double is the number of quanta of its rank, with its sign. -/
theorem exactValue_eq {x : Float} {negative : Bool} {rank : Nat}
    (h : Binary64.ofFloat x = .finite negative rank) :
    exactValue x = signed negative (quanta rank / quantaPerUnit) := by
  obtain ⟨hbits, hrank⟩ := ofFloat_eq_finite_iff.mp h
  exact unpackedValue_of_toNat hbits hrank

/-! ## 2. The nearest whole number -/

/-- `n` is a whole number nearest to `q`, and an even one if there is another. -/
structure Nearest (q : ℚ) (n : ℤ) : Prop where
  near : |q - n| ≤ 1 / 2
  even : |q - n| = 1 / 2 → Even n

/-- The whole number nearest to `q`; of two equally near, the even one. -/
def roundEven (q : ℚ) : ℤ :=
  if 2 * Int.fract q < 1 ∨ (2 * Int.fract q = 1 ∧ Even ⌊q⌋) then ⌊q⌋ else ⌊q⌋ + 1

theorem Nearest.unique {q : ℚ} {m n : ℤ} (hm : Nearest q m) (hn : Nearest q n) : m = n := by
  have hmnear := hm.near
  have hnnear := hn.near
  have htriangle : |(m - n : ℚ)| ≤ |q - m| + |q - n| := by
    rw [abs_sub_comm q m]
    exact abs_sub_le _ _ _
  have hnext : |m - n| ≤ 1 := by
    have : |(m - n : ℚ)| ≤ 1 := by linarith
    exact_mod_cast this
  by_contra hne
  -- Two of them would be neighbours, both half a unit away, and so both even.
  have hapart : (1 : ℚ) ≤ |(m - n : ℚ)| := by
    exact_mod_cast Int.one_le_abs (sub_ne_zero.mpr hne)
  have hmeven : Even m := hm.even (by linarith)
  have hneven : Even n := hn.even (by linarith)
  obtain ⟨a, ha⟩ := hmeven
  obtain ⟨b, hb⟩ := hneven
  have hbounds := abs_le.mp hnext
  omega

theorem nearest_roundEven (q : ℚ) : Nearest q (roundEven q) := by
  have hsum := Int.floor_add_fract q
  have hnonneg := Int.fract_nonneg q
  have hlt := Int.fract_lt_one q
  unfold roundEven
  split
  · rename_i h
    have habs : |q - ⌊q⌋| = Int.fract q := by
      rw [Int.self_sub_floor, Int.abs_fract]
    refine ⟨by rw [habs]; rcases h with h | h <;> linarith, fun heq => ?_⟩
    rw [habs] at heq
    rcases h with h | h
    · linarith
    · exact h.2
  · rename_i h
    obtain ⟨hge, htie⟩ := not_or.mp h
    have habs : |q - (⌊q⌋ + 1 : ℤ)| = 1 - Int.fract q := by
      rw [abs_of_nonpos (by push_cast; linarith)]
      push_cast
      linarith
    refine ⟨by rw [habs]; linarith, fun heq => ?_⟩
    rw [habs] at heq
    have hodd : ¬ Even ⌊q⌋ := fun heven => htie ⟨by linarith, heven⟩
    exact Int.even_add_one.mpr hodd

/-- The rounding is the nearest whole number, however it is found. -/
theorem roundEven_eq_iff {q : ℚ} {n : ℤ} : roundEven q = n ↔ Nearest q n := by
  refine ⟨?_, fun h => (nearest_roundEven q).unique h⟩
  rintro rfl
  exact nearest_roundEven q

/-- Rounding looks at the magnitude only. -/
theorem roundEven_neg (q : ℚ) : roundEven (-q) = -roundEven q := by
  have h := nearest_roundEven q
  have habs : |-q - (-roundEven q : ℤ)| = |q - roundEven q| := by
    rw [Int.cast_neg, neg_sub_neg, abs_sub_comm]
  exact roundEven_eq_iff.mpr ⟨habs ▸ h.near, fun heq => (h.even (habs ▸ heq)).neg⟩

/-- Numbers that are not negative are not rounded to one that is. -/
theorem roundEven_nonneg {q : ℚ} (h : 0 ≤ q) : 0 ≤ roundEven q := by
  have hfloor := Int.floor_nonneg.mpr h
  unfold roundEven
  split <;> omega

/-- What is rounded to a negative number is one, and so is not rounded to zero. -/
theorem roundEven_neg_iff {q : ℚ} : roundEven q < 0 ↔ q < 0 ∧ roundEven q ≠ 0 := by
  constructor
  · intro h
    exact ⟨lt_of_not_ge fun hq => (roundEven_nonneg hq).not_gt h, h.ne⟩
  · intro ⟨hq, hne⟩
    have hnonneg := roundEven_nonneg (neg_nonneg.mpr hq.le)
    rw [roundEven_neg] at hnonneg
    omega

/-- Quotients of natural numbers are rounded to the nearest whole number. -/
theorem roundEven_div (num : Nat) {den : Nat} (h : 0 < den) :
    roundEven (num / den) = roundHalfEven num den := by
  have hden : (0 : ℚ) < den := by exact_mod_cast h
  have hfloor : ⌊(num / den : ℚ)⌋ = (num / den : Nat) := by
    rw [Rat.floor_natCast_div_natCast, Int.natCast_div]
  have hlt : 2 * ((num % den : Nat) / den : ℚ) < 1 ↔ 2 * (num % den) < den := by
    rw [mul_div_assoc', div_lt_one hden]
    norm_cast
  have heq : 2 * ((num % den : Nat) / den : ℚ) = 1 ↔ 2 * (num % den) = den := by
    rw [mul_div_assoc', div_eq_one_iff_eq hden.ne']
    norm_cast
  have heven : Even ((num / den : Nat) : ℤ) ↔ num / den % 2 = 0 := by
    rw [Int.even_coe_nat, Nat.even_iff]
  simp only [roundEven, roundHalfEven, hfloor, Int.fract_div_natCast_eq_div_natCast_mod, hlt, heq,
    heven]
  split <;> simp

end PocketCalc.Number
