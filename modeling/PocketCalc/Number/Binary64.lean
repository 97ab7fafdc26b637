/-
PocketCalc.Number.Binary64 — doubles as exact numbers.

The finite doubles that are not negative are numbered in increasing order:
zero has rank 0, the least positive double rank 1, and the rank of a
double is its 64-bit pattern read as a number. The least positive double,
2⁻¹⁰⁷⁴, is the quantum: every finite double is a whole number of quanta,
so its value is a natural number and needs no rounding to be held.

`nearestRank` goes the other way: it rounds a quotient of natural numbers
to the nearest double, ties to even, and gives the rank of infinity when
the quotient is too large. Main statement: `nearestRank_quanta`, a double
is its own rounding.
-/
import PocketCalc.Number.Rounding

namespace PocketCalc.Number

/-! ## 1. Ranks -/

/-- How often one is halved to give the quantum. -/
def quantumHalvings : Nat := 1074

/-- Number of quanta in one. -/
def quantaPerUnit : Nat := 2 ^ quantumHalvings

/-- The rank that stands for infinity, one above the largest finite double. -/
def infinityRank : Nat := 0x7FF * 2 ^ (52 : Nat)

/-- The significand of the double of a given rank, as a whole number. -/
def significand (rank : Nat) : Nat :=
  if rank < 2 ^ (52 : Nat) then rank else 2 ^ (52 : Nat) + rank % 2 ^ (52 : Nat)

/-- How often the significand of a double is doubled to give its value. -/
def doublings (rank : Nat) : Nat :=
  rank / 2 ^ (52 : Nat) - 1

/-- The value of the double of a given rank, in quanta. -/
def quanta (rank : Nat) : Nat :=
  significand rank * 2 ^ doublings rank

/-- The rank of the double nearest `num / den`, ties to even, or of infinity
when no finite double is near enough. -/
def nearestRank (num den : Nat) : Nat :=
  let scaled := num * quantaPerUnit
  let dropped := Nat.log2 (scaled / den) - 52
  min (dropped * 2 ^ (52 : Nat) + roundHalfEven scaled (den * 2 ^ dropped)) infinityRank

/-! ## 2. The kinds of double -/

/-- What a double is: not a number, an infinity, or a finite number given by
its sign and the rank of its magnitude. Zero has both signs. -/
inductive Binary64 where
  | nan
  | infinite (negative : Bool)
  | finite (negative : Bool) (rank : Nat)
deriving DecidableEq

/-- Reads the bits of a double. -/
def Binary64.ofFloat (x : Float) : Binary64 :=
  let bits := x.toBits.toNat
  let negative : Bool := 2 ^ (63 : Nat) ≤ bits
  let rank := bits % 2 ^ (63 : Nat)
  if rank < infinityRank then .finite negative rank
  else if rank = infinityRank then .infinite negative
  else .nan

/-- The double of a given rank, zero or positive. -/
def floatOfRank (rank : Nat) : Float :=
  Float.ofBits (UInt64.ofNat rank)

/-! ## 3. Rounding a double changes nothing -/

/-- The rounding depends on the quotient alone. -/
theorem nearestRank_scale (num den : Nat) {k : Nat} (h : 0 < k) :
    nearestRank (num * k) (den * k) = nearestRank num den := by
  have hq : num * k * quantaPerUnit = num * quantaPerUnit * k := Nat.mul_right_comm ..
  have hd : num * quantaPerUnit * k / (den * k) = num * quantaPerUnit / den :=
    Nat.mul_div_mul_right _ _ h
  simp only [nearestRank, hq, hd]
  rw [Nat.mul_right_comm den k, roundHalfEven_scale _ _ h]

theorem quantaPerUnit_pos : 0 < quantaPerUnit := Nat.two_pow_pos quantumHalvings

theorem significand_lt (rank : Nat) : significand rank < 2 ^ (53 : Nat) := by
  have := Nat.mod_lt rank (Nat.two_pow_pos 52)
  simp only [significand]
  split <;> omega

/-- A double is fixed by its significand and its doublings. -/
theorem doublings_significand (rank : Nat) :
    doublings rank * 2 ^ (52 : Nat) + significand rank = rank := by
  have := Nat.div_add_mod rank (2 ^ (52 : Nat))
  simp only [doublings, significand]
  split <;> omega

/-- Only a double with a full significand is doubled. -/
theorem significand_of_doublings_pos {rank : Nat} (h : 0 < doublings rank) :
    2 ^ (52 : Nat) ≤ significand rank := by
  simp only [doublings] at h
  simp only [significand]
  split <;> omega

/-- The doublings can be read off the size of the value. -/
theorem log2_quanta (rank : Nat) : Nat.log2 (quanta rank) - 52 = doublings rank := by
  have hlt := significand_lt rank
  rcases Nat.eq_zero_or_pos (doublings rank) with hzero | hpos
  · have hq : quanta rank < 2 ^ (53 : Nat) := by simpa [quanta, hzero] using hlt
    by_cases hn : quanta rank = 0
    · simp [hn, hzero]
    · have := (Nat.log2_lt hn).mpr hq
      omega
  · have hge := significand_of_doublings_pos hpos
    have hlog : Nat.log2 (quanta rank) = 52 + doublings rank := by
      have hne : quanta rank ≠ 0 :=
        Nat.ne_of_gt (Nat.mul_pos (by omega) (Nat.two_pow_pos _))
      refine (Nat.log2_eq_iff hne).mpr ⟨?_, ?_⟩
      · rw [Nat.pow_add]
        exact Nat.mul_le_mul_right _ hge
      · rw [show 52 + doublings rank + 1 = 53 + doublings rank by omega, Nat.pow_add]
        exact Nat.mul_lt_mul_of_pos_right hlt (Nat.two_pow_pos _)
    omega

/-- A finite double is the double nearest to its own value. -/
theorem nearestRank_quanta {rank : Nat} (h : rank < infinityRank) :
    nearestRank (quanta rank) quantaPerUnit = rank := by
  have hround : roundHalfEven (quanta rank * quantaPerUnit)
      (quantaPerUnit * 2 ^ doublings rank) = significand rank := by
    rw [quanta, Nat.mul_right_comm, Nat.mul_assoc]
    exact roundHalfEven_mul _ (Nat.mul_pos quantaPerUnit_pos (Nat.two_pow_pos _))
  simp only [nearestRank, Nat.mul_div_cancel _ quantaPerUnit_pos, log2_quanta, hround,
    doublings_significand]
  exact Nat.min_eq_left (Nat.le_of_lt h)

end PocketCalc.Number
