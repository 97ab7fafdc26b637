/-
PocketCalc.Number.Rounding — a quotient of natural numbers rounded to the
nearest whole number, ties to even.

Every rounding of the calculator is this one: decimals to doubles, results
to ten decimals, results to a number of significant digits.
-/

namespace PocketCalc.Number

-- Within this namespace a power of natural numbers is that of the core library, also where an
-- algebra of powers is imported. A literal exponent is marked as a natural number for this.
attribute [scoped instance (high)] instPowNat

/-- The whole number nearest `num / den`; of two equally near, the even one. -/
def roundHalfEven (num den : Nat) : Nat :=
  let floor := num / den
  let left := num % den
  if 2 * left < den ∨ (2 * left = den ∧ floor % 2 = 0) then floor else floor + 1

/-- A quotient without remainder is its own rounding. -/
theorem roundHalfEven_mul (n : Nat) {den : Nat} (h : 0 < den) :
    roundHalfEven (n * den) den = n := by
  simp [roundHalfEven, Nat.mul_div_cancel _ h, h]

/-- Rounding depends on the quotient alone. -/
theorem roundHalfEven_scale (num den : Nat) {k : Nat} (h : 0 < k) :
    roundHalfEven (num * k) (den * k) = roundHalfEven num den := by
  have hdiv : num * k / (den * k) = num / den := Nat.mul_div_mul_right _ _ h
  have hmod : num * k % (den * k) = num % den * k := Nat.mul_mod_mul_right ..
  have hlt : 2 * (num % den * k) < den * k ↔ 2 * (num % den) < den := by
    rw [← Nat.mul_assoc]
    exact Nat.mul_lt_mul_right h
  have heq : 2 * (num % den * k) = den * k ↔ 2 * (num % den) = den := by
    rw [← Nat.mul_assoc]
    exact Nat.mul_left_inj (Nat.ne_of_gt h)
  simp only [roundHalfEven, hdiv, hmod, hlt, heq]

/-- The rounding is within half a unit of the quotient. -/
theorem roundHalfEven_bounds (num : Nat) {den : Nat} (h : 0 < den) :
    2 * num ≤ (2 * roundHalfEven num den + 1) * den ∧
      2 * roundHalfEven num den * den ≤ 2 * num + den := by
  have hsum := Nat.div_add_mod num den
  have hcomm : den * (num / den) = num / den * den := Nat.mul_comm ..
  simp only [roundHalfEven]
  split
  · rename_i hcase
    constructor
    · rw [Nat.add_mul, Nat.mul_assoc]; omega
    · rw [Nat.mul_assoc]; omega
  · rename_i hcase
    have hmod := Nat.mod_lt num h
    constructor
    · rw [Nat.add_mul, Nat.mul_assoc, Nat.add_mul]; omega
    · rw [Nat.mul_assoc, Nat.add_mul]; omega

end PocketCalc.Number
