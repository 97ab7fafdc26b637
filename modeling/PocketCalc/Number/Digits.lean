/-
PocketCalc.Number.Digits — decimal digits of natural numbers.

`digitsOf` writes a number without leading zeros, `digitsPadded` writes
its last digits in a fixed width, `valueOf` reads digits back. Reading is
the left inverse of both ways of writing.
-/
import PocketCalc.Text

namespace PocketCalc.Number

/-! ## 1. Single digits -/

/-- The character of a digit. -/
def digitChar (n : Nat) : Char :=
  Char.ofNat (48 + n % 10)

/-- Whether a character belongs to a numeral. -/
def isNumeralChar (c : Char) : Bool :=
  c.isDigit || c = '.'

/-- The value of a digit character. -/
def digitValue (c : Char) : Nat :=
  c.toNat - 48

theorem digitValue_digitChar (n : Nat) : digitValue (digitChar n) = n % 10 := by
  have hn : n % 10 < 10 := Nat.mod_lt _ (by decide)
  have h : ∀ k < 10, digitValue (Char.ofNat (48 + k)) = k := by decide
  exact h _ hn

@[simp] theorem isDigit_digitChar (n : Nat) : (digitChar n).isDigit = true := by
  have hn : n % 10 < 10 := Nat.mod_lt _ (by decide)
  have h : ∀ k < 10, (Char.ofNat (48 + k)).isDigit = true := by decide
  exact h _ hn

/-! ## 2. Writing -/

/-- The digits of a number, most significant first, without leading zeros;
zero is written `0`. -/
def digitsOf (n : Nat) : Text :=
  if n < 10 then [digitChar n] else digitsOf (n / 10) ++ [digitChar n]

/-- The last `width` digits of a number, zeros included. -/
def digitsPadded : Nat → Nat → Text
  | 0, _ => []
  | width + 1, n => digitsPadded width (n / 10) ++ [digitChar n]

/-- How many digits a number has; zero has none. -/
def digitCount (n : Nat) : Nat :=
  if n = 0 then 0 else digitCount (n / 10) + 1

/-! ## 3. Reading -/

/-- The number whose digits are given, most significant first. -/
def valueOf (digits : Text) : Nat :=
  digits.foldl (fun value c => 10 * value + digitValue c) 0

theorem valueOf_append_singleton (digits : Text) (c : Char) :
    valueOf (digits ++ [c]) = 10 * valueOf digits + digitValue c := by
  simp [valueOf]

/-- Reading undoes writing. -/
theorem valueOf_digitsOf (n : Nat) : valueOf (digitsOf n) = n := by
  fun_induction digitsOf n with
  | case1 n h => simp [valueOf, digitValue_digitChar, Nat.mod_eq_of_lt h]
  | case2 n h ih => rw [valueOf_append_singleton, ih, digitValue_digitChar]; omega

/-- Padded digits of the low part follow the digits of the high part. -/
theorem valueOf_append_digitsPadded (digits : Text) (width n : Nat) :
    valueOf (digits ++ digitsPadded width n) = valueOf digits * 10 ^ width + n % 10 ^ width := by
  induction width generalizing n with
  | zero => simp [digitsPadded, Nat.mod_one]
  | succ width ih =>
    rw [digitsPadded, ← List.append_assoc, valueOf_append_singleton, ih, digitValue_digitChar,
      Nat.pow_succ, Nat.mul_comm (10 ^ width) 10, Nat.mod_mul, Nat.mul_add, ← Nat.mul_assoc,
      Nat.mul_comm 10 (valueOf digits), Nat.mul_assoc]
    omega

/-! ## 4. Shape of what is written -/

theorem digitsOf_ne_nil (n : Nat) : digitsOf n ≠ [] := by
  rw [digitsOf]; split <;> simp

theorem isDigit_of_mem_digitsOf {n : Nat} {c : Char} (h : c ∈ digitsOf n) : c.isDigit = true := by
  fun_induction digitsOf n with
  | case1 n _ => simp only [List.mem_singleton] at h; simp [h]
  | case2 n _ ih =>
    rcases List.mem_append.mp h with h | h
    · exact ih h
    · simp only [List.mem_singleton] at h; simp [h]

theorem isDigit_of_mem_digitsPadded {width n : Nat} {c : Char} (h : c ∈ digitsPadded width n) :
    c.isDigit = true := by
  induction width generalizing n with
  | zero => simp [digitsPadded] at h
  | succ width ih =>
    rcases List.mem_append.mp h with h | h
    · exact ih h
    · simp only [List.mem_singleton] at h; simp [h]

@[simp] theorem length_digitsPadded (width n : Nat) : (digitsPadded width n).length = width := by
  induction width generalizing n with
  | zero => rfl
  | succ width ih => simp [digitsPadded, ih]

end PocketCalc.Number
