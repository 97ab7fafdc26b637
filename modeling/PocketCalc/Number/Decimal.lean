/-
PocketCalc.Number.Decimal — fixed-point decimals and their written form.

A decimal is a whole number of tenths, hundredths, …: `digits` over ten to
the power `places`. Every number the calculator reads or writes is one:
`ofText?` reads the numerals of an expression, `text` writes a number in
full, never with an exponent. Main statement: `ofText?_text`, what is
written is read back as the same decimal, with the same number of places.
-/
import PocketCalc.Number.Binary64
import PocketCalc.Number.Digits

namespace PocketCalc.Number

/-- The number `digits / 10 ^ places`. -/
structure Decimal where
  digits : Nat
  places : Nat
deriving DecidableEq

namespace Decimal

/-! ## 1. Reading -/

/-- Reads a numeral: digits with at most one point among them, before them
or after them. A point alone is no numeral. -/
def ofText? (text : Text) : Option Decimal :=
  let whole := text.takeWhile (· ≠ '.')
  let fraction := (text.dropWhile (· ≠ '.')).drop 1
  if whole ++ fraction ≠ [] ∧ (whole ++ fraction).all Char.isDigit then
    some ⟨valueOf (whole ++ fraction), fraction.length⟩
  else
    none

/-- The rank of the double nearest a decimal. -/
def rank (d : Decimal) : Nat :=
  nearestRank d.digits (10 ^ d.places)

/-- The double nearest a decimal, ties to even; infinity when it is too
large. -/
def toFloat (d : Decimal) : Float :=
  floatOfRank d.rank

/-! ## 2. Writing -/

/-- The part before the point. -/
def whole (d : Decimal) : Nat :=
  d.digits / 10 ^ d.places

/-- The point and the places after it; nothing when there are no places. -/
def fractionText (d : Decimal) : Text :=
  if d.places = 0 then [] else '.' :: digitsPadded d.places d.digits

/-- A decimal in full. -/
def text (d : Decimal) : Text :=
  digitsOf d.whole ++ d.fractionText

/-- Takes final zeros off `places` places of `digits`. -/
def trimPlaces (digits : Nat) : Nat → Decimal
  | 0 => ⟨digits, 0⟩
  | places + 1 =>
    if digits % 10 = 0 then trimPlaces (digits / 10) places else ⟨digits, places + 1⟩

/-- The same number without zeros at the end of its places. -/
def trim (d : Decimal) : Decimal :=
  trimPlaces d.digits d.places

/-- The places stand behind a point, if there are any. -/
theorem fractionText_eq (d : Decimal) :
    d.fractionText =
      if digitsPadded d.places d.digits = [] then []
      else '.' :: digitsPadded d.places d.digits := by
  have hnil : digitsPadded d.places d.digits = [] ↔ d.places = 0 := by
    rw [← List.length_eq_zero_iff, length_digitsPadded]
  simp only [fractionText, hnil]

/-! ## 3. Reading undoes writing -/

/-- The part before the point and the places make up the digits. -/
theorem valueOf_parts (d : Decimal) :
    valueOf (digitsOf d.whole ++ digitsPadded d.places d.digits) = d.digits := by
  rw [valueOf_append_digitsPadded, valueOf_digitsOf, whole, Nat.mul_comm]
  exact Nat.div_add_mod ..

private theorem takeWhile_whole (d : Decimal) :
    d.text.takeWhile (· ≠ '.') = digitsOf d.whole := by
  have hdigit : ∀ c ∈ digitsOf d.whole, decide (c ≠ '.') = true := by
    intro c hc
    have := isDigit_of_mem_digitsOf hc
    refine decide_eq_true fun h => ?_
    subst h
    exact absurd this (by decide)
  rw [text, List.takeWhile_append_of_pos hdigit]
  simp only [fractionText]
  split <;> simp

private theorem dropWhile_whole (d : Decimal) :
    (d.text.dropWhile (· ≠ '.')).drop 1 = digitsPadded d.places d.digits := by
  have hdigit : ∀ c ∈ digitsOf d.whole, decide (c ≠ '.') = true := by
    intro c hc
    have := isDigit_of_mem_digitsOf hc
    refine decide_eq_true fun h => ?_
    subst h
    exact absurd this (by decide)
  rw [text, List.dropWhile_append_of_pos hdigit]
  simp only [fractionText]
  split
  · rename_i h
    simp [h, digitsPadded]
  · simp

/-- A written decimal is read back with its digits and its places. -/
theorem ofText?_text (d : Decimal) : ofText? d.text = some d := by
  have hall : (digitsOf d.whole ++ digitsPadded d.places d.digits).all Char.isDigit = true := by
    simp only [List.all_append, Bool.and_eq_true, List.all_eq_true]
    exact ⟨fun _ => isDigit_of_mem_digitsOf, fun _ => isDigit_of_mem_digitsPadded⟩
  have hne : digitsOf d.whole ++ digitsPadded d.places d.digits ≠ [] := by
    simp [digitsOf_ne_nil]
  simp only [ofText?, takeWhile_whole, dropWhile_whole]
  rw [if_pos ⟨hne, hall⟩, valueOf_parts, length_digitsPadded]

end Decimal

end PocketCalc.Number
