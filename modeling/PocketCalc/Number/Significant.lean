/-
PocketCalc.Number.Significant — doubles to a number of significant digits.

The form is scientific: one digit, a point and the other digits, the
letter `e` and the power of ten without sign or padding when it is not
negative. The exact value is rounded, ties to even.
-/
import PocketCalc.Number.Shortest

namespace PocketCalc.Number

/-- A whole number that may be negative, in decimal. -/
def intText (n : Int) : Text :=
  signText (n < 0) ++ digitsOf n.natAbs

/-- The number `digits · 10 ^ (order - size + 1)`, where `digits` has
`size` digits, in scientific form. -/
def scientificForm (digits size : Nat) (order : Int) : Text :=
  let written := digitsPadded size digits
  let fraction := if size ≤ 1 then [] else '.' :: written.drop 1
  written.take 1 ++ fraction ++ 'e' :: intText order

/-- The double of a given rank, not zero, to `size` significant digits. When
rounding carries into a new digit, the power of ten grows by one. -/
def roundedText (size rank : Nat) : Text :=
  let order := decimalOrder (quanta rank) quantaPerUnit
  let (num, den) := inUnits (quanta rank) quantaPerUnit (order - (size - 1 : Nat))
  let rounded := roundHalfEven num den
  if rounded = 10 ^ size then scientificForm (rounded / 10) size (order + 1)
  else scientificForm rounded size order

/-- A double to `size` significant digits, at least one. Zeros, infinities
and what is not a number have no digits to round and are written in full. -/
def significantText (size : Nat) (x : Float) : Text :=
  match Binary64.ofFloat x with
  | .finite negative rank =>
    if rank = 0 then floatText x else signText negative ++ roundedText (max 1 size) rank
  | _ => floatText x

end PocketCalc.Number
