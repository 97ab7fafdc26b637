/-
PocketCalc.Number.Result — the two texts of a result.

`display` is what the user reads: at most ten decimals, thousands
separators, `Error` when there is no finite result. `reentry` is what is
put back into the entry line to go on calculating: it has no separators
and reads back as the same number.
-/
import PocketCalc.Number.Shortest
import PocketCalc.Number.Grouping

namespace PocketCalc.Number

/-! ## 1. The displayed text -/

/-- What is displayed for a result that is not a finite number. -/
def errorText : Text := "Error".toList

/-- Most decimals that are displayed. -/
def displayedPlaces : Nat := 10

/-- The magnitude of the double of a given rank, rounded to the displayed
decimals, ties to even. Zeros at the end are dropped. -/
def displayedDecimal (rank : Nat) : Decimal :=
  Decimal.trim ⟨roundHalfEven (quanta rank * 10 ^ displayedPlaces) quantaPerUnit, displayedPlaces⟩

/-- The text displayed for a result. What is displayed as zero has no sign. -/
def display (x : Float) : Text :=
  match Binary64.ofFloat x with
  | .finite negative rank =>
    let shown := displayedDecimal rank
    signText (negative && shown.digits ≠ 0) ++ group (digitsOf shown.whole) ++ shown.fractionText
  | _ => errorText

/-! ## 2. The text put back -/

/-- The whole number that the double of a given rank is, if it is one that
fits in sixty-three bits. -/
def smallWhole? (rank : Nat) : Option Nat :=
  let whole := quanta rank / quantaPerUnit
  if quanta rank % quantaPerUnit = 0 ∧ whole < 2 ^ (63 : Nat) then some whole else none

/-- The text that stands for a result in the entry line: the digits of a
whole number below 2⁶³, where zero has no sign, else the shortest decimal. -/
def reentry (x : Float) : Text :=
  match Binary64.ofFloat x with
  | .finite negative rank =>
    match smallWhole? rank with
    | some whole => signText (negative && whole ≠ 0) ++ digitsOf whole
    | none => floatText x
  | _ => floatText x

end PocketCalc.Number
