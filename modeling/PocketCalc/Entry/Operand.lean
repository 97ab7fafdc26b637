/-
PocketCalc.Entry.Operand — keys that act on the last operand.

The sign key puts the last number in parentheses behind a minus sign, and
takes them off again. The reciprocal key writes one over the last number.
The factorial key adds its mark after a value.
-/
import PocketCalc.Entry.Insertion

namespace PocketCalc.Entry

/-! ## 1. The sign -/

/-- The edit that takes parentheses and minus sign off a negative number,
when the line ends with one. `inner` is the line without its closing
parenthesis. -/
def positive (entry inner : Text) : Splice :=
  let number := lastNumber inner
  if number ≠ [] ∧ ['(', '-'].isSuffixOf (beforeLastNumber inner) then
    ⟨numberStart inner - 2, number⟩
  else
    .unchanged entry

/-- The edit that changes the sign of the last number. An empty line gets
the minus sign of the number to come. -/
def signToggle (entry : Text) : Splice :=
  match entry.getLast? with
  | none => insertion ['-'] entry
  | some ')' => positive entry entry.dropLast
  | some _ =>
    if lastNumber entry = [] then .unchanged entry
    else ⟨numberStart entry, ['(', '-'] ++ lastNumber entry ++ [')']⟩

/-- The line with the sign of its last number changed. -/
def toggleSign (entry : Text) : Text :=
  (signToggle entry).edited entry

/-! ## 2. The reciprocal -/

/-- The edit that writes one over the last number. -/
def inversion (entry : Text) : Splice :=
  if lastNumber entry = [] then .unchanged entry
  else ⟨numberStart entry, ['1', '/', '('] ++ lastNumber entry ++ [')']⟩

/-- The line with one over its last number. -/
def invert (entry : Text) : Text :=
  (inversion entry).edited entry

/-! ## 3. The factorial -/

/-- The edit that adds a factorial mark, after a digit or a closing
parenthesis only. -/
def factorialMark (entry : Text) : Splice :=
  if endsWithValue entry then .append entry ['!'] else .unchanged entry

/-- The line with a factorial mark. -/
def addFactorial (entry : Text) : Text :=
  (factorialMark entry).edited entry

end PocketCalc.Entry
