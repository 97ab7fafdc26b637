/-
PocketCalc.Entry.Parens — opening and closing parentheses.

The key `()` closes a parenthesis when more are open than closed, and
opens one otherwise, with a multiplication sign after a value. Before a
line is evaluated the parentheses still open are closed.
-/
import PocketCalc.Entry.Insertion

namespace PocketCalc.Entry

/-- What the key `()` adds to a line. -/
def parenPiece (entry : Text) : Text :=
  if entry.count ')' < entry.count '(' then [')']
  else
    match entry.getLast? with
    | none => ['(']
    | some last => if last = '(' ∨ last ∈ operatorSigns then ['('] else ['*', '(']

/-- The edit of the key `()`. -/
def parenthesis (entry : Text) : Splice :=
  insertion (parenPiece entry) entry

/-- The line after the key `()`. -/
def toggleParen (entry : Text) : Text :=
  (parenthesis entry).edited entry

/-- How many more parentheses are open than closed. -/
def unclosed (entry : Text) : Nat :=
  entry.count '(' - entry.count ')'

/-- The line with its open parentheses closed. -/
def closeParens (entry : Text) : Text :=
  entry ++ List.replicate (unclosed entry) ')'

/-- Closing opens nothing. -/
theorem count_open_closeParens (entry : Text) :
    (closeParens entry).count '(' = entry.count '(' := by
  simp [closeParens, List.count_replicate]

theorem count_close_closeParens (entry : Text) :
    (closeParens entry).count ')' = entry.count ')' + unclosed entry := by
  simp [closeParens]

/-- A line in which nothing is left open is closed as it stands. -/
theorem closeParens_eq_self {entry : Text} (h : entry.count '(' ≤ entry.count ')') :
    closeParens entry = entry := by
  simp [closeParens, unclosed, Nat.sub_eq_zero_of_le h]

theorem closeParens_closeParens (entry : Text) :
    closeParens (closeParens entry) = closeParens entry := by
  refine closeParens_eq_self ?_
  rw [count_open_closeParens, count_close_closeParens, unclosed]
  omega

end PocketCalc.Entry
