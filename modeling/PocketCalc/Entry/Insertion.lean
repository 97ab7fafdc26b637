/-
PocketCalc.Entry.Insertion — adding what a key writes, within limits.

A piece of one character may be refused or changed so that the line stays
well formed: a number has no needless zero in front and one point at most,
a percent sign follows a value, an operator follows a value or replaces
the operator before it. Longer pieces are added as they are.
-/
import PocketCalc.Entry.Splice
import PocketCalc.Entry.LastNumber

namespace PocketCalc.Entry

/-- The signs of the operators between operands. -/
def operatorSigns : Text := ['+', '-', '*', '/', '^']

/-- The operators after which a minus sign may still follow, as the sign of
the next operand. -/
def signableOperators : Text := ['*', '/', '^']

/-- Whether the line ends with a zero that is a whole number by itself. -/
def endsWithLoneZero (entry : Text) : Bool :=
  match entry.reverse with
  | '0' :: before :: _ => !(before.isDigit || before = '.')
  | ['0'] => true
  | _ => false

/-- Whether the line ends with a digit or a closing parenthesis. -/
def endsWithValue (entry : Text) : Bool :=
  entry.getLast?.any fun c => c.isDigit || c = ')'

/-- A digit. A zero is not added to a lone zero, and another digit takes the
place of one. -/
def insertDigit (digit : Char) (entry : Text) : Splice :=
  if digit = '0' then
    if lastNumber entry = ['0'] then .unchanged entry else .append entry [digit]
  else if endsWithLoneZero entry then .replaceLast entry [digit]
  else .append entry [digit]

/-- A decimal point. It gets a zero in front unless a digit stands there; it
is refused in a number that has a point or a percent sign, and after a
closing parenthesis. -/
def insertPoint (entry : Text) : Splice :=
  if (lastNumber entry).any fun c => c = '.' || c = '%' then .unchanged entry
  else
    match entry.getLast? with
    | some ')' => .unchanged entry
    | some c => if c.isDigit then .append entry ['.'] else .append entry ['0', '.']
    | none => .append entry ['0', '.']

/-- A percent sign, after a digit or a closing parenthesis only. -/
def insertPercent (entry : Text) : Splice :=
  if endsWithValue entry then .append entry ['%'] else .unchanged entry

/-- An operator. Where an operand is due only a minus sign passes; after
another operator it takes that operator's place. -/
def insertOperator (sign : Char) (entry : Text) : Splice :=
  match entry.getLast? with
  | none | some '(' => if sign = '-' then .append entry [sign] else .unchanged entry
  | some last =>
    if last ∈ signableOperators ∧ sign = '-' then .append entry [sign]
    else if last ∈ operatorSigns then .replaceLast entry [sign]
    else .append entry [sign]

/-- The edit that adds a piece. -/
def insertion (piece entry : Text) : Splice :=
  match piece with
  | [c] =>
    if c.isDigit then insertDigit c entry
    else if c = '.' then insertPoint entry
    else if c = '%' then insertPercent entry
    else if c ∈ operatorSigns then insertOperator c entry
    else .append entry piece
  | _ => .append entry piece

/-- The line after adding a piece. -/
def insert (piece entry : Text) : Text :=
  (insertion piece entry).edited entry

end PocketCalc.Entry
