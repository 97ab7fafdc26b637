/-
PocketCalc.Calculator — the calculator without its screen.

Keys and typing edit the entry line, and every edit submits it to the
preview. The key `=` commits: it closes the parentheses, evaluates, and on
a finite value replaces the line by the result; otherwise it changes
nothing. After a commit the line shows a result: a digit then starts a new
line, a function is called on the result, and any other key goes on with
it.
-/
import PocketCalc.Entry.Erasure
import PocketCalc.Entry.Operand
import PocketCalc.Entry.Parens
import PocketCalc.Entry.Pretty
import PocketCalc.History
import PocketCalc.Key
import PocketCalc.Preview

namespace PocketCalc

/-- The state of the calculator. -/
structure Calculator where
  entry : Text := []
  preview : Preview := {}
  history : History := {}
  /-- The working of the last commit. -/
  working : Expression.Working := {}
  unit : AngleUnit := .degrees
  /-- Whether the line holds the result of a commit, untouched since. -/
  resultShown : Bool := false
  /-- Whether the entry line asks for the keyboard. -/
  wantsFocus : Bool := true

namespace Calculator

/-! ## 1. Submitting -/

/-- Submits the line to the preview. -/
def submit (state : Calculator) : Calculator :=
  { state with preview := state.preview.submit state.entry state.unit, wantsFocus := true }

/-- Replaces the line, which then no longer shows a result, and submits it. -/
def edit (entry : Text) (state : Calculator) : Calculator :=
  submit { state with entry := entry, resultShown := false }

/-- Changes the unit of angles. A result shown stays shown. -/
def toggleUnit (state : Calculator) : Calculator :=
  submit { state with unit := state.unit.toggle }

/-! ## 2. Committing -/

/-- The expression that a commit evaluates. -/
def closedEntry (state : Calculator) : Text :=
  Entry.closeParens state.entry

/-- The value of a commit, if it is a finite number. -/
def committedValue? (state : Calculator) : Option Float :=
  match Expression.evaluate state.unit state.closedEntry with
  | .ok value => if Number.display value = Number.errorText then none else some value
  | .error _ => none

/-- What a commit of `expression` with a given value adds to the history;
nothing for a blank one. -/
def recorded (expression : Text) (value : Float) (history : History) : History :=
  if Text.isBlank expression then history
  else
    history.add
      { kind := .ofExpression expression
        expression := Entry.pretty expression
        result := Number.display value }

/-- The working of `expression`, empty when it has none. -/
def workingOf (expression : Text) : Expression.Working :=
  match Expression.working expression with
  | .ok working => working
  | .error _ => {}

/-- Commits the line. Without a finite value only the keyboard is asked for. -/
def commit (state : Calculator) : Calculator :=
  match state.committedValue? with
  | none => { state with wantsFocus := true }
  | some value =>
    { state with
      history := recorded state.closedEntry value state.history
      working := workingOf state.closedEntry
      entry := Number.reentry value
      preview := state.preview.clear
      resultShown := true
      wantsFocus := true }

/-! ## 3. Keys -/

/-- The line after a key other than those that clear or commit. -/
def edited (key : Key) (entry : Text) : Text :=
  match key with
  | .erase => Entry.eraseLast entry
  | .sign => Entry.toggleSign entry
  | .reciprocal => Entry.invert entry
  | .factorial => Entry.addFactorial entry
  | .parens => Entry.toggleParen entry
  | _ => Entry.insert key.piece entry

/-- The line after a key pressed while a result is shown: a digit starts a
new line, a function is called on the result. -/
def editedResult (key : Key) (entry : Text) : Text :=
  if key.isDigit then key.piece
  else if key.isCall then key.piece ++ entry
  else edited key entry

/-- Presses a key. -/
def press (key : Key) (state : Calculator) : Calculator :=
  match key with
  | .allClear => state.edit []
  | .equals => state.commit
  | _ =>
    state.edit
      (if state.resultShown then editedResult key state.entry else edited key state.entry)

/-! ## 4. The rest -/

/-- Forgets the history. -/
def clearHistory (state : Calculator) : Calculator :=
  { state with history := .empty }

/-- Waits until the preview is up to date. -/
def settle (state : Calculator) : Calculator :=
  { state with preview := state.preview.settle }

/-- The line as it is shown. -/
def prettyEntry (state : Calculator) : Text :=
  Entry.pretty state.entry

end Calculator

end PocketCalc
