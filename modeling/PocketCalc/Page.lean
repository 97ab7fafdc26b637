/-
PocketCalc.Page — the texts on the screen, and what the user does there.

A window holds the calculator, which of its two panels are open, and
whether the entry line has the keyboard. `Window.act` says what a click or
a key does; `Window.texts` lists the texts on the page from top to bottom.
-/
import PocketCalc.Calculator

namespace PocketCalc

/-- The calculator in its window. -/
structure Window where
  calculator : Calculator := {}
  historyOpen : Bool := false
  workingOpen : Bool := false
  /-- Whether the entry line has the keyboard. -/
  hasFocus : Bool := true

/-- What the user does. -/
inductive Action where
  | click (key : Key)
  | clickUnit
  | clickHistory
  | clickWorking
  | clickClearHistory
  | pressEnter
  | pressEscape
  /-- Rests the pointer on the button of the angle unit, then moves away. -/
  | hover
  /-- Types a text over the whole entry line. -/
  | type (text : Text)
deriving DecidableEq

namespace Window

/-! ## 1. Actions -/

/-- The window with a changed calculator whose preview has settled, and with
the keyboard on the entry line. -/
def refocused (window : Window) (calculator : Calculator) : Window :=
  { window with calculator := calculator.settle, hasFocus := true }

/-- Whether the button that clears the history is on the page. -/
def showsClearHistory (window : Window) : Bool :=
  window.historyOpen && !window.calculator.history.isEmpty

/-- The window after an action; none if there was nothing to click. -/
def act (action : Action) (window : Window) : Option Window :=
  let calculator := window.calculator
  match action with
  | .click key => some (window.refocused (calculator.press key))
  | .clickUnit => some (window.refocused calculator.toggleUnit)
  | .clickHistory => some { window with historyOpen := !window.historyOpen, hasFocus := false }
  | .clickWorking => some { window with workingOpen := !window.workingOpen, hasFocus := false }
  | .clickClearHistory =>
    if window.showsClearHistory then
      some { window with calculator := calculator.clearHistory, hasFocus := false }
    else
      none
  | .pressEnter =>
    if window.hasFocus then some (window.refocused (calculator.press .equals)) else some window
  | .pressEscape => some (window.refocused (calculator.press .allClear))
  | .hover => some window
  | .type text => some (window.refocused (calculator.edit text))

/-! ## 2. The page -/

/-- The label of the button of the angle unit. -/
def unitLabel : AngleUnit → Text
  | .degrees => "Deg".toList
  | .radians => "Rad".toList

/-- What an empty entry line shows. -/
def hint : Text := "Ex: 2^3^2, sin(90), 5!, 50%, asin(1)".toList

/-- The texts of the entry line. -/
def entryTexts (entry : Text) : List Text :=
  if entry.isEmpty then [hint, []] else [entry]

/-- The line of the preview. It is a space when there is nothing to preview
or the line above is already the result. -/
def previewLine (calculator : Calculator) : Text :=
  if calculator.resultShown || calculator.preview.text.isEmpty then [' ']
  else "= ".toList ++ calculator.preview.text

/-- The labels of the keys. -/
def keyLabels : List Text :=
  (Key.scientificPad.flatten ++ Key.basicPad.flatten ++ [Key.equals]).map Key.label

/-- The explanation shown while the pointer rests on the button of the angle
unit. -/
def unitTip : Text := "Unité d’angle pour sin/cos/tan et leurs inverses".toList

/-- The texts of one calculation of the history. -/
def calculationTexts (calculation : Calculation) : List Text :=
  [calculation.kind.label, calculation.expression ++ " = ".toList ++ calculation.result]

/-- The texts of the open history panel. -/
def historyTexts (history : History) : List Text :=
  if history.isEmpty then ["aucun calcul".toList]
  else history.calculations.flatMap calculationTexts ++ ["Vider l’historique".toList]

/-- The header of the history panel. -/
def historyHeader (history : History) : Text :=
  "Historique (".toList ++ Number.digitsOf history.size ++ [')']

/-- The texts of the open panel of the working. -/
def workingTexts (working : Expression.Working) : List Text :=
  ["Jetons :".toList, working.tokens, "RPN :".toList, working.rpn]

/-- The texts on the page, from top to bottom. -/
def texts (window : Window) (hovering : Bool) : List Text :=
  let calculator := window.calculator
  ["Calculatrice scientifique".toList, "Entrée :".toList, unitLabel calculator.unit] ++
    entryTexts calculator.entry ++
    [calculator.prettyEntry, previewLine calculator] ++
    keyLabels ++
    (if hovering then [unitTip] else []) ++
    [historyHeader calculator.history] ++
    (if window.historyOpen then historyTexts calculator.history else []) ++
    ["Démarche".toList] ++
    (if window.workingOpen then workingTexts calculator.working else [])

/-- The page that an action leads to, and the window after it. -/
def visit (action : Action) (window : Window) : Option (List Text) × Window :=
  match window.act action with
  | some next => (some (next.texts (action = .hover)), next)
  | none => (none, window)

end Window

end PocketCalc
