/-
PocketCalc.History — the calculations made so far.

The newest calculation comes first, and only the last hundred are kept.
Each is marked as basic or scientific by the words of its expression.
-/
import PocketCalc.MathFunction

namespace PocketCalc

/-! ## 1. Kinds of calculation -/

/-- A calculation is scientific when its text mentions a function, a power
or `pi`. -/
inductive CalculationKind where
  | basic
  | scientific
deriving DecidableEq

namespace CalculationKind

/-- What makes an expression scientific wherever it occurs in the text. -/
def scientificWords : List Text :=
  MathFunction.all.map MathFunction.name ++ [['p', 'i'], ['^']]

/-- The kind of an expression. -/
def ofExpression (expression : Text) : CalculationKind :=
  if scientificWords.any (Text.mentions · expression) then scientific else basic

/-- The name of a kind. -/
def label : CalculationKind → Text
  | basic => "Calculatrice basique".toList
  | scientific => "Calculatrice scientifique".toList

end CalculationKind

/-! ## 2. The history -/

/-- A calculation as the history shows it. -/
structure Calculation where
  kind : CalculationKind
  expression : Text
  result : Text
deriving DecidableEq

/-- The calculations kept, newest first. -/
structure History where
  calculations : List Calculation := []
deriving DecidableEq

namespace History

/-- How many calculations are kept. -/
def capacity : Nat := 100

/-- Number of calculations. -/
def size (history : History) : Nat :=
  history.calculations.length

/-- Whether no calculation is kept. -/
def isEmpty (history : History) : Bool :=
  history.calculations.isEmpty

/-- Puts a calculation in front, and drops the oldest when there are too
many. -/
def add (calculation : Calculation) (history : History) : History :=
  ⟨(calculation :: history.calculations).take capacity⟩

/-- The history without calculations. -/
def empty : History := {}

end History

end PocketCalc
