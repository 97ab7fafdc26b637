/-
PocketCalc.Token — the tokens of an expression and their text.

The text of a token list separates tokens by one space. Numbers are
written in full with the fewest digits, so they read back as the same
double.
-/
import PocketCalc.Number.Shortest
import PocketCalc.MathFunction
import PocketCalc.Operator

namespace PocketCalc

/-- A token of an expression. -/
inductive Token where
  | number (x : Float)
  | operator (op : Operator)
  | function (f : MathFunction)
  | suffix (s : Suffix)
  | openParen
  | closeParen
deriving DecidableEq

namespace Token

/-- The minus sign before its place has shown which operator it is. -/
abbrev minus : Token := operator (.binary .minus)

/-- The text of a token. -/
def text : Token → Text
  | number x => Number.floatText x
  | operator op => op.symbol
  | function f => f.name
  | suffix s => s.symbol
  | openParen => ['(']
  | closeParen => [')']

/-- The text of a list of tokens. -/
def listText (tokens : List Token) : Text :=
  List.intercalate [' '] (tokens.map text)

/-- Whether a token is a parenthesis. -/
def isParen : Token → Bool
  | openParen | closeParen => true
  | _ => false

end Token

end PocketCalc
