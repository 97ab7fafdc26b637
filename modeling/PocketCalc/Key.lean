/-
PocketCalc.Key — the keys and how they are laid out.

A key has a label and may write a piece of text. Keys that write nothing
act on the whole line.
-/
import PocketCalc.MathFunction

namespace PocketCalc

/-- A key of the calculator. -/
inductive Key where
  | allClear
  | erase
  | parens
  | percent
  | divide
  | times
  | minus
  | plus
  | equals
  | point
  | sign
  | digit (d : Fin 10)
  | pi
  | euler
  | call (f : MathFunction)
  | square
  | cube
  | power
  | powerOfTwo
  | reciprocal
  | factorial
  | openParen
  | closeParen
deriving DecidableEq

namespace Key

-- With an instance of its own a numeral such as `digit 7` holds no proof that there are digits.
instance neZero_ten : @NeZero Nat Zero.ofOfNat0 10 := ⟨by decide⟩

/-- The character of a digit key. -/
def digitText (d : Fin 10) : Text :=
  [Char.ofNat (48 + d)]

/-- The key of a digit; a number above nine counts as nine. -/
def ofDigit (n : Nat) : Key :=
  digit ⟨min n 9, by omega⟩

/-- What is written on the key. -/
def label : Key → Text
  | allClear => "AC".toList
  | erase => "C".toList
  | parens => "()".toList
  | percent => "%".toList
  | divide => "÷".toList
  | times => "×".toList
  | minus => "−".toList
  | plus => "+".toList
  | equals => "=".toList
  | point => ".".toList
  | sign => "±".toList
  | digit d => digitText d
  | pi => "π".toList
  | euler => "e".toList
  | call .abs => "|x|".toList
  | call f => f.glyph
  | square => "x²".toList
  | cube => "x³".toList
  | power => "^".toList
  | powerOfTwo => "2ˣ".toList
  | reciprocal => "1/x".toList
  | factorial => "x!".toList
  | openParen => "(".toList
  | closeParen => ")".toList

/-- What the key writes; empty for a key that acts on the whole line. -/
def piece : Key → Text
  | allClear | erase | parens | equals | sign | reciprocal | factorial => []
  | percent => ['%']
  | divide => ['/']
  | times => ['*']
  | minus => ['-']
  | plus => ['+']
  | point => ['.']
  | digit d => digitText d
  | pi => ['p', 'i']
  | euler => ['e']
  | call f => f.name ++ ['(']
  | square => ['^', '2']
  | cube => ['^', '3']
  | power => ['^']
  | powerOfTwo => ['2', '^']
  | openParen => ['(']
  | closeParen => [')']

/-- Whether the key writes a digit. -/
def isDigit : Key → Bool
  | digit _ => true
  | _ => false

/-- Whether the key opens the call of a function. -/
def isCall : Key → Bool
  | call _ => true
  | _ => false

/-! ## The two pads, row by row -/

/-- The keys on the left: functions, constants, powers and parentheses. -/
def scientificPad : List (List Key) :=
  [[call .sin, call .cos, call .tan, pi],
   [call .asin, call .acos, call .atan, euler],
   [call .sinh, call .cosh, call .tanh, call .abs],
   [call .asinh, call .acosh, call .atanh, factorial],
   [call .sqrt, call .cbrt, square, cube],
   [power, powerOfTwo, call .exp, reciprocal],
   [call .log, call .ln, openParen, closeParen]]

/-- The keys on the right, above the key `=`. -/
def basicPad : List (List Key) :=
  [[allClear, erase, parens, divide],
   [digit 7, digit 8, digit 9, times],
   [digit 4, digit 5, digit 6, minus],
   [digit 1, digit 2, digit 3, plus],
   [sign, digit 0, point, percent]]

end Key

end PocketCalc
