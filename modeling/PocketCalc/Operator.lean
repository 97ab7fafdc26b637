/-
PocketCalc.Operator — operators, suffixes, and what they compute.

A minus sign is two operators: `BinaryOperator.minus` between two operands
and `Operator.negate` in front of one. Negation binds tighter than a
power, so `-2^2` is the square of minus two. The suffixes `!` and `%`
follow their operand and bind tightest.
-/
import PocketCalc.Text

namespace PocketCalc

/-! ## 1. Operators -/

/-- An operator between two operands. -/
inductive BinaryOperator where
  | plus | minus | times | divide | power
deriving DecidableEq

/-- An operator, in front of an operand or between two. -/
inductive Operator where
  | binary (op : BinaryOperator)
  /-- The sign in front of an operand. -/
  | negate
deriving DecidableEq

/-- The value of a binary operator at its left and right operand. -/
def BinaryOperator.apply : BinaryOperator → Float → Float → Float
  | plus, x, y => x + y
  | minus, x, y => x - y
  | times, x, y => x * y
  | divide, x, y => x / y
  | power, x, y => x.pow y

namespace Operator

/-- All operators, weakest first. -/
def all : List Operator :=
  [binary .plus, binary .minus, binary .times, binary .divide, binary .power, negate]

/-- How tightly an operator binds. -/
def precedence : Operator → Nat
  | binary .plus | binary .minus => 1
  | binary .times | binary .divide => 2
  | binary .power => 3
  | negate => 4

/-- Whether equal operators in a row are grouped from the right. -/
def isRightAssociative : Operator → Bool
  | binary .power | negate => true
  | _ => false

/-- Number of operands. -/
def arity : Operator → Nat
  | binary _ => 2
  | negate => 1

/-- The way an operator is written in a list of tokens. -/
def symbol : Operator → Text
  | binary .plus => ['+']
  | binary .minus => ['-']
  | binary .times => ['*']
  | binary .divide => ['/']
  | binary .power => ['^']
  | negate => "neg".toList

/-- Whether `earlier`, which waits for its right operand, takes the operand
in front of `later`. -/
def goesBefore (earlier later : Operator) : Bool :=
  if later.isRightAssociative then later.precedence < earlier.precedence
  else later.precedence ≤ earlier.precedence

end Operator

/-! ## 2. Suffixes -/

/-- An operator written after its operand. -/
inductive Suffix where
  | factorial
  | percent
deriving DecidableEq

/-- How far the argument of a factorial may lie from a whole number. -/
def wholeTolerance : Float := 1e-9

/-- The largest number whose factorial is a finite double. -/
def largestFactorial : Float := 170

/-- The product of the whole numbers from two to `n`, rounded after each
factor. -/
def risingProduct (n : Nat) : Float :=
  (List.range' 2 (n - 1)).foldl (fun product k => product * Float.ofNat k) 1

/-- The factorial of a double. A number that is negative or not whole, up to
the tolerance, has none. -/
def factorial (x : Float) : Float :=
  if x.isNaN || x < 0 then 0 / 0
  else if x.isInf then x
  else
    let whole := x.round
    if wholeTolerance < (x - whole).abs then 0 / 0
    else if largestFactorial < whole then 1 / 0
    else risingProduct whole.toUInt32.toNat

namespace Suffix

/-- The value of a suffix after its operand. -/
def apply : Suffix → Float → Float
  | factorial, x => PocketCalc.factorial x
  | percent, x => x / 100

/-- The way a suffix is written. -/
def symbol : Suffix → Text
  | factorial => ['!']
  | percent => ['%']

end Suffix

end PocketCalc
