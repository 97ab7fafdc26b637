/-
PocketCalc.Rpn — putting operators after their operands.

In the reverse order every operator, function and suffix stands after its
operands, and no parentheses are needed. Numbers and suffixes keep their
place. Operators, functions and opening parentheses wait on a stack: an
operator until a weaker one or the end of its group comes, a function
until the group that follows it is closed. Faults of grammar other than
unmatched parentheses are not seen here but when the list is evaluated.
-/
import PocketCalc.Token
import PocketCalc.Fault

namespace PocketCalc.Rpn

/-! ## 1. The stack -/

/-- What waits on the stack. -/
inductive Held where
  | operator (op : Operator)
  | function (f : MathFunction)
  /-- An opening parenthesis. -/
  | group
deriving DecidableEq

/-- Takes from the stack the operators that go before `next`, and returns
them with what stays. A function or a parenthesis stops the search. -/
def release (next : Operator) : List Held → List Token × List Held
  | .operator op :: held =>
    if op.goesBefore next then
      let (released, kept) := release next held
      (.operator op :: released, kept)
    else
      ([], .operator op :: held)
  | held => ([], held)

/-- Takes from the stack the innermost group and the function called on it,
if there is one. No group is left to take when its closing parenthesis has
no partner. -/
def closeGroup? : List Held → Option (List Token × List Held)
  | [] => none
  | .group :: .function f :: held => some ([.function f], held)
  | .group :: held => some ([], held)
  | .operator op :: held =>
    (closeGroup? held).map fun (released, kept) => (.operator op :: released, kept)
  | .function f :: held =>
    (closeGroup? held).map fun (released, kept) => (.function f :: released, kept)

/-- Takes everything from the stack at the end of the expression. A group
still open has no closing parenthesis. -/
def releaseAll? : List Held → Option (List Token)
  | [] => some []
  | .group :: _ => none
  | .operator op :: held => (releaseAll? held).map (.operator op :: ·)
  | .function f :: held => (releaseAll? held).map (.function f :: ·)

/-! ## 2. The reverse order -/

/-- The reverse order of the tokens that are left, when `held` waits. -/
def arrange? (held : List Held) : List Token → Option (List Token)
  | [] => releaseAll? held
  | .number x :: rest => (arrange? held rest).map (.number x :: ·)
  | .suffix s :: rest => (arrange? held rest).map (.suffix s :: ·)
  | .function f :: rest => arrange? (.function f :: held) rest
  | .openParen :: rest => arrange? (.group :: held) rest
  | .operator op :: rest =>
    let (released, kept) := release op held
    (arrange? (.operator op :: kept) rest).map (released ++ ·)
  | .closeParen :: rest =>
    match closeGroup? held with
    | some (released, kept) => (arrange? kept rest).map (released ++ ·)
    | none => none

/-- The reverse order of a list of tokens whose negations are marked. It
exists when the parentheses match. -/
def ofTokens (tokens : List Token) : Except SyntaxFault (List Token) :=
  match arrange? [] tokens with
  | some rpn => .ok rpn
  | none => .error .unmatchedParens

end PocketCalc.Rpn
