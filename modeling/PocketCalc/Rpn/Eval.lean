/-
PocketCalc.Rpn.Eval — evaluating tokens in reverse order.

Numbers go on a stack; operators, functions and suffixes take their
operands from it and leave their value. Exactly one value must be left at
the end. Parentheses have no place in the reverse order.
-/
import PocketCalc.Token
import PocketCalc.Fault

namespace PocketCalc.Rpn

/-- What one token does to the stack, whose top is its first element. -/
def step (unit : AngleUnit) : Token → List Float → Except EvalFault (List Float)
  | .number x, stack => .ok (x :: stack)
  | .operator (.binary op), y :: x :: stack => .ok (op.apply x y :: stack)
  | .operator .negate, x :: stack => .ok (-x :: stack)
  | .function f, x :: stack => .ok (f.apply unit x :: stack)
  | .suffix s, x :: stack => .ok (s.apply x :: stack)
  | .openParen, _ => .error .invalidExpression
  | .closeParen, _ => .error .invalidExpression
  | _, _ => .error .missingOperand

/-- What a list of tokens does to the stack, up to the first fault. -/
def run (unit : AngleUnit) : List Token → List Float → Except EvalFault (List Float)
  | [], stack => .ok stack
  | token :: rest, stack =>
    match step unit token stack with
    | .ok next => run unit rest next
    | .error fault => .error fault

/-- The value that is alone on the stack. -/
def single : List Float → Except EvalFault Float
  | [x] => .ok x
  | _ => .error .invalidExpression

/-- The value of a list of tokens in reverse order. -/
def eval (unit : AngleUnit) (rpn : List Token) : Except EvalFault Float :=
  match run unit rpn [] with
  | .ok stack => single stack
  | .error fault => .error fault

/-- Tokens act one after the other. -/
theorem run_append (unit : AngleUnit) (front back : List Token) (stack : List Float) :
    run unit (front ++ back) stack =
      match run unit front stack with
      | .ok next => run unit back next
      | .error fault => .error fault := by
  induction front generalizing stack with
  | nil => rfl
  | cons token rest ih =>
    simp only [List.cons_append, run]
    cases step unit token stack with
    | ok next => exact ih next
    | error fault => rfl

end PocketCalc.Rpn
