/-
PocketCalc.Expression — the value of an expression, and how it was found.

The text is cut into tokens, negations are marked, the tokens are put in
the reverse order, and that is evaluated. A blank text is worth zero and
is not read at all. The working shows the tokens and the reverse order
without evaluating them; there a blank text has a working, an empty one,
only if it holds nothing but spaces.
-/
import PocketCalc.Text.Blank
import PocketCalc.Token.Lexer
import PocketCalc.Token.Sign
import PocketCalc.Rpn
import PocketCalc.Rpn.Eval

namespace PocketCalc.Expression

/-- The tokens of an expression with its negations marked. -/
def signedTokens (expression : Text) : Except SyntaxFault (List Token) :=
  (Token.tokenize expression).map Token.markSigns

/-- An expression in the reverse order. -/
def toRpn (expression : Text) : Except SyntaxFault (List Token) :=
  match signedTokens expression with
  | .ok tokens => Rpn.ofTokens tokens
  | .error fault => .error fault

/-- The value of an expression. -/
def evaluate (unit : AngleUnit) (expression : Text) : Except Fault Float :=
  if Text.isBlank expression then .ok 0
  else
    match toRpn expression with
    | .error fault => .error (.reading fault)
    | .ok rpn =>
      match Rpn.eval unit rpn with
      | .error fault => .error (.evaluation fault)
      | .ok value => .ok value

/-- How an expression is read: its tokens and its reverse order, as text. -/
structure Working where
  tokens : Text := []
  rpn : Text := []
deriving DecidableEq

/-- The working of an expression. -/
def working (expression : Text) : Except SyntaxFault Working :=
  match signedTokens expression with
  | .error fault => .error fault
  | .ok tokens => (Rpn.ofTokens tokens).map fun rpn => ⟨Token.listText tokens, Token.listText rpn⟩

end PocketCalc.Expression
