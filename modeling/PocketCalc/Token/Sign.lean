/-
PocketCalc.Token.Sign — which minus signs are negations.

A minus sign with no value on its left is a negation: at the start, after
an operator and after an opening parenthesis. Everywhere else it subtracts,
also after a function name.
-/
import PocketCalc.Token

namespace PocketCalc.Token

/-- Whether an operand is due after a token, so that a minus sign there is
a negation. -/
def opensOperand : Token → Bool
  | operator _ | openParen => true
  | _ => false

/-- Marks the negations in a list, where `due` tells whether an operand is
due at its front. -/
def markSignsFrom (due : Bool) : List Token → List Token
  | [] => []
  | token :: rest =>
    (if due && token = minus then operator .negate else token) ::
      markSignsFrom (opensOperand token) rest

/-- Marks the negations in the tokens of an expression. -/
def markSigns (tokens : List Token) : List Token :=
  markSignsFrom true tokens

/-- Marking looks no further back than one token. -/
theorem markSignsFrom_append (due : Bool) (front back : List Token) :
    markSignsFrom due (front ++ back) =
      markSignsFrom due front ++ markSignsFrom (front.getLast?.elim due opensOperand) back := by
  induction front generalizing due with
  | nil => rfl
  | cons token rest ih =>
    simp only [List.cons_append, markSignsFrom, ih]
    cases rest with
    | nil => rfl
    | cons next rest => simp [List.getLast?_cons]

end PocketCalc.Token
