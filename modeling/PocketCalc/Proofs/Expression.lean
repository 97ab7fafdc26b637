/-
PocketCalc.Proofs.Expression — the value of a list of tokens.

`evaluateTokens` is what `evaluate` does once the text has been cut into
tokens: the negations are marked, the list is put in the reverse order and
run. A text that is not blank is worth what its tokens are worth.
-/
import PocketCalc.Expression

namespace PocketCalc

namespace Expression

/-- The value of a list of tokens whose negations are not marked yet. -/
def evaluateTokens (unit : AngleUnit) (tokens : List Token) : Except Fault Float :=
  match Rpn.ofTokens (Token.markSigns tokens) with
  | .error fault => .error (.reading fault)
  | .ok rpn =>
    match Rpn.eval unit rpn with
    | .error fault => .error (.evaluation fault)
    | .ok value => .ok value

theorem evaluate_of_tokenize {text : Text} {tokens : List Token}
    (hblank : Text.isBlank text = false) (h : Token.tokenize text = .ok tokens)
    (unit : AngleUnit) : evaluate unit text = evaluateTokens unit tokens := by
  simp only [evaluate, hblank, Bool.false_eq_true, if_false, toRpn, signedTokens, h, Except.map]
  rfl

theorem evaluate_of_tokenize_error {text : Text} {fault : SyntaxFault}
    (hblank : Text.isBlank text = false) (h : Token.tokenize text = .error fault)
    (unit : AngleUnit) : evaluate unit text = .error (.reading fault) := by
  simp only [evaluate, hblank, Bool.false_eq_true, if_false, toRpn, signedTokens, h, Except.map]

theorem working_of_tokenize {text : Text} {tokens : List Token}
    (h : Token.tokenize text = .ok tokens) :
    working text = (Rpn.ofTokens (Token.markSigns tokens)).map fun rpn =>
      ⟨Token.listText (Token.markSigns tokens), Token.listText rpn⟩ := by
  simp only [working, signedTokens, h, Except.map]

theorem working_of_tokenize_error {text : Text} {fault : SyntaxFault}
    (h : Token.tokenize text = .error fault) : working text = .error fault := by
  simp only [working, signedTokens, h, Except.map]

/-- Tokens have a value when they can be reordered, the reverse order runs, and one
value is left. -/
theorem evaluateTokens_eq_ok_iff {unit : AngleUnit} {tokens : List Token} {value : Float} :
    evaluateTokens unit tokens = .ok value ↔
      ∃ rpn, Rpn.ofTokens (Token.markSigns tokens) = .ok rpn ∧
        Rpn.run unit rpn [] = .ok [value] := by
  unfold evaluateTokens
  cases hrpn : Rpn.ofTokens (Token.markSigns tokens) with
  | error fault => simp
  | ok rpn =>
    simp only [Except.ok.injEq, exists_eq_left']
    rw [Rpn.eval]
    cases hrun : Rpn.run unit rpn [] with
    | error fault => simp
    | ok stack =>
      match stack with
      | [] => simp [Rpn.single]
      | [x] => simp [Rpn.single]
      | x :: y :: rest => simp [Rpn.single]

end Expression

end PocketCalc
