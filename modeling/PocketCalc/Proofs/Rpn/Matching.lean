/-
PocketCalc.Proofs.Rpn.Matching — reordering fails on unmatched parentheses
and on nothing else.

Whether a list can be reordered is decided by its parentheses alone, well
formed or not. What comes out has no parentheses, and everything else once.
So evaluating it never comes to a parenthesis: `Reaches` says what an
evaluation comes to, `run_eq_error_iff` that a run fails at a token it
reaches, and a parenthesis is the one token that is an invalid expression
by itself.

Main statement: `ofTokens_conserves`.
-/
import PocketCalc.Proofs.Expression
import PocketCalc.Proofs.Rpn.Conservation

namespace PocketCalc

namespace Rpn

variable {unit : AngleUnit} {tokens rpn : List Token} {stack : List Float}

/-! ## 1. What an evaluation comes to -/

/-- An evaluation comes to a token with some values on the stack. -/
def Reaches (unit : AngleUnit) (rpn : List Token) (token : Token) (stack : List Float) : Prop :=
  ∃ front back, rpn = front ++ token :: back ∧ run unit front [] = .ok stack

theorem Reaches.mem {token : Token} (h : Reaches unit rpn token stack) : token ∈ rpn := by
  obtain ⟨front, back, rfl, -⟩ := h
  simp

/-- A run fails at a token that it reaches. -/
theorem run_eq_error_iff {fault : EvalFault} :
    run unit tokens stack = .error fault ↔
      ∃ front token back reached, tokens = front ++ token :: back ∧
        run unit front stack = .ok reached ∧ step unit token reached = .error fault := by
  constructor
  · intro h
    induction tokens generalizing stack with
    | nil => cases h
    | cons token tokens ih =>
      rw [run] at h
      split at h
      · rename_i next hnext
        obtain ⟨front, failing, back, reached, rfl, hfront, hfails⟩ := ih h
        refine ⟨token :: front, failing, back, reached, rfl, ?_, hfails⟩
        rw [run, hnext]
        exact hfront
      · rename_i other hother
        cases h
        exact ⟨[], token, tokens, stack, rfl, rfl, hother⟩
  · rintro ⟨front, token, back, reached, rfl, hfront, hfails⟩
    rw [run_append, hfront]
    simp only [run, hfails]

/-- Only a parenthesis is an invalid expression by itself. -/
theorem isParen_of_step {token : Token} (h : step unit token stack = .error .invalidExpression) :
    token.isParen = true := by
  cases token with
  | openParen | closeParen => rfl
  | number x => cases h
  | suffix s | function f => cases stack <;> cases h
  | operator op =>
    match op, stack with
    | .negate, [] | .negate, _ :: _ => cases h
    | .binary _, [] | .binary _, [_] | .binary _, _ :: _ :: _ => cases h

/-! ## 2. Reordering -/

/-- Reordering has one fault. -/
theorem ofTokens_of_not_balanced (h : ¬Token.Balanced tokens) :
    ofTokens tokens = .error .unmatchedParens := by
  rw [← exists_ofTokens_iff] at h
  unfold ofTokens at h ⊢
  split
  · rename_i rpn hrpn
    simp [hrpn] at h
  · rfl

theorem perm_ofTokens (h : ofTokens tokens = .ok rpn) :
    rpn.Perm (tokens.filter (!·.isParen)) :=
  arrange?_perm (ofTokens_eq_ok_iff.mp h)

/-- The reverse order has no parentheses. -/
theorem isParen_of_mem_ofTokens (h : ofTokens tokens = .ok rpn) {token : Token}
    (htoken : token ∈ rpn) : token.isParen = false := by
  have hmem := (perm_ofTokens h).mem_iff.mp htoken
  simpa using (List.mem_filter.mp hmem).2

/-- The reverse order of an expression is that of a list of tokens. -/
theorem exists_ofTokens_of_toRpn {expression : Text} (h : Expression.toRpn expression = .ok rpn) :
    ∃ tokens, ofTokens tokens = .ok rpn := by
  unfold Expression.toRpn at h
  split at h
  · exact ⟨_, h⟩
  · cases h

/-- Evaluating a reverse order without parentheses is an invalid expression only where it
does not leave one value. -/
theorem run_of_eval_invalid (hparen : ∀ token ∈ rpn, token.isParen = false)
    (h : eval unit rpn = .error .invalidExpression) :
    ∃ left, run unit rpn [] = .ok left ∧ left.length ≠ 1 := by
  unfold eval at h
  split at h
  · rename_i left hleft
    refine ⟨left, hleft, ?_⟩
    intro hone
    obtain ⟨value, rfl⟩ := List.length_eq_one_iff.mp hone
    cases h
  · rename_i fault hfault
    cases h
    obtain ⟨front, token, back, reached, rfl, -, hfails⟩ := run_eq_error_iff.mp hfault
    have htoken := hparen token (by simp)
    rw [isParen_of_step hfails] at htoken
    cases htoken

/-- A list of tokens, well formed or not, can be reordered exactly when its parentheses
match, and unmatched parentheses are the only fault there is. The reverse order has no
parentheses and every other token of the list once; numbers and suffixes stand in it as they
stood in the list. So evaluating an expression never comes to a parenthesis, and where it is
an invalid expression the operators and operands did not leave one value. -/
theorem ofTokens_conserves (tokens : List Token) :
    ((∃ rpn, ofTokens tokens = .ok rpn) ↔ Token.Balanced tokens) ∧
    (¬Token.Balanced tokens → ofTokens tokens = .error .unmatchedParens) ∧
    (∀ rpn, ofTokens tokens = .ok rpn →
      (∀ token ∈ rpn, token.isParen = false) ∧
      rpn.Perm (tokens.filter (!·.isParen)) ∧
      rpn.filter Token.keepsPlace = tokens.filter Token.keepsPlace) ∧
    (∀ unit expression rpn, Expression.toRpn expression = .ok rpn →
      (∀ token stack, Reaches unit rpn token stack → token.isParen = false) ∧
      (eval unit rpn = .error .invalidExpression →
        ∃ left, run unit rpn [] = .ok left ∧ left.length ≠ 1)) := by
  refine ⟨exists_ofTokens_iff, ofTokens_of_not_balanced, ?_, ?_⟩
  · intro rpn hrpn
    exact ⟨fun token htoken => isParen_of_mem_ofTokens hrpn htoken, perm_ofTokens hrpn,
      arrange?_keepsPlace (ofTokens_eq_ok_iff.mp hrpn)⟩
  · intro unit expression rpn hrpn
    obtain ⟨tokens, htokens⟩ := exists_ofTokens_of_toRpn hrpn
    have hparen : ∀ token ∈ rpn, token.isParen = false :=
      fun token htoken => isParen_of_mem_ofTokens htokens htoken
    exact ⟨fun token stack hreaches => hparen token hreaches.mem, run_of_eval_invalid hparen⟩

/-- No expression at all: a suffix in front, an operator that lacks an operand, and a
function behind its argument. -/
def soup : List Token :=
  [.suffix .factorial, .openParen, .number 2, .operator (.binary .plus), .closeParen,
    .function .sin, .operator (.binary .times), .number 3]

/-- It is reordered all the same; its parentheses the other way round are not. -/
theorem ofTokens_conserves_soup :
    (∃ rpn, ofTokens soup = .ok rpn ∧ (∀ token ∈ rpn, token.isParen = false) ∧
      rpn.filter Token.keepsPlace = [.suffix .factorial, .number 2, .number 3]) ∧
    ofTokens [.closeParen, .openParen] = .error .unmatchedParens := by
  obtain ⟨hiff, -, hkeeps, -⟩ := ofTokens_conserves soup
  obtain ⟨-, hfault, -, -⟩ := ofTokens_conserves [.closeParen, .openParen]
  have hbalanced : Token.Balanced soup := Token.balanced_iff.mpr rfl
  obtain ⟨rpn, hrpn⟩ := hiff.mpr hbalanced
  obtain ⟨hparen, -, hplace⟩ := hkeeps rpn hrpn
  refine ⟨⟨rpn, hrpn, hparen, hplace⟩, hfault ?_⟩
  rw [Token.balanced_iff]
  decide

end Rpn

end PocketCalc
