/-
PocketCalc.Proofs.Rpn.Depth — how an evaluation ends depends on the shape
of the list alone.

A step computes with the values on the stack, but whether it goes through
depends only on how many there are. So an evaluation can be followed by
its depth (`depthAfter`, `length_step`), without a value and without the
unit, and the first token that cannot act at its depth decides the fault.

Where there is no parenthesis, and a reordered list has none, the depth in
front of a token is a difference of two counts: a number adds a value and a
binary operator takes one away (`depthAfterAll_eq_ok_iff`). Such a list
never sinks back to an empty stack, so too many values are the only way
left in which it can be an invalid expression.

Main statement: `eval_outcome`.
-/
import PocketCalc.Proofs.Rpn.Matching

namespace PocketCalc

/-! ## 1. Shapes -/

namespace Token

/-- How many values a token takes from the stack. -/
def operands : Token → Nat
  | operator op => op.arity
  | function _ | suffix _ => 1
  | _ => 0

/-- Whether a token is a number. -/
def isNumber : Token → Bool
  | number _ => true
  | _ => false

/-- Whether a token is an operator between two operands. -/
def isBinary : Token → Bool
  | operator (.binary _) => true
  | _ => false

/-- A token without the value of a number. -/
def shape : Token → Token
  | number _ => number 0
  | token => token

end Token

namespace Rpn

open Token

variable {unit : AngleUnit} {tokens rpn : List Token}

/-! ## 2. Following the depth -/

/-- The depth of the stack after a token, or why the token cannot act. -/
def depthAfter (depth : Nat) : Token → Except EvalFault Nat
  | .number _ => .ok (depth + 1)
  | .operator .negate | .function _ | .suffix _ =>
    if 1 ≤ depth then .ok depth else .error .missingOperand
  | .operator (.binary _) => if 2 ≤ depth then .ok (depth - 1) else .error .missingOperand
  | .openParen | .closeParen => .error .invalidExpression

/-- The depth of the stack after a list of tokens, up to the first that cannot act. -/
def depthAfterAll : Nat → List Token → Except EvalFault Nat
  | depth, [] => .ok depth
  | depth, token :: rest =>
    match depthAfter depth token with
    | .ok next => depthAfterAll next rest
    | .error fault => .error fault

/-- How the evaluation of a list must end: with a value when one is left at the end. -/
def ending (rpn : List Token) : Except EvalFault Unit :=
  match depthAfterAll 0 rpn with
  | .ok depth => if depth = 1 then .ok () else .error .invalidExpression
  | .error fault => .error fault

/-- How the evaluation of a list ends, whatever its value. -/
def outcome (unit : AngleUnit) (rpn : List Token) : Except EvalFault Unit :=
  (eval unit rpn).map fun _ => ()

/-- A token does to the depth what it does to the stack. -/
theorem length_step (token : Token) (stack : List Float) :
    (step unit token stack).map List.length = depthAfter stack.length token := by
  cases token with
  | number x | openParen | closeParen => rfl
  | function f | suffix s => cases stack <;> rfl
  | operator op =>
    match op, stack with
    | .negate, [] | .negate, _ :: _ => rfl
    | .binary _, [] | .binary _, [_] | .binary _, _ :: _ :: _ => rfl

/-- So does a list of tokens. -/
theorem length_run (tokens : List Token) (stack : List Float) :
    (run unit tokens stack).map List.length = depthAfterAll stack.length tokens := by
  induction tokens generalizing stack with
  | nil => rfl
  | cons token tokens ih =>
    have hstep : (step unit token stack).map List.length = _ := length_step token stack
    rw [run, depthAfterAll, ← hstep]
    cases step unit token stack with
    | ok next => exact ih next
    | error fault => rfl

theorem outcome_eq_ending (unit : AngleUnit) (rpn : List Token) :
    outcome unit rpn = ending rpn := by
  have hlength : (run unit rpn []).map List.length = depthAfterAll 0 rpn := length_run rpn []
  rw [outcome, ending, eval, ← hlength]
  cases run unit rpn [] with
  | error fault => rfl
  | ok left =>
    cases left with
    | nil => rfl
    | cons x rest => cases rest <;> rfl

theorem outcome_eq_error_iff {fault : EvalFault} :
    outcome unit rpn = .error fault ↔ eval unit rpn = .error fault := by
  rw [outcome]
  cases eval unit rpn <;> simp [Except.map]

/-! ## 3. Values do not matter -/

theorem depthAfter_shape (depth : Nat) (token : Token) :
    depthAfter depth token.shape = depthAfter depth token := by
  cases token <;> rfl

theorem depthAfterAll_map_shape (depth : Nat) (tokens : List Token) :
    depthAfterAll depth (tokens.map shape) = depthAfterAll depth tokens := by
  induction tokens generalizing depth with
  | nil => rfl
  | cons token tokens ih => simp only [List.map_cons, depthAfterAll, depthAfter_shape, ih]

/-- Lists that differ in the values of their numbers end alike. -/
theorem ending_eq_of_shape {other : List Token} (h : other.map shape = rpn.map shape) :
    ending other = ending rpn := by
  rw [ending, ending, ← depthAfterAll_map_shape 0 other, h, depthAfterAll_map_shape]

/-! ## 4. The depth as a difference -/

/-- A token that is no parenthesis acts where there are values enough, and adds one if it
is a number and takes one away if it is binary. -/
theorem depthAfter_eq_ok_iff {depth next : Nat} {token : Token} :
    depthAfter depth token = .ok next ↔
      token.isParen = false ∧ token.operands ≤ depth ∧
        next + (if token.isBinary then 1 else 0) = depth + if token.isNumber then 1 else 0 := by
  cases token with
  | number x => simp [depthAfter, isParen, operands, isBinary, isNumber, eq_comm]
  | openParen | closeParen => simp [depthAfter, isParen]
  | function f | suffix s =>
    simp only [depthAfter, isParen, operands, isBinary, isNumber]
    split <;> simp <;> omega
  | operator op =>
    cases op with
    | negate | binary op =>
      simp only [depthAfter, isParen, operands, Operator.arity, isBinary, isNumber]
      split <;> simp <;> omega

theorem isBinary_le_operands (token : Token) :
    (if token.isBinary then 1 else 0) ≤ token.operands := by
  match token with
  | .operator (.binary _) | .operator .negate | .number _ | .function _ | .suffix _ | .openParen
  | .closeParen => simp [isBinary, operands, Operator.arity]

theorem forall_split_cons {first : Token} {tokens : List Token} (p : List Token → Token → Prop) :
    (∀ front token back, first :: tokens = front ++ token :: back → p front token) ↔
      p [] first ∧
        ∀ front token back, tokens = front ++ token :: back → p (first :: front) token := by
  constructor
  · intro h
    refine ⟨h [] first tokens rfl, ?_⟩
    rintro front token back rfl
    exact h (first :: front) token back rfl
  · rintro ⟨hfirst, hrest⟩ front token back hsplit
    cases front with
    | nil =>
      obtain ⟨rfl, -⟩ := List.cons_eq_cons.mp hsplit
      exact hfirst
    | cons other front =>
      obtain ⟨rfl, hback⟩ := List.cons_eq_cons.mp hsplit
      exact hrest front token back hback

theorem depthAfterAll_cons_eq_ok_iff {depth last : Nat} {token : Token} :
    depthAfterAll depth (token :: tokens) = .ok last ↔
      ∃ next, depthAfter depth token = .ok next ∧ depthAfterAll next tokens = .ok last := by
  rw [depthAfterAll]
  cases depthAfter depth token <;> simp

/-- A list goes through when it has no parenthesis and no token lacks an operand. -/
theorem depthAfterAll_eq_ok_iff {depth last : Nat} :
    depthAfterAll depth tokens = .ok last ↔
      (∀ token ∈ tokens, token.isParen = false) ∧
      (∀ front token back, tokens = front ++ token :: back →
        front.countP isBinary + token.operands ≤ depth + front.countP isNumber) ∧
      last + tokens.countP isBinary = depth + tokens.countP isNumber := by
  induction tokens generalizing depth with
  | nil => simp [depthAfterAll, @eq_comm Nat last]
  | cons token tokens ih =>
    rw [depthAfterAll_cons_eq_ok_iff, List.forall_mem_cons, forall_split_cons
      fun front token => front.countP isBinary + token.operands ≤ depth + front.countP isNumber]
    simp only [List.countP_cons, List.countP_nil, Nat.zero_add, Nat.add_zero]
    constructor
    · rintro ⟨next, hnext, htokens⟩
      obtain ⟨hparen, hfirst, hcount⟩ := depthAfter_eq_ok_iff.mp hnext
      obtain ⟨hparens, hrest, hlast⟩ := ih.mp htokens
      refine ⟨⟨hparen, hparens⟩, ⟨hfirst, ?_⟩, by omega⟩
      intro front other back hback
      have := hrest front other back hback
      omega
    · rintro ⟨⟨hparen, hparens⟩, ⟨hfirst, hrest⟩, hlast⟩
      have hbinary := isBinary_le_operands token
      obtain ⟨next, hcount⟩ : ∃ next, next + (if token.isBinary then 1 else 0) =
          depth + if token.isNumber then 1 else 0 := by
        refine ⟨_, Nat.sub_add_cancel ?_⟩
        omega
      refine ⟨next, depthAfter_eq_ok_iff.mpr ⟨hparen, hfirst, hcount⟩,
        ih.mpr ⟨hparens, ?_, by omega⟩⟩
      intro front other back hback
      have := hrest front other back hback
      omega

/-- What goes through leaves a value. -/
theorem one_le_of_depthAfter {depth next : Nat} {token : Token}
    (h : depthAfter depth token = .ok next) : 1 ≤ next := by
  obtain ⟨hparen, hoperands, hnext⟩ := depthAfter_eq_ok_iff.mp h
  match token, hoperands, hnext with
  | .number _, _, hnext => simp [isBinary, isNumber] at hnext; omega
  | .function _, hoperands, hnext | .suffix _, hoperands, hnext
  | .operator .negate, hoperands, hnext | .operator (.binary _), hoperands, hnext =>
    simp [operands, Operator.arity, isBinary, isNumber] at hoperands hnext
    omega

/-- The stack never sinks back to empty. -/
theorem one_le_of_depthAfterAll {depth last : Nat} (hne : tokens ≠ [])
    (h : depthAfterAll depth tokens = .ok last) : 1 ≤ last := by
  induction tokens generalizing depth with
  | nil => exact absurd rfl hne
  | cons token tokens ih =>
    obtain ⟨next, hnext, hlast⟩ := depthAfterAll_cons_eq_ok_iff.mp h
    cases tokens with
    | nil =>
      cases hlast
      exact one_le_of_depthAfter hnext
    | cons other tokens => exact ih (by simp) hlast

/-! ## 5. How an evaluation ends -/

/-- Without a parenthesis, only a missing operand stops a list. -/
theorem depthAfterAll_ne_invalid (hparen : ∀ token ∈ tokens, token.isParen = false) (depth : Nat) :
    depthAfterAll depth tokens ≠ .error .invalidExpression := by
  induction tokens generalizing depth with
  | nil => simp [depthAfterAll]
  | cons token tokens ih =>
    obtain ⟨htoken, htokens⟩ := List.forall_mem_cons.mp hparen
    have hstep : depthAfter depth token ≠ .error .invalidExpression := by
      match token, htoken with
      | .number _, _ => simp [depthAfter]
      | .function _, _ | .suffix _, _ | .operator .negate, _ | .operator (.binary _), _ =>
        simp only [depthAfter]
        split <;> simp
    rw [depthAfterAll]
    cases hnext : depthAfter depth token with
    | ok next => exact ih htokens next
    | error fault =>
      rw [hnext] at hstep
      exact hstep

/-- Without a parenthesis, the expression is invalid when it is empty, or when no operand is
missing and more than one value is left. -/
theorem eval_eq_invalid_iff (hparen : ∀ token ∈ rpn, token.isParen = false) :
    eval unit rpn = .error .invalidExpression ↔
      rpn = [] ∨ depthAfterAll 0 rpn ≠ .error .missingOperand ∧
        rpn.countP isBinary + 2 ≤ rpn.countP isNumber := by
  rw [← outcome_eq_error_iff, outcome_eq_ending, ending]
  cases hdepth : depthAfterAll 0 rpn with
  | error fault =>
    have hne : rpn ≠ [] := by
      rintro rfl
      cases hdepth
    cases fault with
    | missingOperand => simp [hne]
    | invalidExpression => exact absurd hdepth (depthAfterAll_ne_invalid hparen 0)
  | ok last =>
    obtain ⟨-, -, hcount⟩ := depthAfterAll_eq_ok_iff.mp hdepth
    by_cases hne : rpn = []
    · subst hne
      cases hdepth
      simp
    · have hpos := one_le_of_depthAfterAll hne hdepth
      simp only [hne, false_or, ne_eq, reduceCtorEq, not_false_iff, true_and]
      split <;> simp <;> omega

/-- The first token that cannot act decides the fault of an evaluation, and without one the
number of values left does. So neither the values nor the unit turn a value into a fault or one
fault into another. A reordered list is an invalid expression when it is empty, or when no
token lacks an operand and the numbers are at least two more than the binary operators. -/
theorem eval_outcome (rpn : List Token) :
    (∀ unit, outcome unit rpn = ending rpn) ∧
    (∀ unit other changed, changed.map shape = rpn.map shape →
      outcome other changed = outcome unit rpn) ∧
    (∀ unit tokens, ofTokens tokens = .ok rpn →
      (eval unit rpn = .error .invalidExpression ↔
        rpn = [] ∨ depthAfterAll 0 rpn ≠ .error .missingOperand ∧
          rpn.countP isBinary + 2 ≤ rpn.countP isNumber)) := by
  refine ⟨fun unit => outcome_eq_ending unit rpn, ?_, ?_⟩
  · intro unit other changed hchanged
    rw [outcome_eq_ending, outcome_eq_ending, ending_eq_of_shape hchanged]
  · intro unit tokens htokens
    exact eval_eq_invalid_iff fun token htoken => isParen_of_mem_ofTokens htokens htoken

/-- Two numbers with nothing between them, and a suffix on the second. -/
def leftOver (x y : Float) : List Token :=
  [.number x, .number y, .suffix .factorial]

/-- Two values are left of `2 pi !`, and of any two other numbers in the other unit. -/
theorem eval_outcome_leftOver :
    ofTokens (leftOver 2 pi) = .ok (leftOver 2 pi) ∧
    eval .degrees (leftOver 2 pi) = .error .invalidExpression ∧
    (leftOver 0 euler).map shape = (leftOver 2 pi).map shape ∧
    outcome .radians (leftOver 0 euler) = outcome .degrees (leftOver 2 pi) := by
  obtain ⟨-, hshape, hinvalid⟩ := eval_outcome (leftOver 2 pi)
  have hrpn : ofTokens (leftOver 2 pi) = .ok (leftOver 2 pi) := rfl
  have hdepth : depthAfterAll 0 (leftOver 2 pi) = .ok 2 := rfl
  exact ⟨hrpn, (hinvalid .degrees _ hrpn).mpr (Or.inr ⟨by simp [hdepth], by decide⟩), rfl,
    hshape .degrees .radians _ rfl⟩

end Rpn

end PocketCalc
