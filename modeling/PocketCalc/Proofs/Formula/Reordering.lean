/-
PocketCalc.Proofs.Formula.Reordering — a formula is reordered and
evaluated as its tree says.

While the tokens of a phrase are read, its operators come and go on top of
the stack. Two conditions keep the phrase apart from its surroundings:
`Bears`, what waits below is not released by an operator of the phrase,
and `Ends`, what comes next releases every operator of the phrase. Under
both, reading the phrase adds its tree in the reverse order to the output
and leaves the stack as it was (`arrange?_signedTokens`).

Main statement: `evaluateTokens_tokens`, the tokens of a formula have the
value of the formula.
-/
import PocketCalc.Proofs.Formula
import PocketCalc.Proofs.Expression

namespace PocketCalc

/-! ## 1. Marking the negations -/

namespace Token

/-- A formula is marked as its tree says, where an operand is due, and no
operand is due after it. -/
theorem markSignsFrom_tokens {level : Level} (x : Formula level) (rest : List Token) :
    markSignsFrom true (x.tokensWith (.binary .minus) ++ rest) =
      x.tokensWith .negate ++ markSignsFrom false rest := by
  induction x generalizing rest with
  | lift h x ih => exact ih rest
  | binary op x y ihx ihy =>
    simp only [Formula.tokensWith, List.append_assoc, List.cons_append]
    rw [ihx, markSignsFrom, opensOperand, ihy]
    rfl
  | negate x ih =>
    simp only [Formula.tokensWith, List.cons_append]
    rw [markSignsFrom, opensOperand, ih]
    rfl
  | suffix x s ih =>
    simp only [Formula.tokensWith, List.append_assoc]
    rw [ih]
    rfl
  | number v => rfl
  | group x ih =>
    simp only [Formula.tokensWith, List.cons_append, List.append_assoc]
    rw [markSignsFrom, opensOperand, ih]
    rfl
  | call f x ih =>
    simp only [Formula.tokensWith, List.cons_append, List.append_assoc]
    rw [markSignsFrom, markSignsFrom, opensOperand, ih]
    rfl

theorem markSigns_tokens {level : Level} (x : Formula level) :
    markSigns x.tokens = x.signedTokens := by
  simpa [markSigns, markSignsFrom] using markSignsFrom_tokens x []

end Token

/-! ## 2. The stack below and the tokens behind a phrase -/

namespace Rpn

/-- A token list whose first token takes `op` off the top of the stack. -/
def Releases (op : Operator) : List Token → Prop
  | [] | .closeParen :: _ => True
  | .operator next :: _ => op.goesBefore next = true
  | _ => False

/-- A phrase of the level can be read on top of the stack: its operators
release nothing that waits there, and no function waits for a group. -/
structure Bears (level : Level) (held : List Held) : Prop where
  keeps : ∀ next : Operator, level.floor ≤ next.precedence → release next held = ([], held)
  noCall : ∀ f, held.head? ≠ some (.function f)

/-- What follows a phrase of the level releases all its operators. -/
def Ends (level : Level) (rest : List Token) : Prop :=
  ∀ op : Operator, level.floor ≤ op.precedence → Releases op rest

theorem Bears.mono {level tight : Level} {held : List Held} (h : level.floor ≤ tight.floor)
    (hheld : Bears level held) : Bears tight held := by
  refine ⟨?_, hheld.noCall⟩
  intro next hnext
  exact hheld.keeps next (Nat.le_trans h hnext)

theorem Ends.mono {level tight : Level} {rest : List Token} (h : level.floor ≤ tight.floor)
    (hrest : Ends level rest) : Ends tight rest := by
  intro op hop
  exact hrest op (Nat.le_trans h hop)

theorem bears_nil (level : Level) : Bears level [] :=
  ⟨fun _ _ => rfl, by simp⟩

theorem bears_group (level : Level) (held : List Held) : Bears level (.group :: held) :=
  ⟨fun _ _ => rfl, by simp⟩

/-- An operator that goes before no operator of the phrase bears it. -/
theorem bears_operator {level : Level} {op : Operator} (held : List Held)
    (hstays : ∀ next : Operator, level.floor ≤ next.precedence → op.goesBefore next = false) :
    Bears level (.operator op :: held) := by
  refine ⟨?_, by simp⟩
  intro next hnext
  simp [release, hstays next hnext]

/-- A binary operator waits for a right operand of its right level. -/
theorem bears_binary (op : BinaryOperator) (held : List Held) :
    Bears op.rightLevel (.operator (.binary op) :: held) := by
  apply bears_operator
  intro next
  match next with
  | .binary next => cases op <;> cases next <;> decide
  | .negate => cases op <;> decide

/-- A negation waits for its operand. -/
theorem bears_negate (held : List Held) : Bears .signed (.operator .negate :: held) := by
  apply bears_operator
  intro next
  match next with
  | .binary next => cases next <;> decide
  | .negate => decide

/-- A binary operator ends its left operand. -/
theorem ends_binary (op : BinaryOperator) (rest : List Token) :
    Ends op.leftLevel (.operator (.binary op) :: rest) := by
  intro earlier
  match earlier with
  | .binary earlier => cases op <;> cases earlier <;> simp only [Releases] <;> decide
  | .negate => cases op <;> simp only [Releases] <;> decide

/-- No operator stands at the two innermost levels. -/
theorem ends_of_floor_eq_five {level : Level} (h : level.floor = 5) (rest : List Token) :
    Ends level rest := by
  intro op hop
  rw [h] at hop
  match op, hop with
  | .binary op, hop => cases op <;> simp [Operator.precedence] at hop
  | .negate, hop => simp [Operator.precedence] at hop

theorem ends_nil (level : Level) : Ends level [] :=
  fun _ _ => trivial

theorem ends_closeParen (level : Level) (rest : List Token) : Ends level (.closeParen :: rest) :=
  fun _ _ => trivial

/-- Closing a group that no function waits for takes the group alone. -/
theorem closeGroup?_group {held : List Held} (h : ∀ f, held.head? ≠ some (.function f)) :
    closeGroup? (.group :: held) = some ([], held) := by
  match held, h with
  | [], _ => rfl
  | .operator _ :: _, _ => rfl
  | .group :: _, _ => rfl
  | .function f :: _, h => exact absurd rfl (h f)

/-- A released operator goes to the output, and the rest is read as if it
had not been there. -/
theorem arrange?_operator_held {op : Operator} {held : List Held} {rest : List Token}
    (h : Releases op rest) :
    arrange? (.operator op :: held) rest = (arrange? held rest).map (.operator op :: ·) := by
  match rest, h with
  | [], _ => rfl
  | .closeParen :: rest, _ =>
    simp only [arrange?, closeGroup?]
    cases closeGroup? held with
    | none => rfl
    | some found => simp [Option.map_map, Function.comp_def]
  | .operator next :: rest, h =>
    simp only [Releases] at h
    simp [arrange?, release, h, Option.map_map, Function.comp_def]

/-! ## 3. A phrase is reordered as its tree says -/

theorem arrange?_signedTokens {level : Level} (x : Formula level) {held : List Held}
    {rest : List Token} (hheld : Bears level held) (hrest : Ends level rest) :
    arrange? held (x.tokensWith .negate ++ rest) = (arrange? held rest).map (x.rpn ++ ·) := by
  induction x generalizing held rest with
  | lift h x ih =>
    have hfloor := Level.floor_le_of_tighter? h
    exact ih (hheld.mono hfloor) (hrest.mono hfloor)
  | binary op x y ihx ihy =>
    have hleft : op.level.floor ≤ op.leftLevel.floor := by cases op <;> decide
    have hright : op.level.floor ≤ op.rightLevel.floor := by cases op <;> decide
    have hown : op.level.floor ≤ (Operator.binary op).precedence := by cases op <;> decide
    -- the operator takes nothing off the stack, waits over `y`, and is released behind it
    simp only [Formula.tokensWith, Formula.rpn, List.append_assoc, List.cons_append]
    rw [ihx (hheld.mono hleft) (ends_binary op _), arrange?, hheld.keeps _ hown]
    simp only
    rw [ihy (bears_binary op held) (hrest.mono hright), arrange?_operator_held (hrest _ hown)]
    simp [Option.map_map, Function.comp_def]
  | negate x ih =>
    have hown : Level.signed.floor ≤ Operator.negate.precedence := by decide
    simp only [Formula.tokensWith, Formula.rpn, List.append_assoc, List.cons_append]
    rw [arrange?, hheld.keeps _ hown]
    simp only
    rw [ih (bears_negate held) hrest, arrange?_operator_held (hrest _ hown)]
    simp [Option.map_map, Function.comp_def]
  | suffix x s ih =>
    simp only [Formula.tokensWith, Formula.rpn, List.append_assoc, List.cons_append]
    rw [ih hheld (ends_of_floor_eq_five rfl _)]
    simp [arrange?, Option.map_map, Function.comp_def]
  | number v => rfl
  | group x ih =>
    simp only [Formula.tokensWith, Formula.rpn, List.append_assoc, List.cons_append]
    rw [arrange?, ih (bears_group _ held) (ends_closeParen _ _)]
    simp [arrange?, closeGroup?_group hheld.noCall]
  | call f x ih =>
    simp only [Formula.tokensWith, Formula.rpn, List.append_assoc, List.cons_append]
    rw [arrange?, arrange?, ih (bears_group _ _) (ends_closeParen _ _)]
    simp [arrange?, closeGroup?, Option.map_map, Function.comp_def]

theorem ofTokens_signedTokens (x : Formula .sum) : ofTokens x.signedTokens = .ok x.rpn := by
  have h := arrange?_signedTokens x (bears_nil .sum) (ends_nil .sum)
  simp only [List.append_nil] at h
  simp [ofTokens, h, arrange?, releaseAll?]

/-! ## 4. The reverse order has the value of the tree -/

theorem run_rpn (unit : AngleUnit) {level : Level} (x : Formula level) (rest : List Token)
    (stack : List Float) :
    run unit (x.rpn ++ rest) stack = run unit rest (x.value unit :: stack) := by
  induction x generalizing rest stack with
  | lift h x ih => exact ih rest stack
  | binary op x y ihx ihy =>
    rw [Formula.rpn, List.append_assoc, List.append_assoc, ihx, ihy]
    rfl
  | negate x ih =>
    rw [Formula.rpn, List.append_assoc, ih]
    rfl
  | suffix x s ih =>
    rw [Formula.rpn, List.append_assoc, ih]
    rfl
  | number v => rfl
  | group x ih => exact ih rest stack
  | call f x ih =>
    rw [Formula.rpn, List.append_assoc, ih]
    rfl

theorem eval_rpn (unit : AngleUnit) {level : Level} (x : Formula level) :
    eval unit x.rpn = .ok (x.value unit) := by
  have h := run_rpn unit x [] []
  rw [List.append_nil] at h
  rw [eval, h]
  rfl

end Rpn

/-- The tokens of a formula have the value of the formula. -/
theorem Expression.evaluateTokens_tokens (unit : AngleUnit) (x : Formula .sum) :
    evaluateTokens unit x.tokens = .ok (x.value unit) := by
  rw [evaluateTokens, Token.markSigns_tokens, Rpn.ofTokens_signedTokens]
  simp only [Rpn.eval_rpn]

end PocketCalc
