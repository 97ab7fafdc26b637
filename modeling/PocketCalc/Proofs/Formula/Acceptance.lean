/-
PocketCalc.Proofs.Formula.Acceptance — which lists of tokens have a value.

Every formula has a value, but it is not true that nothing else has one.
The reverse order is checked only for operands that are missing or left
over, so a list is accepted when operators, functions or parentheses stand
in the wrong place and the count comes out right (`misplaced_accepted`).

What holds is that a value is always the value of a formula. A run that
succeeds can be read back into trees (`exists_trees_of_run`): the values on
the stack are those of trees whose reverse orders make up what was run. So
an accepted list is a `Rearrangement` of the tokens of a formula, and is
worth what the formula is worth. Main statement: `evaluate_eq_ok_iff`.
-/
import PocketCalc.Proofs.Formula.Spelling
import PocketCalc.Proofs.Rpn.Conservation

namespace PocketCalc

/-! ## 1. Building formulas -/

namespace Formula

/-- A phrase of any level as a sum. -/
def toSum : {level : Level} → Formula level → Formula .sum
  | .sum, x => x
  | .product, x => ofProduct x
  | .power, x => ofProduct (ofPower x)
  | .signed, x => ofProduct (ofPower (ofSigned x))
  | .suffixed, x => ofProduct (ofPower (ofSigned (ofSuffixed x)))
  | .atom, x => ofProduct (ofPower (ofSigned (ofSuffixed (ofAtom x))))

/-- A sum in parentheses, as a phrase of any level. -/
def grouped (x : Formula .sum) : (level : Level) → Formula level
  | .sum => ofProduct (ofPower (ofSigned (ofSuffixed (ofAtom (group x)))))
  | .product => ofPower (ofSigned (ofSuffixed (ofAtom (group x))))
  | .power => ofSigned (ofSuffixed (ofAtom (group x)))
  | .signed => ofSuffixed (ofAtom (group x))
  | .suffixed => ofAtom (group x)
  | .atom => group x

@[simp] theorem rpn_toSum {level : Level} (x : Formula level) : x.toSum.rpn = x.rpn := by
  cases level <;> rfl

@[simp] theorem value_toSum (unit : AngleUnit) {level : Level} (x : Formula level) :
    x.toSum.value unit = x.value unit := by
  cases level <;> rfl

@[simp] theorem rpn_grouped (x : Formula .sum) (level : Level) : (x.grouped level).rpn = x.rpn := by
  cases level <;> rfl

@[simp] theorem value_grouped (unit : AngleUnit) (x : Formula .sum) (level : Level) :
    (x.grouped level).value unit = x.value unit := by
  cases level <;> rfl

/-- The reverse order of a stack of trees, whose top is the first element. -/
def stackRpn (trees : List (Formula .sum)) : List Token :=
  trees.reverse.flatMap rpn

theorem stackRpn_cons (x : Formula .sum) (trees : List (Formula .sum)) :
    stackRpn (x :: trees) = stackRpn trees ++ x.rpn := by
  simp [stackRpn]

end Formula

/-! ## 2. Reading back a run -/

namespace Rpn

open Formula

/-- A step that succeeds on the values of trees leaves the values of trees. -/
theorem exists_trees_of_step {unit : AngleUnit} {token : Token} {trees : List (Formula .sum)}
    {out : List Float} (h : step unit token (trees.map (value unit)) = .ok out) :
    ∃ built : List (Formula .sum),
      out = built.map (value unit) ∧ stackRpn built = stackRpn trees ++ [token] := by
  match token, trees, h with
  | .number v, trees, h =>
    cases h
    exact ⟨toSum (number v) :: trees, by simp [value], by simp [stackRpn_cons, rpn]⟩
  | .operator (.binary op), y :: x :: trees, h =>
    cases h
    exact ⟨toSum (binary op (x.grouped _) (y.grouped _)) :: trees, by simp [value],
      by simp [stackRpn_cons, rpn]⟩
  | .operator .negate, x :: trees, h =>
    cases h
    exact ⟨toSum (negate (x.grouped _)) :: trees, by simp [value], by simp [stackRpn_cons, rpn]⟩
  | .function f, x :: trees, h =>
    cases h
    exact ⟨toSum (call f x) :: trees, by simp [value], by simp [stackRpn_cons, rpn]⟩
  | .suffix s, x :: trees, h =>
    cases h
    exact ⟨toSum (suffix (x.grouped _) s) :: trees, by simp [value], by simp [stackRpn_cons, rpn]⟩

theorem exists_trees_of_run {unit : AngleUnit} {tokens : List Token} {trees : List (Formula .sum)}
    {out : List Float} (h : run unit tokens (trees.map (value unit)) = .ok out) :
    ∃ built : List (Formula .sum),
      out = built.map (value unit) ∧ stackRpn built = stackRpn trees ++ tokens := by
  induction tokens generalizing trees with
  | nil =>
    cases h
    exact ⟨trees, rfl, (List.append_nil _).symm⟩
  | cons token tokens ih =>
    rw [run] at h
    split at h
    · rename_i next hnext
      obtain ⟨middle, rfl, hmiddle⟩ := exists_trees_of_step hnext
      obtain ⟨built, hout, hbuilt⟩ := ih h
      exact ⟨built, hout, by rw [hbuilt, hmiddle, List.append_assoc, List.singleton_append]⟩
    · cases h

/-- A run that leaves one value was the run of a formula. -/
theorem exists_formula_of_run {unit : AngleUnit} {tokens : List Token} {v : Float}
    (h : run unit tokens [] = .ok [v]) :
    ∃ x : Formula .sum, x.rpn = tokens ∧ x.value unit = v := by
  have hempty : run unit tokens (([] : List (Formula .sum)).map (value unit)) = .ok [v] := h
  obtain ⟨built, hout, hbuilt⟩ := exists_trees_of_run hempty
  match built, hout with
  | [x], hout =>
    simp only [List.map_cons, List.map_nil, List.cons.injEq, and_true] at hout
    exact ⟨x, by simpa [stackRpn] using hbuilt, hout.symm⟩

end Rpn

/-! ## 3. Rearrangements -/

namespace Token

/-- The tokens are those of `original`, where operators, functions and parentheses may
stand elsewhere as long as they are put in the same reverse order. -/
structure Rearrangement (tokens original : List Token) : Prop where
  balanced : Balanced tokens
  sameOrder : Rpn.ofTokens (markSigns tokens) = Rpn.ofTokens (markSigns original)
  keepsPlace : tokens.filter Token.keepsPlace = original.filter Token.keepsPlace
  perm : ((markSigns tokens).filter (!·.isParen)).Perm
    ((markSigns original).filter (!·.isParen))

theorem rearrangement_of_ofTokens {tokens original rpn : List Token}
    (h : Rpn.ofTokens (markSigns tokens) = .ok rpn)
    (horiginal : Rpn.ofTokens (markSigns original) = .ok rpn) : Rearrangement tokens original := by
  have harrange := Rpn.ofTokens_eq_ok_iff.mp h
  have harrange' := Rpn.ofTokens_eq_ok_iff.mp horiginal
  refine ⟨Rpn.balanced_of_ofTokens h, h.trans horiginal.symm, ?_, ?_⟩
  · rw [← filter_keepsPlace_markSignsFrom true tokens,
      ← filter_keepsPlace_markSignsFrom true original]
    exact (Rpn.arrange?_keepsPlace harrange).symm.trans (Rpn.arrange?_keepsPlace harrange')
  · exact (Rpn.arrange?_perm harrange).symm.trans (Rpn.arrange?_perm harrange')

end Token

/-! ## 4. Misplaced tokens -/

/-- A formula ends with a token that an operand may end with. -/
theorem Formula.getLast?_tokensWith (sign : Operator) {level : Level} (x : Formula level) :
    ∃ token, (x.tokensWith sign).getLast? = some token ∧ token.opensOperand = false := by
  induction x with
  | lift h x ih => exact ih
  | binary op x y _ ihy =>
    obtain ⟨token, hlast, hends⟩ := ihy
    exact ⟨token, by simp [tokensWith, List.getLast?_append, List.getLast?_cons, hlast], hends⟩
  | negate x ih =>
    obtain ⟨token, hlast, hends⟩ := ih
    exact ⟨token, by simp [tokensWith, List.getLast?_cons, hlast], hends⟩
  | suffix x s _ => exact ⟨.suffix s, by simp [tokensWith], rfl⟩
  | number v => exact ⟨.number v, rfl, rfl⟩
  | group x _ => exact ⟨.closeParen, by simp [tokensWith, List.getLast?_cons], rfl⟩
  | call f x _ => exact ⟨.closeParen, by simp [tokensWith, List.getLast?_cons], rfl⟩

namespace Expression

open Number

/-- Empty parentheses, a function without a group, operands side by side, and an operator
behind both of them. -/
def misplaced : Text :=
  "()abs2pi+".toList

def misplacedTokens : List Token :=
  [.openParen, .closeParen, .function .abs, .number (Decimal.toFloat ⟨2, 0⟩), .number pi,
    .operator (.binary .plus)]

theorem isBlank_misplaced : Text.isBlank misplaced = false := by
  decide

theorem tokenize_misplaced : Token.tokenize misplaced = .ok misplacedTokens := by
  have hsqueeze : Token.squeeze misplaced =
      '(' :: ')' :: (['a', 'b', 's'] ++ (['2'] ++ 'p' :: 'i' :: '+' :: [])) := by decide
  have htwo : Decimal.Literal ['2'] ⟨2, 0⟩ := .whole (by simp) (by simp)
  have hdigit : ∀ c ∈ (['2'] ++ 'p' :: 'i' :: '+' :: []).head?,
      Text.isAlphabetic c = false := by
    intro c hc
    cases hc
    decide
  have hletter : ∀ c ∈ ('p' :: 'i' :: '+' :: []).head?, isNumeralChar c = false := by
    intro c hc
    cases hc
    decide
  rw [Token.tokenize, hsqueeze, Token.scan_symbol rfl, Token.scan_symbol rfl,
    Token.scan_name (f := .abs) (by decide) hdigit, Token.scan_literal htwo hletter,
    Token.scan_cons_of_ok (Token.lexeme_pi _), Token.scan_symbol rfl, Token.scan_nil]
  rfl

theorem evaluate_misplaced :
    evaluate .degrees misplaced = .ok (Decimal.toFloat ⟨2, 0⟩ + pi).abs := by
  rw [evaluate_of_tokenize isBlank_misplaced tokenize_misplaced]
  rfl

/-- The grammar does not derive every expression that has a value. -/
theorem misplaced_accepted :
    Text.isBlank misplaced = false ∧
    evaluate .degrees misplaced = .ok (Decimal.toFloat ⟨2, 0⟩ + pi).abs ∧
    Token.tokenize misplaced = .ok misplacedTokens ∧
    ¬ Token.IsDerivable misplacedTokens := by
  refine ⟨isBlank_misplaced, evaluate_misplaced, tokenize_misplaced, ?_⟩
  rintro ⟨x, hx⟩
  obtain ⟨token, hlast, hends⟩ := x.getLast?_tokensWith (.binary .minus)
  rw [show x.tokensWith (.binary .minus) = misplacedTokens from hx] at hlast
  cases hlast
  cases hends

/-! ## 5. Acceptance -/

/-- An expression has a value exactly when its tokens are a rearrangement of the tokens
of a formula with that value. -/
theorem evaluate_eq_ok_iff {text : Text} (hblank : Text.isBlank text = false) (unit : AngleUnit)
    (v : Float) :
    evaluate unit text = .ok v ↔
      ∃ tokens, Token.tokenize text = .ok tokens ∧
        ∃ x : Formula .sum, Token.Rearrangement tokens x.tokens ∧ x.value unit = v := by
  constructor
  · intro h
    cases htokens : Token.tokenize text with
    | error fault =>
      rw [evaluate_of_tokenize_error hblank htokens] at h
      cases h
    | ok tokens =>
      rw [evaluate_of_tokenize hblank htokens] at h
      obtain ⟨rpn, hrpn, hrun⟩ := evaluateTokens_eq_ok_iff.mp h
      obtain ⟨x, rfl, hvalue⟩ := Rpn.exists_formula_of_run hrun
      have hx : Rpn.ofTokens (Token.markSigns x.tokens) = .ok x.rpn := by
        rw [Token.markSigns_tokens, Rpn.ofTokens_signedTokens]
      exact ⟨tokens, rfl, x, Token.rearrangement_of_ofTokens hrpn hx, hvalue⟩
  · rintro ⟨tokens, htokens, x, hx, rfl⟩
    rw [evaluate_of_tokenize hblank htokens, evaluateTokens, hx.sameOrder]
    exact evaluateTokens_tokens unit x

/-- The value of the misplaced tokens is that of a formula made of them. -/
theorem evaluate_eq_ok_iff_misplaced :
    Text.isBlank misplaced = false ∧
    ∃ tokens, Token.tokenize misplaced = .ok tokens ∧
      ∃ x : Formula .sum, Token.Rearrangement tokens x.tokens ∧
        x.value .degrees = (Decimal.toFloat ⟨2, 0⟩ + pi).abs :=
  ⟨isBlank_misplaced, (evaluate_eq_ok_iff isBlank_misplaced .degrees _).mp evaluate_misplaced⟩

end Expression

end PocketCalc
