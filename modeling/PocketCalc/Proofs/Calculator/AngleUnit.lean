/-
PocketCalc.Proofs.Calculator.AngleUnit — the unit of angles matters to
trigonometric functions only.

The unit is looked at in one place, where a function is applied
(`MathFunction.apply`). It never decides which token is next, nor how many
values are on the stack, so two runs of the same tokens in different units
stay together step by step, up to the first trigonometric function; where
there is none, to the end (`run_eq_run`). Reordering brings in no function
that was not read, and the parentheses closed by a commit are no functions
at all, so a line that names none of the six has one value, or one fault,
in both units, well formed or not.

What counts is the reading and not the letters: `asinh(` spells `sin` and
`asin` and names neither.

Main statement: `toggleUnit_angleFree`.
-/
import PocketCalc.Proofs.Calculator.Coherence
import PocketCalc.Proofs.Entry.Closing
import PocketCalc.Proofs.Preview.Delivery
import PocketCalc.Proofs.Rpn.Matching

namespace PocketCalc

/-! ## 1. Tokens without angles -/

namespace Token

/-- Whether a token is a function that takes or gives an angle. -/
def isTrigonometric : Token → Bool
  | function f => f.isTrigonometric
  | _ => false

/-- No token of the list takes or gives an angle. -/
def AngleFree (tokens : List Token) : Prop :=
  ∀ token ∈ tokens, token.isTrigonometric = false

instance (tokens : List Token) : Decidable (AngleFree tokens) :=
  inferInstanceAs (Decidable (∀ token ∈ tokens, token.isTrigonometric = false))

/-- Marking the negations marks no function. -/
theorem AngleFree.markSignsFrom {tokens : List Token} (h : AngleFree tokens) (due : Bool) :
    AngleFree (markSignsFrom due tokens) := by
  induction tokens generalizing due with
  | nil => exact h
  | cons token tokens ih =>
    obtain ⟨htoken, htokens⟩ := List.forall_mem_cons.mp h
    refine List.forall_mem_cons.mpr ⟨?_, ih htokens _⟩
    split
    · rfl
    · exact htoken

end Token

/-! ## 2. Two runs in different units -/

namespace Rpn

variable {token : Token} {tokens rpn : List Token}

/-- A token that takes and gives no angle does the same to every stack in every unit. -/
theorem step_eq_step (h : token.isTrigonometric = false) (unit other : AngleUnit)
    (stack : List Float) : step unit token stack = step other token stack := by
  cases token with
  | number x | openParen | closeParen => rfl
  | suffix s => cases stack <;> rfl
  | operator op =>
    match op, stack with
    | .negate, [] | .negate, _ :: _ => rfl
    | .binary _, [] | .binary _, [_] | .binary _, _ :: _ :: _ => rfl
  | function f =>
    cases stack with
    | nil => rfl
    | cons x stack => rw [step, step, MathFunction.apply_eq_apply h unit other]

theorem run_eq_run (h : Token.AngleFree tokens) (unit other : AngleUnit) (stack : List Float) :
    run unit tokens stack = run other tokens stack := by
  induction tokens generalizing stack with
  | nil => rfl
  | cons token tokens ih =>
    obtain ⟨htoken, htokens⟩ := List.forall_mem_cons.mp h
    rw [run, run, step_eq_step htoken unit other]
    cases step other token stack with
    | ok next => exact ih htokens next
    | error fault => rfl

/-- Reordering brings in no function. -/
theorem angleFree_ofTokens (h : Token.AngleFree tokens) (hrpn : ofTokens tokens = .ok rpn) :
    Token.AngleFree rpn := by
  intro token htoken
  have hread := (perm_ofTokens hrpn).mem_iff.mp htoken
  exact h token (List.mem_filter.mp hread).1

end Rpn

/-! ## 3. Expressions without angles -/

namespace Expression

variable {text : Text} {tokens : List Token}

/-- The reading of an expression names no trigonometric function. An expression that cannot
be read names none. -/
def AngleFree (text : Text) : Prop :=
  ∀ tokens, Token.tokenize text = .ok tokens → Token.AngleFree tokens

theorem evaluateTokens_eq_evaluateTokens (h : Token.AngleFree tokens) (unit other : AngleUnit) :
    evaluateTokens unit tokens = evaluateTokens other tokens := by
  unfold evaluateTokens
  cases hrpn : Rpn.ofTokens (Token.markSigns tokens) with
  | error fault => rfl
  | ok rpn =>
    have hfree := Rpn.angleFree_ofTokens (h.markSignsFrom true) hrpn
    simp only [Rpn.eval, Rpn.run_eq_run hfree unit other]

/-- An expression without angles has the same value, or the same fault, in every unit. -/
theorem AngleFree.evaluate_eq (h : AngleFree text) (unit other : AngleUnit) :
    evaluate unit text = evaluate other text := by
  cases hblank : Text.isBlank text with
  | true => rw [evaluate, evaluate, if_pos hblank, if_pos hblank]
  | false =>
    cases htokens : Token.tokenize text with
    | error fault =>
      rw [evaluate_of_tokenize_error hblank htokens, evaluate_of_tokenize_error hblank htokens]
    | ok tokens =>
      rw [evaluate_of_tokenize hblank htokens, evaluate_of_tokenize hblank htokens]
      exact evaluateTokens_eq_evaluateTokens (h tokens htokens) unit other

/-- Closing the parentheses of a line names no function. -/
theorem AngleFree.closeParens (h : AngleFree text) : AngleFree (Entry.closeParens text) := by
  intro tokens htokens token htoken
  obtain ⟨read, hread, rfl⟩ := Entry.tokenize_closeParens_iff.mp htokens
  rcases List.mem_append.mp htoken with hmem | hclose
  · exact h read hread token hmem
  · rw [List.eq_of_mem_replicate hclose]
    rfl

end Expression

/-! ## 4. Changing the unit -/

namespace Calculator

variable {state : Calculator}

theorem settledText_toggleUnit (h : Expression.AngleFree state.entry) :
    state.toggleUnit.settledText = state.settledText :=
  congrArg Preview.textFor (h.evaluate_eq state.unit.toggle state.unit)

theorem committedValue?_toggleUnit (h : Expression.AngleFree state.entry) :
    state.toggleUnit.committedValue? = state.committedValue? := by
  have hclosed : Expression.AngleFree state.closedEntry := h.closeParens
  have hvalue : Expression.evaluate state.toggleUnit.unit state.toggleUnit.closedEntry =
      Expression.evaluate state.unit state.closedEntry :=
    hclosed.evaluate_eq state.unit.toggle state.unit
  rw [committedValue?, committedValue?, hvalue]

/-- A commit does the same in both units; only the preview has had one more call. -/
theorem commit_toggleUnit (h : Expression.AngleFree state.entry) :
    state.toggleUnit.commit =
      { state.commit with
        unit := state.unit.toggle
        preview := state.toggleUnit.commit.preview } ∧
    state.toggleUnit.commit.preview.text = state.commit.preview.text := by
  have hsame := committedValue?_toggleUnit h
  cases hvalue : state.committedValue? with
  | none =>
    rw [commit_of_none (hsame.trans hvalue), commit_of_none hvalue]
    exact ⟨rfl, rfl⟩
  | some value =>
    rw [commit_of_some (hsame.trans hvalue), commit_of_some hvalue]
    exact ⟨rfl, rfl⟩

/-- A line that names no trigonometric function has the same value, or the same fault, in
both units of angles. So where the unit is changed the preview of the line settles, in
whatever order it moves, to the text that was due before, and a number it showed stays; and
a commit commits the same value, or nothing as before. -/
theorem toggleUnit_angleFree {text : Text} (h : Expression.AngleFree text) :
    Expression.evaluate .degrees text = Expression.evaluate .radians text ∧
    ∀ state : Calculator, state.entry = text →
      state.toggleUnit.settledText = state.settledText ∧
      state.toggleUnit.committedValue? = state.committedValue? ∧
      state.toggleUnit.commit =
        { state.commit with
          unit := state.unit.toggle
          preview := state.toggleUnit.commit.preview } ∧
      state.toggleUnit.commit.preview.text = state.commit.preview.text ∧
      (∀ events, run? events {} = some state →
        (∀ moves settled, Preview.callsOf moves = [] →
          Preview.run? moves state.toggleUnit.preview = some settled →
            settled.isPending = false → settled.text = state.settledText) ∧
        state.toggleUnit.settle.preview.isPending = false ∧
        (state.preview.isPending = false → state.preview.text ≠ [] →
          state.toggleUnit.settle.preview.text = state.preview.text)) := by
  refine ⟨h.evaluate_eq _ _, ?_⟩
  rintro state rfl
  obtain ⟨hcommit, htext⟩ := commit_toggleUnit h
  refine ⟨settledText_toggleUnit h, committedValue?_toggleUnit h, hcommit, htext, ?_⟩
  intro events hevents
  obtain ⟨past, hpast⟩ := exists_run?_preview hevents
  have hagrees := Preview.Agrees.start.run hpast
  have horder : Preview.InOrder (Preview.answeredBy past {}) state.toggleUnit.preview :=
    (Preview.InOrder.start.run hpast).submit state.entry state.unit.toggle
  have hsettles : ∀ moves settled, Preview.callsOf moves = [] →
      Preview.run? moves state.toggleUnit.preview = some settled →
        settled.isPending = false → settled.text = state.settledText := by
    intro moves settled hcalls hrun hsettled
    rw [hagrees.text_of_submit hcalls hrun hsettled]
    exact settledText_toggleUnit h
  refine ⟨hsettles, horder.settle, ?_⟩
  intro hsettled hshown
  obtain ⟨moves, hcalls, hrun⟩ := Preview.run?_settle state.toggleUnit.preview
  rcases (Coherent.run hevents).text hsettled with hworth | ⟨hnothing, -⟩
  · rw [hworth]
    exact hsettles moves _ hcalls hrun horder.settle
  · exact absurd hnothing hshown

/-- A line typed over, with its parenthesis still open. The letters `sin` and `asin` stand
in it, and neither function is meant. -/
def hyperbolic : Calculator :=
  ({} : Calculator).edit "asinh(pi".toList

/-- It is worth nothing before it is closed, and the same in both units after. -/
theorem toggleUnit_angleFree_hyperbolic :
    Expression.AngleFree hyperbolic.entry ∧
    run? [.type "asinh(pi".toList] {} = some hyperbolic ∧
    Expression.evaluate .degrees "asinh(pi".toList =
      Expression.evaluate .radians "asinh(pi".toList ∧
    hyperbolic.toggleUnit.committedValue? = hyperbolic.committedValue? ∧
    hyperbolic.toggleUnit.settle.preview.isPending = false := by
  have htokens : Token.tokenize "asinh(pi".toList =
      .ok [.function .asinh, .openParen, .number pi] := by
    with_unfolding_all rfl
  have hfree : Expression.AngleFree hyperbolic.entry := by
    intro tokens hread
    cases htokens.symm.trans hread
    decide
  have hrun : run? [.type "asinh(pi".toList] {} = some hyperbolic := rfl
  obtain ⟨hvalue, hstate⟩ := toggleUnit_angleFree hfree
  obtain ⟨-, hcommitted, -, -, hreached⟩ := hstate hyperbolic rfl
  exact ⟨hfree, hrun, hvalue, hcommitted, (hreached _ hrun).2.1⟩

end Calculator

end PocketCalc
