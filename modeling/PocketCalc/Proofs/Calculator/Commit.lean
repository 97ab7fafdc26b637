/-
PocketCalc.Proofs.Calculator.Commit — a commit keeps what the preview
promised.

The preview evaluates the line as it stands, a commit evaluates it with
its open parentheses closed. The two agree where the preview shows
something: a line with a value has as many closing parentheses as opening
ones (`parens_of_evaluate`), because the tokens have the parentheses of the
text and can be reordered only when these match. So there is nothing left
to close. Where the preview shows nothing the line has no value, and a
commit can find one only if there was something to close.

Main statement: `commit_settledText`.
-/
import PocketCalc.Calculator
import PocketCalc.Proofs.Formula.Spelling
import PocketCalc.Proofs.Number.Display
import PocketCalc.Proofs.Rpn.Conservation
import PocketCalc.Proofs.Token.Reading

namespace PocketCalc

/-! ## 1. Closing parentheses -/

/-- A blank text has no parentheses. -/
theorem Text.count_of_isBlank {text : Text} (h : isBlank text = true) {c : Char}
    (hc : isWhiteSpace c = false) : text.count c = 0 := by
  refine List.count_eq_zero.mpr ?_
  intro hmem
  rw [isBlank, List.all_eq_true] at h
  rw [h c hmem] at hc
  cases hc

/-- A text that has a value has as many closing parentheses as opening ones. -/
theorem Expression.parens_of_evaluate {unit : AngleUnit} {text : Text} {value : Float}
    (h : evaluate unit text = .ok value) : text.count '(' = text.count ')' := by
  cases hblank : Text.isBlank text with
  | true =>
    rw [Text.count_of_isBlank hblank (by decide), Text.count_of_isBlank hblank (by decide)]
  | false =>
    cases htokens : Token.tokenize text with
    | error fault =>
      rw [evaluate_of_tokenize_error hblank htokens] at h
      cases h
    | ok tokens =>
      rw [evaluate_of_tokenize hblank htokens] at h
      obtain ⟨rpn, hrpn, -⟩ := evaluateTokens_eq_ok_iff.mp h
      obtain ⟨hopen, hclose⟩ := Token.tokenize_counts htokens
      rw [← hopen, ← hclose]
      exact (Rpn.balanced_of_ofTokens hrpn).2

/-! ## 2. What a commit does -/

namespace Calculator

open Number

variable {state : Calculator} {value : Float}

theorem closedEntry_of_evaluate {unit : AngleUnit}
    (h : Expression.evaluate unit state.entry = .ok value) : state.closedEntry = state.entry :=
  Entry.closeParens_eq_self (Nat.le_of_eq (Expression.parens_of_evaluate h))

/-- A commit has a value when the closed line has one that is finite. -/
theorem committedValue?_eq_some_iff :
    state.committedValue? = some value ↔
      Expression.evaluate state.unit state.closedEntry = .ok value ∧ value.isFinite = true := by
  unfold committedValue?
  cases Expression.evaluate state.unit state.closedEntry with
  | error fault => simp
  | ok v =>
    by_cases hv : display v = errorText
    · have hfinite := display_eq_errorText_iff.mp hv
      simp only [hv, if_true, reduceCtorEq, Except.ok.injEq, false_iff]
      rintro ⟨rfl, h⟩
      rw [hfinite] at h
      cases h
    · have hfinite : v.isFinite = true := by simpa [display_eq_errorText_iff] using hv
      simp only [hv, if_false, Option.some.injEq, Except.ok.injEq]
      constructor
      · rintro rfl
        exact ⟨rfl, hfinite⟩
      · rintro ⟨rfl, -⟩
        rfl

theorem commit_of_none (h : state.committedValue? = none) :
    state.commit = { state with wantsFocus := true } := by
  rw [commit, h]

/-- The state after a commit that has a value. -/
def committed (value : Float) (state : Calculator) : Calculator :=
  { state with
    history := recorded state.closedEntry value state.history
    working := workingOf state.closedEntry
    entry := reentry value
    preview := state.preview.clear
    resultShown := true
    wantsFocus := true }

theorem commit_of_some (h : state.committedValue? = some value) :
    state.commit = state.committed value := by
  rw [commit, h, committed]

/-- The empty line is worth zero, so it can be committed. -/
theorem committedValue?_of_entry_nil (h : state.entry = []) : state.committedValue? = some 0 := by
  have hclosed : state.closedEntry = [] := by
    unfold closedEntry
    rw [h]
    rfl
  refine committedValue?_eq_some_iff.mpr ⟨?_, rfl⟩
  rw [hclosed]
  rfl

/-- What is recorded of a line that is not blank is the newest calculation. -/
theorem calculations_recorded {expression : Text} (h : Text.isBlank expression = false)
    (value : Float) (history : History) :
    ∃ older, (recorded expression value history).calculations =
      ⟨.ofExpression expression, Entry.pretty expression, display value⟩ :: older := by
  refine ⟨history.calculations.take (History.capacity - 1), ?_⟩
  simp [recorded, h, History.add, History.capacity]

/-! ## 3. What the preview promises -/

/-- What the preview of the line shows when it has settled. -/
def settledText (state : Calculator) : Text :=
  Preview.textFor (Expression.evaluate state.unit state.entry)

theorem settledText_of_ok (h : Expression.evaluate state.unit state.entry = .ok value) :
    state.settledText = display value := by
  rw [settledText, h, Preview.textFor]

theorem settledText_of_error {fault : Fault}
    (h : Expression.evaluate state.unit state.entry = .error fault) : state.settledText = [] := by
  rw [settledText, h, Preview.textFor]

/-- A line whose preview shows something has a value, the one shown. -/
theorem evaluate_of_settledText (h : state.settledText ≠ []) :
    ∃ value, Expression.evaluate state.unit state.entry = .ok value ∧
      display value = state.settledText := by
  cases hvalue : Expression.evaluate state.unit state.entry with
  | ok value => exact ⟨value, rfl, (settledText_of_ok hvalue).symm⟩
  | error fault => exact absurd (settledText_of_error hvalue) h

/-- A number that is shown is committed. -/
theorem committedValue?_of_settledText (hshown : state.settledText ≠ [])
    (hnumber : state.settledText ≠ errorText) :
    ∃ value, state.committedValue? = some value ∧ display value = state.settledText ∧
      state.closedEntry = state.entry := by
  obtain ⟨value, hvalue, hdisplay⟩ := evaluate_of_settledText hshown
  have hfinite : value.isFinite = true := by
    rw [← hdisplay] at hnumber
    simpa [display_eq_errorText_iff] using hnumber
  have hclosed := closedEntry_of_evaluate hvalue
  refine ⟨value, committedValue?_eq_some_iff.mpr ⟨?_, hfinite⟩, hdisplay, hclosed⟩
  rw [hclosed, hvalue]

/-- What is committed is shown, unless the preview shows nothing. -/
theorem display_of_committedValue? (h : state.committedValue? = some value)
    (hclosed : state.settledText = [] → state.closedEntry = state.entry) :
    display value = state.settledText := by
  obtain ⟨hevaluate, -⟩ := committedValue?_eq_some_iff.mp h
  cases hvalue : Expression.evaluate state.unit state.entry with
  | ok shown =>
    rw [closedEntry_of_evaluate hvalue, hvalue] at hevaluate
    obtain rfl : shown = value := Except.ok.inj hevaluate
    exact (settledText_of_ok hvalue).symm
  | error fault =>
    rw [hclosed (settledText_of_error hvalue), hvalue] at hevaluate
    cases hevaluate

theorem committedValue?_of_settledText_error (h : state.settledText = errorText) :
    state.committedValue? = none := by
  cases hcommitted : state.committedValue? with
  | none => rfl
  | some value =>
    obtain ⟨-, hfinite⟩ := committedValue?_eq_some_iff.mp hcommitted
    have hdisplay : display value = state.settledText := by
      refine display_of_committedValue? hcommitted ?_
      intro hshown
      rw [h] at hshown
      exact absurd hshown (by decide)
    rw [display_eq_errorText_iff.mp (hdisplay.trans h)] at hfinite
    cases hfinite

theorem committedValue?_of_settledText_nil (h : state.settledText = [])
    (hclosed : state.closedEntry = state.entry) : state.committedValue? = none := by
  cases hcommitted : state.committedValue? with
  | none => rfl
  | some value =>
    have hdisplay := display_of_committedValue? hcommitted (fun _ => hclosed)
    exact absurd (hdisplay.trans h) (display_ne_nil value)

/-- A commit commits what the settled preview shows: a number shown is the number
committed and recorded, and after `Error` or nothing shown the calculator stays as it is.
Only where the preview shows nothing and parentheses are open can a commit find a value. -/
theorem commit_settledText (state : Calculator) :
    (state.settledText ≠ [] → state.settledText ≠ "Error".toList →
      ∃ value, state.committedValue? = some value ∧ display value = state.settledText ∧
        state.commit.entry = reentry value ∧ state.commit.resultShown = true ∧
        (Text.isBlank state.entry = false →
          ∃ calculation older, state.commit.history.calculations = calculation :: older ∧
            calculation.result = state.settledText)) ∧
    (state.settledText = "Error".toList → state.commit = { state with wantsFocus := true }) ∧
    (state.settledText = [] → state.entry.count '(' ≤ state.entry.count ')' →
      state.commit = { state with wantsFocus := true }) ∧
    (∀ value, state.committedValue? = some value →
      display value = state.settledText ∨
      (state.settledText = [] ∧ state.entry.count ')' < state.entry.count '(')) := by
  refine ⟨?_, ?_, ?_, ?_⟩
  · intro hshown hnumber
    obtain ⟨value, hcommitted, hdisplay, hclosed⟩ :=
      committedValue?_of_settledText hshown hnumber
    rw [commit_of_some hcommitted]
    refine ⟨value, hcommitted, hdisplay, rfl, rfl, ?_⟩
    intro hblank
    rw [← hclosed] at hblank
    obtain ⟨older, hnewest⟩ := calculations_recorded hblank value state.history
    exact ⟨_, older, hnewest, hdisplay⟩
  · intro herror
    exact commit_of_none (committedValue?_of_settledText_error herror)
  · intro hshown hcount
    have hclosed := Entry.closeParens_eq_self hcount
    exact commit_of_none (committedValue?_of_settledText_nil hshown hclosed)
  · intro value hcommitted
    by_cases hopen : state.settledText = [] ∧ state.entry.count ')' < state.entry.count '('
    · exact Or.inr hopen
    · refine Or.inl (display_of_committedValue? hcommitted ?_)
      intro hshown
      have hcount : state.entry.count '(' ≤ state.entry.count ')' := by
        simpa [hshown] using hopen
      exact Entry.closeParens_eq_self hcount

/-- A line whose parenthesis is still open. -/
def unclosed : Calculator :=
  { entry := "(pi".toList }

theorem scan_unclosed (rest : Text) :
    Token.scan ("(pi".toList ++ rest) =
      ((Token.scan rest).map (.number pi :: ·)).map (.openParen :: ·) := by
  show Token.scan ('(' :: 'p' :: 'i' :: rest) = _
  rw [Token.scan_symbol rfl, Token.scan_cons_of_ok (Token.lexeme_pi rest)]

theorem evaluate_unclosed :
    Expression.evaluate .degrees "(pi".toList = .error (.reading .unmatchedParens) := by
  have htokens : Token.tokenize "(pi".toList = .ok [.openParen, .number pi] := by
    show Token.scan ("(pi".toList ++ []) = _
    rw [scan_unclosed, Token.scan_nil]
    rfl
  rw [Expression.evaluate_of_tokenize (by decide) htokens]
  rfl

theorem committedValue?_unclosed : unclosed.committedValue? = some pi := by
  have htokens : Token.tokenize "(pi)".toList = .ok [.openParen, .number pi, .closeParen] := by
    show Token.scan ("(pi".toList ++ [')']) = _
    rw [scan_unclosed, Token.scan_symbol rfl, Token.scan_nil]
    rfl
  refine committedValue?_eq_some_iff.mpr ⟨?_, by decide +kernel⟩
  show Expression.evaluate .degrees "(pi)".toList = _
  rw [Expression.evaluate_of_tokenize (by decide) htokens]
  rfl

/-- The preview shows nothing there, and a commit finds a value. -/
theorem commit_settledText_unclosed :
    unclosed.committedValue? = some pi ∧ display pi ≠ unclosed.settledText ∧
      unclosed.settledText = [] ∧ unclosed.entry.count ')' < unclosed.entry.count '(' := by
  obtain ⟨-, -, -, hdiffers⟩ := commit_settledText unclosed
  have hshown : display pi ≠ unclosed.settledText := by
    rw [settledText_of_error evaluate_unclosed]
    exact display_ne_nil pi
  exact ⟨committedValue?_unclosed, hshown,
    (hdiffers pi committedValue?_unclosed).resolve_left hshown⟩

end Calculator

end PocketCalc
