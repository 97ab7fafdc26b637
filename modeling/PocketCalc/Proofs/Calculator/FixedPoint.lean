/-
PocketCalc.Proofs.Calculator.FixedPoint — committing a result again keeps
it.

While a result is shown the line is the text put back for a finite number
(`HoldsResult`): a commit puts it there, every edit gives the result up,
and no other event touches the line. That text is worth the number it was
made of, whatever the unit (`evaluate_reentry`), so the next commit finds
the same number and puts the same text back.

Main statement: `result_fixed`.
-/
import PocketCalc.Proofs.Calculator.Runs
import PocketCalc.Proofs.Number.Reentry

namespace PocketCalc

namespace Calculator

open Number

variable {state next : Calculator} {event : Event}

/-! ## 1. Where a result is shown -/

/-- A result shown is the text put back for a finite number. -/
def HoldsResult (state : Calculator) : Prop :=
  state.resultShown = true → ∃ value : Float, value.isFinite = true ∧ state.entry = reentry value

theorem HoldsResult.step (h : HoldsResult state) (heffect : Effect state event next) :
    HoldsResult next := by
  cases heffect with
  | edit hsubmits entry =>
    intro hshown
    cases hshown
  | toggle => exact h
  | commit hcommits hvalue =>
    intro _
    exact ⟨_, (committedValue?_eq_some_iff.mp hvalue).2, rfl⟩
  | refuse hcommits hvalue => exact h
  | clear => exact h
  | background hmove => exact h

theorem HoldsResult.start : HoldsResult {} := by
  intro hshown
  cases hshown

theorem HoldsResult.run {events : List Event} (h : run? events {} = some state) :
    HoldsResult state :=
  run?_invariant HoldsResult.step HoldsResult.start h

/-! ## 2. Committing it again -/

/-- The calculation that a commit of a result adds to the history. -/
def recalculation (entry : Text) (value : Float) : Calculation where
  kind := .ofExpression entry
  expression := Entry.pretty entry
  result := display value

theorem committedValue?_of_reentry {value : Float} (hfinite : value.isFinite = true)
    (hentry : state.entry = reentry value) :
    state.committedValue? = some (unsignedZero value) ∧ state.closedEntry = state.entry := by
  have hvalue : Expression.evaluate state.unit state.entry = .ok (unsignedZero value) := by
    rw [hentry]
    exact evaluate_reentry hfinite state.unit
  have hclosed := closedEntry_of_evaluate hvalue
  refine ⟨committedValue?_eq_some_iff.mpr ⟨?_, isFinite_unsignedZero hfinite⟩, hclosed⟩
  rw [hclosed, hvalue]

/-- A commit of the text put back for a number adds one calculation to the history, and
leaves the line and the unit as they are. -/
theorem commit_of_reentry {value : Float} (hfinite : value.isFinite = true)
    (hentry : state.entry = reentry value) :
    state.commit =
      { state with
        history := state.history.add (recalculation state.entry value)
        working := workingOf state.entry
        preview := state.preview.clear
        resultShown := true
        wantsFocus := true } := by
  obtain ⟨hcommitted, hclosed⟩ := committedValue?_of_reentry hfinite hentry
  have hblank : Text.isBlank state.entry = false := by
    rw [hentry]
    exact isBlank_reentry hfinite
  have hrecorded : recorded state.entry (unsignedZero value) state.history =
      state.history.add (recalculation state.entry value) := by
    simp [recorded, hblank, recalculation, display_unsignedZero]
  have hback : reentry (unsignedZero value) = state.entry := by
    rw [reentry_unsignedZero, hentry]
  rw [commit_of_some hcommitted, committed, hclosed, hrecorded, hback]

/-- The text put back for a finite number is worth that number in both units. So where a
result is shown, the line has a value that is not changed by committing it: the key `=`
succeeds, puts one calculation in front of the history, the same each time, and leaves the
line and the unit as they are. -/
theorem result_fixed :
    (∀ (value : Float), value.isFinite = true → ∀ unit,
      Expression.evaluate unit (reentry value) = .ok (unsignedZero value)) ∧
    (∀ (events : List Event) (state : Calculator), run? events {} = some state →
      state.resultShown = true →
        ∃ value : Float, value.isFinite = true ∧ state.entry = reentry value ∧
          (∀ unit, Expression.evaluate unit state.entry = .ok (unsignedZero value)) ∧
          state.committedValue? = some (unsignedZero value) ∧
          state.press .equals =
            { entry := state.entry
              preview :=
                { state.preview with
                  latest := state.preview.latest + 1
                  applied := state.preview.latest + 1
                  text := [] }
              history :=
                ⟨(⟨.ofExpression state.entry, Entry.pretty state.entry, display value⟩ ::
                  state.history.calculations).take 100⟩
              working := workingOf state.entry
              unit := state.unit
              resultShown := true
              wantsFocus := true }) := by
  constructor
  · intro value hfinite unit
    exact evaluate_reentry hfinite unit
  · intro events state hrun hshown
    obtain ⟨value, hfinite, hentry⟩ := HoldsResult.run hrun hshown
    refine ⟨value, hfinite, hentry, ?_, (committedValue?_of_reentry hfinite hentry).1, ?_⟩
    · intro unit
      rw [hentry]
      exact evaluate_reentry hfinite unit
    · rw [press_equals, commit_of_reentry hfinite hentry]
      rfl

/-- A run that commits a negative number. -/
def negatedRun : List Event :=
  [.type "-pi".toList, .press .equals]

/-- The state it leads to. -/
def negated : Calculator :=
  (edit "-pi".toList {}).commit

theorem committedValue?_negated : (edit "-pi".toList {}).committedValue? = some (-pi) := by
  have htokens : Token.tokenize "-pi".toList = .ok [.minus, .number pi] := by
    show Token.scan ('-' :: 'p' :: 'i' :: []) = _
    rw [Token.scan_symbol rfl, Token.scan_cons_of_ok (Token.lexeme_pi []), Token.scan_nil]
    rfl
  refine committedValue?_eq_some_iff.mpr ⟨?_, by decide +kernel⟩
  show Expression.evaluate .degrees "-pi".toList = _
  rw [Expression.evaluate_of_tokenize (by decide) htokens]
  rfl

/-- Its result, committed again, is the second calculation in the history. -/
theorem result_fixed_negated :
    run? negatedRun {} = some negated ∧ negated.resultShown = true ∧
      (∃ value : Float, value.isFinite = true ∧ negated.entry = reentry value ∧
        negated.committedValue? = some (unsignedZero value)) ∧
      negated.entry = "-3.141592653589793".toList ∧
      (negated.press .equals).entry = negated.entry ∧
      (negated.press .equals).history.calculations =
        [⟨.basic, "-3.141592653589793".toList, "-3.1415926536".toList⟩,
          ⟨.scientific, "-π".toList, "-3.1415926536".toList⟩] := by
  have hrun : run? negatedRun {} = some negated := rfl
  have hstate : negated = (edit "-pi".toList {}).committed (-pi) :=
    commit_of_some committedValue?_negated
  have hresult : reentry (-pi) = "-3.141592653589793".toList := by decide +kernel
  have hfirst : recalculation "-pi".toList (-pi) =
      ⟨.scientific, "-π".toList, "-3.1415926536".toList⟩ := by
    decide +kernel
  have hsecond : recalculation "-3.141592653589793".toList (-pi) =
      ⟨.basic, "-3.141592653589793".toList, "-3.1415926536".toList⟩ := by
    decide +kernel
  have hshown : negated.resultShown = true := by rw [hstate, committed]
  have hentry : negated.entry = "-3.141592653589793".toList := by rw [hstate, committed, hresult]
  have hhistory : negated.history.calculations = [recalculation "-pi".toList (-pi)] := by
    rw [hstate]
    rfl
  obtain ⟨hworth, hfixed⟩ := result_fixed
  obtain ⟨value, hfinite, hvalue, hsame, hcommitted, hagain⟩ :=
    hfixed negatedRun negated hrun hshown
  -- The number that the line is worth is displayed as the one that was committed.
  have hdisplay : display value = display (-pi) := by
    have hpi := hworth (-pi) (by decide +kernel) negated.unit
    rw [hresult, ← hentry, hsame negated.unit] at hpi
    rw [← display_unsignedZero, Except.ok.inj hpi, display_unsignedZero]
  have hadded : (negated.press .equals).history.calculations =
      [recalculation negated.entry (-pi), recalculation "-pi".toList (-pi)] := by
    rw [hagain, hhistory, hdisplay]
    rfl
  refine ⟨hrun, hshown, ⟨value, hfinite, hvalue, hcommitted⟩, hentry, by rw [hagain], ?_⟩
  rw [hadded, hentry, hfirst, hsecond]

end Calculator

end PocketCalc
