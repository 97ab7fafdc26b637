/-
PocketCalc.Proofs.Calculator.AllOrNothing — a commit changes everything or
nothing.

A commit can be refused in two ways: the closed line has no value, or its
value is displayed as `Error`. The second is exactly a value that is not
finite (`display_eq_errorText_iff`), so one condition decides. Where the
commit goes through, the working is that of the closed line: an expression
that has a value has a working as well, unless it is blank
(`working_of_evaluate`). What is on its way in the preview is left there,
but behind the times: none of it is shown any more (`clear_shows_nothing`).

Main statement: `commit_all_or_nothing`.
-/
import PocketCalc.Proofs.Calculator.Coherence
import PocketCalc.Proofs.Preview.Delivery

namespace PocketCalc

/-! ## 1. The working of a value -/

/-- An expression that has a value has a working, unless it is blank. -/
theorem Expression.working_of_evaluate {unit : AngleUnit} {text : Text} {value : Float}
    (hblank : Text.isBlank text = false) (h : evaluate unit text = .ok value) :
    ∃ found, working text = .ok found := by
  cases htokens : Token.tokenize text with
  | error fault =>
    rw [evaluate_of_tokenize_error hblank htokens] at h
    cases h
  | ok tokens =>
    rw [evaluate_of_tokenize hblank htokens] at h
    obtain ⟨rpn, hrpn, -⟩ := evaluateTokens_eq_ok_iff.mp h
    rw [working_of_tokenize htokens, hrpn]
    exact ⟨_, rfl⟩

/-! ## 2. What is on its way when the preview is cleared -/

namespace Preview

variable {moves more : List Move} {p q : Preview}

/-- The tickets on their way are older than a clear. -/
theorem lt_latest_of_mem_clear (h : run? moves {} = some p) {ticket : Nat}
    (hticket : ticket ∈ p.clear.onTheWay) : ticket < p.clear.latest := by
  have horder : InOrder (answeredBy moves {}) p := InOrder.start.run h
  exact Nat.lt_succ_of_le (horder.le_latest ticket (horder.onTheWay_sublist.subset hticket))

/-- Until the next call, nothing that arrives after a clear is shown. -/
theorem clear_shows_nothing (h : run? moves {} = some p) (hcalls : callsOf more = [])
    (hrun : run? more p.clear = some q) : q.text = [] ∧ q.isPending = false := by
  have hbefore : Agrees (callsOf moves) p := Agrees.start.run h
  have hafter := (hbefore.call .clear).run hrun
  rw [hcalls, List.append_nil] at hafter
  have happlied : q.applied = q.latest := hafter.cleared List.getLast?_concat
  have hsettled : q.isPending = false := by simp [isPending, happlied]
  exact ⟨hafter.text_of_getLast? hsettled List.getLast?_concat, hsettled⟩

end Preview

/-! ## 3. A commit -/

namespace Calculator

open Number

variable {state : Calculator} {value : Float}

/-- Without a finite value there is nothing to commit. -/
theorem committedValue?_eq_none
    (h : ∀ value, Expression.evaluate state.unit state.closedEntry = .ok value →
      value.isFinite = false) : state.committedValue? = none := by
  cases hcommitted : state.committedValue? with
  | none => rfl
  | some value =>
    obtain ⟨hvalue, hfinite⟩ := committedValue?_eq_some_iff.mp hcommitted
    rw [h value hvalue] at hfinite
    cases hfinite

theorem recorded_eq (expression : Text) (value : Float) (history : History) :
    recorded expression value history =
      ⟨if Text.isBlank expression then history.calculations
        else (⟨.ofExpression expression, Entry.pretty expression, display value⟩ ::
          history.calculations).take History.capacity⟩ := by
  unfold recorded
  split
  · rfl
  · rfl

/-- The working after a commit is that of the closed line, which has one unless it is
blank. -/
theorem workingOf_closedEntry (h : state.committedValue? = some value) :
    Expression.working state.closedEntry = .ok (workingOf state.closedEntry) ∨
      (Text.isBlank state.closedEntry = true ∧ workingOf state.closedEntry = {}) := by
  obtain ⟨hvalue, -⟩ := committedValue?_eq_some_iff.mp h
  unfold workingOf
  cases hworking : Expression.working state.closedEntry with
  | ok found => exact Or.inl rfl
  | error fault =>
    refine Or.inr ⟨?_, rfl⟩
    cases hblank : Text.isBlank state.closedEntry with
    | true => rfl
    | false =>
      obtain ⟨found, hfound⟩ := Expression.working_of_evaluate hblank hvalue
      rw [hworking] at hfound
      cases hfound

/-- A commit of a line without a finite value asks for the keyboard and changes nothing
else. A commit of a line with one replaces the line by the result, adds one calculation to
the history unless the line is blank, keeps the working of the line, keeps the unit and
clears the preview, where what is still on its way is never shown. -/
theorem commit_all_or_nothing (state : Calculator) :
    (∀ fault, Expression.evaluate state.unit state.closedEntry = .error fault →
      state.commit = { state with wantsFocus := true }) ∧
    (∀ value, Expression.evaluate state.unit state.closedEntry = .ok value →
      value.isFinite = false → state.commit = { state with wantsFocus := true }) ∧
    (∀ value, Expression.evaluate state.unit state.closedEntry = .ok value →
      value.isFinite = true →
        state.commit =
          { entry := reentry value
            preview :=
              { state.preview with
                latest := state.preview.latest + 1
                applied := state.preview.latest + 1
                text := [] }
            history :=
              ⟨if Text.isBlank state.closedEntry then state.history.calculations
                else (⟨.ofExpression state.closedEntry, Entry.pretty state.closedEntry,
                  display value⟩ :: state.history.calculations).take 100⟩
            working := workingOf state.closedEntry
            unit := state.unit
            resultShown := true
            wantsFocus := true } ∧
        (Expression.working state.closedEntry = .ok state.commit.working ∨
          (Text.isBlank state.closedEntry = true ∧ state.commit.working = ⟨[], []⟩)) ∧
        state.commit.preview.isPending = false ∧
        (∀ moves, Preview.run? moves {} = some state.preview →
          (∀ ticket ∈ state.commit.preview.onTheWay, ticket < state.commit.preview.latest) ∧
          (∀ more q, Preview.callsOf more = [] →
            Preview.run? more state.commit.preview = some q →
              q.text = [] ∧ q.isPending = false))) := by
  refine ⟨?_, ?_, ?_⟩
  · intro fault hfault
    refine commit_of_none (committedValue?_eq_none ?_)
    intro value hvalue
    rw [hfault] at hvalue
    cases hvalue
  · intro value hvalue hfinite
    refine commit_of_none (committedValue?_eq_none ?_)
    intro other hother
    rw [hvalue] at hother
    exact Except.ok.inj hother ▸ hfinite
  · intro value hvalue hfinite
    have hcommitted : state.committedValue? = some value :=
      committedValue?_eq_some_iff.mpr ⟨hvalue, hfinite⟩
    have hpending : state.preview.clear.isPending = false := by
      simp [Preview.clear, Preview.isPending]
    rw [commit_of_some hcommitted]
    refine ⟨?_, workingOf_closedEntry hcommitted, hpending, ?_⟩
    · rw [committed, recorded_eq]
      rfl
    · intro moves hmoves
      refine ⟨fun ticket hticket => Preview.lt_latest_of_mem_clear hmoves hticket, ?_⟩
      intro more q hcalls hrun
      exact Preview.clear_shows_nothing hmoves hcalls hrun

/-- An open group, while two older lines are still on their way to the preview. -/
def overtaken : Calculator :=
  { unclosed with preview := Preview.afterBurst }

/-- An operator alone. -/
def bareSign : Calculator :=
  { entry := ['+'] }

theorem evaluate_bareSign :
    Expression.evaluate bareSign.unit bareSign.closedEntry =
      .error (.evaluation .missingOperand) := by
  have htokens : Token.tokenize ['+'] = .ok [.operator (.binary .plus)] := by
    show Token.scan ('+' :: []) = _
    rw [Token.scan_symbol rfl, Token.scan_nil]
    rfl
  show Expression.evaluate .degrees ['+'] = _
  rw [Expression.evaluate_of_tokenize (by decide) htokens]
  rfl

/-- The first is committed, and the lines on their way are given up; the second is
refused. -/
theorem commit_all_or_nothing_overtaken :
    overtaken.commit.entry = reentry pi ∧
      overtaken.commit.history.calculations.length = 1 ∧
      overtaken.commit.preview.isPending = false ∧
      (∀ q, Preview.run? [.finish, .send, .receive] overtaken.commit.preview = some q →
        q.text = []) ∧
      bareSign.commit = { bareSign with wantsFocus := true } := by
  obtain ⟨hvalue, hfinite⟩ := committedValue?_eq_some_iff.mp committedValue?_unclosed
  obtain ⟨-, -, hgoes⟩ := commit_all_or_nothing overtaken
  obtain ⟨hcommit, -, hpending, hstale⟩ := hgoes pi hvalue hfinite
  obtain ⟨-, hshows⟩ := hstale Preview.burst rfl
  refine ⟨?_, ?_, hpending, ?_, ?_⟩
  · rw [hcommit]
  · rw [hcommit]
    rfl
  · intro q hq
    exact (hshows _ q rfl hq).1
  · exact (commit_all_or_nothing bareSign).1 _ evaluate_bareSign

end Calculator

end PocketCalc
