/-
PocketCalc.Proofs.Calculator.Ledger — the history is a ledger of commits.

What a run leaves in the history can be read off the run itself: the lines
that were committed since the history was last cleared, newest first, as
far as there is room. `calculationDue?` says what a commit owes to the
history, from the line and its unit alone; `commitsSinceClear` collects it
along a run, event by event with the state each happens in (`trace`).

One event clears the history, adds what is due, or leaves it alone
(`Effect.history`). A full history loses its oldest calculation, and taking
the first hundred of the first hundred is taking them once, so the run is
an induction on its last event.

Main statement: `run_ledger`.
-/
import Mathlib.Data.List.Induction
import PocketCalc.Proofs.Calculator.FixedPoint

namespace PocketCalc

namespace Calculator

open Number

/-! ## 1. What is due -/

/-- The calculation that a commit owes to the history: the closed line, if it is not blank
and worth a finite number. -/
def calculationDue? (state : Calculator) : Option Calculation :=
  match Expression.evaluate state.unit state.closedEntry with
  | .ok value =>
    if value.isFinite = true ∧ Text.isBlank state.closedEntry = false then
      some
        { kind := .ofExpression state.closedEntry
          expression := Entry.pretty state.closedEntry
          result := display value }
    else none
  | .error _ => none

/-- What an event owes to the history. -/
def Event.records? (event : Event) (state : Calculator) : Option Calculation :=
  if event.commits then state.calculationDue? else none

/-- Whether an event clears the history. -/
def Event.clears : Event → Bool
  | .clearHistory => true
  | .press _ | .type _ | .toggleUnit | .commit | .background _ _ => false

/-- The events of a run, each with the state in which it happens. -/
def trace : List Event → Calculator → List (Event × Calculator)
  | [], _ => []
  | event :: events, state => (event, state) :: (event.step? state).elim [] (trace events)

/-- The calculations committed in a run since the history was last cleared, oldest first. -/
def commitsSinceClear (events : List Event) (start : Calculator) : List Calculation :=
  ((trace events start).reverse.takeWhile fun moment => !moment.1.clears).reverse.filterMap
    fun moment => moment.1.records? moment.2

variable {state next middle start : Calculator} {past events : List Event} {event : Event}

/-! ## 2. One event -/

theorem calculationDue?_of_none (h : state.committedValue? = none) :
    state.calculationDue? = none := by
  unfold calculationDue?
  split
  · rename_i value hvalue
    rw [if_neg]
    rintro ⟨hfinite, -⟩
    rw [committedValue?_eq_some_iff.mpr ⟨hvalue, hfinite⟩] at h
    cases h
  · rfl

/-- What a commit records is what is due. -/
theorem recorded_closedEntry {value : Float} (h : state.committedValue? = some value) :
    recorded state.closedEntry value state.history =
      match state.calculationDue? with
      | some calculation => state.history.add calculation
      | none => state.history := by
  obtain ⟨hvalue, hfinite⟩ := committedValue?_eq_some_iff.mp h
  simp only [calculationDue?, hvalue, hfinite, recorded]
  cases Text.isBlank state.closedEntry <;> rfl

/-- A calculation that is due has a finite result. -/
theorem result_of_calculationDue? {calculation : Calculation}
    (h : state.calculationDue? = some calculation) : calculation.result ≠ errorText := by
  unfold calculationDue? at h
  split at h
  · split at h
    · rename_i value hvalue hdue
      cases h
      intro herror
      rw [display_eq_errorText_iff.mp herror] at hdue
      cases hdue.1
    · cases h
  · cases h

theorem result_of_records? {calculation : Calculation}
    (h : event.records? state = some calculation) : calculation.result ≠ errorText := by
  unfold Event.records? at h
  split at h
  · exact result_of_calculationDue? h
  · cases h

theorem Event.clears_of_commits (h : event.commits = true) : event.clears = false := by
  cases event with
  | clearHistory => cases h
  | _ => rfl

theorem Event.clears_of_submits (h : event.submits = true) : event.clears = false := by
  cases event with
  | clearHistory => cases h
  | _ => rfl

theorem Event.records?_of_commits (h : event.commits = true) :
    event.records? state = state.calculationDue? :=
  if_pos h

theorem Event.records?_of_submits (h : event.submits = true) : event.records? state = none := by
  refine if_neg fun hcommits => ?_
  rw [Event.submits_of_commits hcommits] at h
  cases h

/-- An event clears the history, adds what it owes, or leaves the history alone. -/
theorem Effect.history (h : Effect state event next) :
    next.history =
      if event.clears then .empty
      else match event.records? state with
        | some calculation => state.history.add calculation
        | none => state.history := by
  cases h with
  | edit hsubmits entry =>
    rw [Event.clears_of_submits hsubmits, Event.records?_of_submits hsubmits]
    rfl
  | toggle => rfl
  | commit hcommits hvalue =>
    rw [Event.clears_of_commits hcommits, Event.records?_of_commits hcommits]
    exact recorded_closedEntry hvalue
  | refuse hcommits hvalue =>
    rw [Event.clears_of_commits hcommits, Event.records?_of_commits hcommits,
      calculationDue?_of_none hvalue]
    rfl
  | clear => rfl
  | background hmove => rfl

/-! ## 3. Runs -/

theorem run?_concat (past : List Event) (event : Event) (start : Calculator) :
    run? (past ++ [event]) start = (run? past start).bind event.step? := by
  induction past generalizing start with
  | nil => simp [run?]
  | cons first past ih =>
    rw [List.cons_append, run?, run?, Option.bind_assoc]
    exact Option.bind_congr fun next _ => ih next

theorem trace_concat (h : run? past start = some middle) :
    trace (past ++ [event]) start = trace past start ++ [(event, middle)] := by
  induction past generalizing start with
  | nil =>
    obtain rfl := Option.some.inj h
    simp only [List.nil_append, trace]
    cases event.step? start <;> rfl
  | cons first past ih =>
    obtain ⟨second, hsecond, hpast⟩ := Option.bind_eq_some_iff.mp h
    simp only [List.cons_append, trace, hsecond, Option.elim_some, ih hpast]

/-- The last event clears what was committed before it, or adds what it owes. -/
theorem commitsSinceClear_concat (h : run? past start = some middle) :
    commitsSinceClear (past ++ [event]) start =
      if event.clears then []
      else commitsSinceClear past start ++ (event.records? middle).toList := by
  unfold commitsSinceClear
  rw [trace_concat h, List.reverse_concat, List.takeWhile_cons]
  cases event.clears with
  | true => simp
  | false => cases hrecords : event.records? middle <;> simp [hrecords]

/-- Of what there is no room for nothing is needed to go on. -/
theorem calculations_add (calculation : Calculation) {history : History}
    {older : List Calculation} (h : history.calculations = older.take History.capacity) :
    (history.add calculation).calculations = (calculation :: older).take History.capacity := by
  simp [History.add, h, History.capacity, List.take_take]

/-- The history after a run. -/
theorem history_of_run (h : run? events {} = some state) :
    state.history.calculations =
      (commitsSinceClear events {}).reverse.take History.capacity := by
  induction events using List.reverseRecOn generalizing state with
  | nil =>
    cases h
    rfl
  | append_singleton past event ih =>
    rw [run?_concat] at h
    obtain ⟨middle, hpast, hstep⟩ := Option.bind_eq_some_iff.mp h
    rw [(effect_of_step? hstep).history, commitsSinceClear_concat hpast]
    cases event.clears with
    | true => rfl
    | false =>
      cases event.records? middle with
      | none => simpa using ih hpast
      | some calculation => simpa using calculations_add calculation (ih hpast)

/-- What is committed has a finite result. -/
theorem result_of_mem_commitsSinceClear {calculation : Calculation}
    (h : calculation ∈ commitsSinceClear events start) : calculation.result ≠ errorText := by
  obtain ⟨⟨event, state⟩, -, hrecords⟩ := List.mem_filterMap.mp h
  exact result_of_records? hrecords

/-- The history after a run holds the calculations committed since it was last cleared,
newest first, a hundred at most: each line that was committed, was not blank and had a finite
value in the unit of that moment. None of them shows `Error`. In any state, an event clears
the history, adds in front the calculation it owes, or leaves the history as it is. -/
theorem run_ledger (h : run? events {} = some state) :
    state.history.calculations = (commitsSinceClear events {}).reverse.take 100 ∧
    (∀ calculation ∈ state.history.calculations, calculation.result ≠ "Error".toList) ∧
    state.history.size ≤ 100 ∧
    (∀ (event : Event) (before after : Calculator), event.step? before = some after →
      (event.clears = true → after.history.calculations = []) ∧
      (∀ calculation, event.records? before = some calculation →
        after.history.calculations = (calculation :: before.history.calculations).take 100) ∧
      (event.clears = false → event.records? before = none → after.history = before.history)) := by
  have hledger := history_of_run h
  refine ⟨hledger, ?_, ?_, ?_⟩
  · intro calculation hmem
    rw [hledger] at hmem
    exact result_of_mem_commitsSinceClear (List.mem_reverse.mp (List.mem_of_mem_take hmem))
  · rw [History.size, hledger]
    exact List.length_take_le ..
  · intro event before after hstep
    have hhistory := (effect_of_step? hstep).history
    refine ⟨?_, ?_, ?_⟩
    · intro hclears
      rw [hhistory, hclears]
      rfl
    · intro calculation hrecords
      have hclears : event.clears = false := by
        refine Event.clears_of_commits ?_
        by_contra hcommits
        rw [Event.records?, if_neg hcommits] at hrecords
        cases hrecords
      rw [hhistory, hclears, hrecords]
      rfl
    · intro hclears hrecords
      rw [hhistory, hclears, hrecords]
      rfl

/-- A commit that is forgotten, and two commits of its result. -/
def recommitRun : List Event :=
  [.type "(pi".toList, .press .equals, .clearHistory, .press .equals, .commit]

/-- The state they lead to. -/
def recommitted : Calculator :=
  (edit "(pi".toList {}).commit.clearHistory.commit.commit

/-- Each commit of the result is in the history, the one before the clear is not. -/
theorem run_ledger_recommitted :
    run? recommitRun {} = some recommitted ∧
      recommitted.history.calculations = (commitsSinceClear recommitRun {}).reverse.take 100 ∧
      recommitted.history.calculations =
        [recalculation (reentry pi) pi, recalculation (reentry pi) pi] := by
  have hrun : run? recommitRun {} = some recommitted := rfl
  have hfinite : pi.isFinite = true := by decide +kernel
  have hfirst : (edit "(pi".toList {}).committedValue? = some pi := committedValue?_unclosed
  have hresult : (edit "(pi".toList {}).commit.clearHistory.entry = reentry pi := by
    rw [commit_of_some hfirst, clearHistory, committed]
  have hagain : (edit "(pi".toList {}).commit.clearHistory.commit.entry = reentry pi := by
    rw [commit_of_reentry hfinite hresult]
    exact hresult
  refine ⟨hrun, (run_ledger hrun).1, ?_⟩
  rw [recommitted, commit_of_reentry hfinite hagain, hagain, commit_of_reentry hfinite hresult,
    hresult]
  rfl

end Calculator

end PocketCalc
