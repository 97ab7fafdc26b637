/-
PocketCalc.Proofs.Calculator.Runs — what can happen to the calculator.

The user presses keys, types over the line, changes the unit of angles,
commits and clears the history. In between the preview moves on its own:
the worker works and answers are received. A run is a list of such events,
each possible where it happens (`run?`).

Whatever the key, an event does one of six things (`Effect`), so what a
run keeps is shown of six cases, and of a run by induction
(`run?_induction`, `run?_invariant`); what only some events keep, of a run
of these (`run?_invariant_of_mem`).
-/
import PocketCalc.Proofs.Calculator.Commit
import PocketCalc.Proofs.Preview.Runs

namespace PocketCalc

namespace Calculator

/-! ## 1. Events -/

/-- What can happen. -/
inductive Event where
  | press (key : Key)
  /-- Types a text over the whole line. -/
  | type (entry : Text)
  | toggleUnit
  | commit
  | clearHistory
  /-- A move of the preview that no call of the user makes. -/
  | background (move : Preview.Move) (unprompted : move.calls = [])

/-- The state after an event, where it is possible. -/
def Event.step? : Event → Calculator → Option Calculator
  | .press key, state => some (state.press key)
  | .type entry, state => some (state.edit entry)
  | .toggleUnit, state => some state.toggleUnit
  | .commit, state => some state.commit
  | .clearHistory, state => some state.clearHistory
  | .background move _, state =>
    (move.step? state.preview).map fun preview => { state with preview := preview }

/-- The state after a run, where each of its events is possible. -/
def run? : List Event → Calculator → Option Calculator
  | [], state => some state
  | event :: events, state => (event.step? state).bind (run? events)

/-- Whether an event commits the line. -/
def Event.commits : Event → Bool
  | .press key => key = .equals
  | .commit => true
  | .type _ | .toggleUnit | .clearHistory | .background _ _ => false

/-- Whether an event submits the line to the preview. -/
def Event.submits : Event → Bool
  | .press key => key ≠ .equals
  | .type _ | .toggleUnit => true
  | .commit | .clearHistory | .background _ _ => false

/-- No event does both. -/
theorem Event.submits_of_commits {event : Event} (h : event.commits = true) :
    event.submits = false := by
  cases event with
  | press key => simpa [commits, submits] using h
  | commit => rfl
  | type _ | toggleUnit | clearHistory | background _ _ => cases h

/-! ## 2. What an event does -/

variable {state next : Calculator}

theorem press_equals (state : Calculator) : state.press .equals = state.commit := rfl

/-- Every key but `=` edits the line. -/
theorem exists_press_eq_edit {key : Key} (h : key ≠ .equals) (state : Calculator) :
    ∃ entry, state.press key = state.edit entry := by
  unfold press
  split
  · exact ⟨_, rfl⟩
  · exact absurd rfl h
  · exact ⟨_, rfl⟩

/-- The six things that an event can do to a state. -/
inductive Effect (state : Calculator) : Event → Calculator → Prop where
  | edit {event : Event} (hsubmits : event.submits = true) (entry : Text) :
      Effect state event (state.edit entry)
  | toggle : Effect state .toggleUnit state.toggleUnit
  | commit {event : Event} {value : Float} (hcommits : event.commits = true)
      (hvalue : state.committedValue? = some value) : Effect state event (state.committed value)
  /-- A commit without a value. -/
  | refuse {event : Event} (hcommits : event.commits = true)
      (hvalue : state.committedValue? = none) : Effect state event { state with wantsFocus := true }
  | clear : Effect state .clearHistory state.clearHistory
  | background {move : Preview.Move} {unprompted : move.calls = []} {preview : Preview}
      (hmove : move.step? state.preview = some preview) :
      Effect state (.background move unprompted) { state with preview := preview }

theorem effect_commit {event : Event} (hcommits : event.commits = true) :
    Effect state event state.commit := by
  cases hvalue : state.committedValue? with
  | some value =>
    rw [commit_of_some hvalue]
    exact .commit hcommits hvalue
  | none =>
    rw [commit_of_none hvalue]
    exact .refuse hcommits hvalue

theorem effect_of_step? {event : Event} (h : event.step? state = some next) :
    Effect state event next := by
  cases event with
  | press key =>
    cases h
    by_cases hkey : key = .equals
    · subst hkey
      exact effect_commit rfl
    · obtain ⟨entry, hedit⟩ := exists_press_eq_edit hkey state
      rw [hedit]
      exact .edit (by simpa [Event.submits] using hkey) entry
  | type entry =>
    cases h
    exact .edit rfl entry
  | toggleUnit =>
    cases h
    exact .toggle
  | commit =>
    cases h
    exact effect_commit rfl
  | clearHistory =>
    cases h
    exact .clear
  | background move unprompted =>
    obtain ⟨preview, hmove, rfl⟩ := Option.map_eq_some_iff.mp h
    exact .background hmove

/-! ## 3. Runs -/

/-- What every event keeps, a run keeps. The property may speak of the events so far. -/
theorem run?_induction {motive : List Event → Calculator → Prop}
    (hstep : ∀ {past : List Event} {state next : Calculator} {event : Event},
      motive past state → Effect state event next → motive (past ++ [event]) next)
    {past events : List Event} (h : motive past state) (hrun : run? events state = some next) :
    motive (past ++ events) next := by
  induction events generalizing past state with
  | nil =>
    cases hrun
    rwa [List.append_nil]
  | cons event events ih =>
    obtain ⟨middle, hfirst, hrest⟩ := Option.bind_eq_some_iff.mp hrun
    have hall := ih (hstep h (effect_of_step? hfirst)) hrest
    rwa [List.append_assoc] at hall

/-- The same for a property that does not speak of the events. -/
theorem run?_invariant {motive : Calculator → Prop}
    (hstep : ∀ {state next : Calculator} {event : Event},
      motive state → Effect state event next → motive next)
    {events : List Event} (h : motive state) (hrun : run? events state = some next) :
    motive next :=
  @run?_induction state next (fun _ state => motive state) hstep [] events h hrun

/-- The same for a property that only some events keep, and a run of these. -/
theorem run?_invariant_of_mem {allowed : Event → Prop} {motive : Calculator → Prop}
    (hstep : ∀ {state next : Calculator} {event : Event},
      motive state → allowed event → event.step? state = some next → motive next)
    {events : List Event} (h : motive state) (hallowed : ∀ event ∈ events, allowed event)
    (hrun : run? events state = some next) : motive next := by
  induction events generalizing state with
  | nil =>
    cases hrun
    exact h
  | cons event events ih =>
    obtain ⟨hfirst, hothers⟩ := List.forall_mem_cons.mp hallowed
    obtain ⟨middle, hmiddle, hrest⟩ := Option.bind_eq_some_iff.mp hrun
    exact ih (hstep h hfirst hmiddle) hothers hrest

/-- Whatever happens to the calculator, its preview has made a run of its own. -/
theorem exists_run?_preview {events : List Event} (h : run? events {} = some state) :
    ∃ moves, Preview.run? moves {} = some state.preview := by
  refine run?_invariant (motive := fun state => ∃ moves, Preview.run? moves {} = some state.preview)
    ?_ ⟨[], rfl⟩ h
  rintro state next event ⟨moves, hmoves⟩ heffect
  cases heffect with
  | edit hsubmits entry =>
    exact ⟨moves ++ [.call (.submit entry state.unit)], Preview.run?_concat hmoves rfl⟩
  | toggle =>
    exact ⟨moves ++ [.call (.submit state.entry state.unit.toggle)],
      Preview.run?_concat hmoves rfl⟩
  | commit hcommits hvalue =>
    exact ⟨moves ++ [.call .clear], Preview.run?_concat hmoves rfl⟩
  | refuse hcommits hvalue => exact ⟨moves, hmoves⟩
  | clear => exact ⟨moves, hmoves⟩
  | background hmove => exact ⟨_, Preview.run?_concat hmoves hmove⟩

end Calculator

end PocketCalc
