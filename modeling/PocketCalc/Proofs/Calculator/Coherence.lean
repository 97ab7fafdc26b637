/-
PocketCalc.Proofs.Calculator.Coherence — the page shows no stale value.

The last call to the preview fits the line (`Follows`): it submitted the
line under its unit, or it cleared the preview because the line became a
result, or there was none yet and nothing has been edited. Every event
keeps this (`Coherent.step`): an edit and a change of the unit submit, a
commit that succeeds clears, anything else leaves line, unit and preview
alone. A commit of the empty line succeeds, so a failed one never is the
first thing that happens.

With the agreement of the preview with its calls, a settled preview shows
what the line is worth. Main statement: `run_coherent`.
-/
import PocketCalc.Page
import PocketCalc.Proofs.Calculator.Runs
import PocketCalc.Proofs.Preview.LatestWins

namespace PocketCalc

/-! ## 1. A settled preview -/

namespace Preview

variable {calls : List Call} {preview : Preview}

/-- A settled preview shows what the last call asks for. -/
theorem Agrees.text_of_getLast? {call : Call} (h : Agrees calls preview)
    (hsettled : preview.isPending = false) (hlast : calls.getLast? = some call) :
    preview.text = call.text := by
  have hlatest : preview.latest ≤ preview.applied := by simpa [isPending] using hsettled
  have happlied : preview.applied = preview.latest := Nat.le_antisymm h.applied_le hlatest
  obtain ⟨before, rfl⟩ := List.getLast?_eq_some_iff.mp hlast
  rw [h.text_eq_inlined happlied, inlined_text, List.length_append, List.length_singleton,
    textDue_length_append]

/-- Without calls nothing is shown. -/
theorem Agrees.text_of_nil (h : Agrees [] preview) : preview.text = [] := by
  have hlatest : preview.latest = 0 := h.latest_eq
  have happlied : preview.applied = 0 := by
    have hle := h.applied_le
    omega
  rw [h.text_eq, happlied]
  rfl

/-- Once a line has been submitted, a settled preview shows what that line is worth, until
the next call. -/
theorem Agrees.text_of_submit {entry : Text} {unit : AngleUnit} {moves : List Move}
    {settled : Preview} (h : Agrees calls preview) (hcalls : callsOf moves = [])
    (hrun : run? moves (preview.submit entry unit) = some settled)
    (hsettled : settled.isPending = false) :
    settled.text = textFor (Expression.evaluate unit entry) := by
  have hafter := (h.call (.submit entry unit)).run hrun
  rw [hcalls, List.append_nil] at hafter
  exact hafter.text_of_getLast? hsettled List.getLast?_concat

end Preview

namespace Calculator

open Number

/-! ## 2. The last call fits the line -/

/-- How the line came to be what it is, and which call was the last. -/
inductive Follows (past : List Event) (state : Calculator) (calls : List Preview.Call) : Prop where
  /-- Nothing has been submitted or committed. -/
  | fresh (hcalls : calls = [])
      (hquiet : ∀ event ∈ past, event.submits = false ∧ event.commits = false)
      (hentry : state.entry = []) (hresult : state.resultShown = false)
  /-- The line was submitted. -/
  | submitted (hlast : calls.getLast? = some (.submit state.entry state.unit))
      (hpast : ∃ event ∈ past, event.submits = true)
  /-- The line is the result of a commit. -/
  | cleared (hlast : calls.getLast? = some .clear) (hresult : state.resultShown = true)

/-- The preview agrees with calls that fit the line. -/
def Coherent (past : List Event) (state : Calculator) : Prop :=
  ∃ calls, Preview.Agrees calls state.preview ∧ Follows past state calls

variable {past : List Event} {state next : Calculator} {calls : List Preview.Call} {event : Event}

theorem Coherent.start : Coherent [] {} :=
  ⟨[], .start, .fresh rfl (by simp) rfl rfl⟩

/-- An event that leaves the line and its unit alone keeps the last call fitting. -/
theorem Follows.keep (h : Follows past state calls) (hsubmits : event.submits = false)
    (hcommits : event.commits = true → state.entry ≠ []) (hentry : next.entry = state.entry)
    (hunit : next.unit = state.unit) (hresult : next.resultShown = state.resultShown) :
    Follows (past ++ [event]) next calls := by
  cases h with
  | fresh hcalls hquiet hempty hnone =>
    refine .fresh hcalls ?_ (hentry.trans hempty) (hresult.trans hnone)
    intro e he
    rcases List.mem_append.mp he with hold | hnew
    · exact hquiet e hold
    · obtain rfl := List.mem_singleton.mp hnew
      have hcommit : e.commits = false := by
        cases hcase : e.commits with
        | false => rfl
        | true => exact absurd hempty (hcommits hcase)
      exact ⟨hsubmits, hcommit⟩
  | submitted hlast hpast =>
    obtain ⟨e, he, hsubmitted⟩ := hpast
    refine .submitted ?_ ⟨e, List.mem_append_left _ he, hsubmitted⟩
    rw [hentry, hunit]
    exact hlast
  | cleared hlast hshown => exact .cleared hlast (hresult.trans hshown)

/-- The line as it is now, under a unit, has just been submitted. -/
theorem Coherent.submit (h : Preview.Agrees calls state.preview) (hsubmits : event.submits = true)
    (hpreview : next.preview = state.preview.submit next.entry next.unit) :
    Coherent (past ++ [event]) next := by
  refine ⟨calls ++ [.submit next.entry next.unit], ?_, ?_⟩
  · rw [hpreview]
    exact h.call (.submit next.entry next.unit)
  · exact .submitted List.getLast?_concat ⟨event, by simp, hsubmits⟩

/-- Every event keeps the page coherent. -/
theorem Coherent.step (h : Coherent past state) (heffect : Effect state event next) :
    Coherent (past ++ [event]) next := by
  obtain ⟨calls, hagrees, hfollows⟩ := h
  cases heffect with
  | edit hsubmits entry => exact Coherent.submit hagrees hsubmits rfl
  | toggle => exact Coherent.submit hagrees rfl rfl
  | commit hcommits hvalue =>
    exact ⟨calls ++ [.clear], hagrees.call .clear, .cleared List.getLast?_concat rfl⟩
  | refuse hcommits hvalue =>
    have hne : state.entry ≠ [] := by
      intro hempty
      rw [committedValue?_of_entry_nil hempty] at hvalue
      cases hvalue
    have hsubmits : event.submits = false := Event.submits_of_commits hcommits
    exact ⟨calls, hagrees, hfollows.keep hsubmits (fun _ => hne) rfl rfl rfl⟩
  | clear => exact ⟨calls, hagrees, hfollows.keep rfl (by simp [Event.commits]) rfl rfl rfl⟩
  | @background move unprompted preview hmove =>
    have hmoved := hagrees.move hmove
    rw [unprompted, List.append_nil] at hmoved
    exact ⟨calls, hmoved, hfollows.keep rfl (by simp [Event.commits]) rfl rfl rfl⟩

theorem Coherent.run {events : List Event} (h : run? events {} = some state) :
    Coherent events state :=
  run?_induction Coherent.step Coherent.start h

/-! ## 3. What the page shows -/

/-- The line due under the entry: the value of an entry that was submitted, unless the
entry is a result itself. -/
def dueLine (submitted : Bool) (state : Calculator) : Text :=
  match state.resultShown, submitted, Expression.evaluate state.unit state.entry with
  | false, true, .ok value => "= ".toList ++ display value
  | _, _, _ => [' ']

/-- A settled preview shows what the line is worth, or nothing where nothing is due. -/
theorem Coherent.text (h : Coherent past state) (hsettled : state.preview.isPending = false) :
    state.preview.text = state.settledText ∨
      (state.preview.text = [] ∧ (state.resultShown = true ∨
        (state.entry = [] ∧
          ∀ event ∈ past, event.submits = false ∧ event.commits = false))) := by
  obtain ⟨calls, hagrees, hfollows⟩ := h
  cases hfollows with
  | fresh hcalls hquiet hentry hresult =>
    subst hcalls
    exact Or.inr ⟨hagrees.text_of_nil, Or.inr ⟨hentry, hquiet⟩⟩
  | submitted hlast hpast => exact Or.inl (hagrees.text_of_getLast? hsettled hlast)
  | cleared hlast hresult =>
    exact Or.inr ⟨hagrees.text_of_getLast? hsettled hlast, Or.inl hresult⟩

theorem Coherent.previewLine (h : Coherent past state)
    (hsettled : state.preview.isPending = false) :
    Window.previewLine state = dueLine (past.any Event.submits) state := by
  obtain ⟨calls, hagrees, hfollows⟩ := h
  unfold Window.previewLine dueLine
  cases hfollows with
  | fresh hcalls hquiet hentry hresult =>
    subst hcalls
    have hnone : past.any Event.submits = false := by
      simpa using fun event hmem => (hquiet event hmem).1
    simp [hagrees.text_of_nil, hnone, hresult]
  | submitted hlast hpast =>
    have hsubmitted : past.any Event.submits = true := List.any_eq_true.mpr hpast
    have htext : state.preview.text = state.settledText := hagrees.text_of_getLast? hsettled hlast
    cases hresult : state.resultShown with
    | true => simp
    | false =>
      cases hvalue : Expression.evaluate state.unit state.entry with
      | ok value =>
        have hshown : state.preview.text = display value := htext.trans (settledText_of_ok hvalue)
        simp [hshown, hsubmitted, display_ne_nil]
      | error fault =>
        have hshown : state.preview.text = [] := htext.trans (settledText_of_error hvalue)
        simp [hshown]
  | cleared hlast hresult => simp [hresult]

/-- Where an event changes the line or its unit, the new line is submitted at once under
the new unit, or it is a result and the preview is cleared. -/
theorem Effect.resubmits (h : Effect state event next)
    (hchanged : next.entry ≠ state.entry ∨ next.unit ≠ state.unit) :
    next.preview = state.preview.submit next.entry next.unit ∨
      (next.preview = state.preview.clear ∧ next.resultShown = true) := by
  cases h with
  | edit hsubmits entry => exact Or.inl rfl
  | toggle => exact Or.inl rfl
  | commit hcommits hvalue => exact Or.inr ⟨rfl, rfl⟩
  | refuse hcommits hvalue => simp at hchanged
  | clear => simp [clearHistory] at hchanged
  | background hmove => simp at hchanged

/-- However the calculator got where it is, a settled preview shows what the line is worth
in the unit that is set, or it shows nothing, and then the line is a result or nothing has
happened. So the page shows a value exactly under a line that was submitted, has a value
and is no result itself. No event changes the line or the unit without a new submission. -/
theorem run_coherent {events : List Event} (h : run? events {} = some state) :
    (state.preview.isPending = false →
      (state.preview.text = state.settledText ∨
        (state.preview.text = [] ∧ (state.resultShown = true ∨
          (state.entry = [] ∧
            ∀ event ∈ events, event.submits = false ∧ event.commits = false)))) ∧
      Window.previewLine state = dueLine (events.any Event.submits) state) ∧
    (∀ (event : Event) (next : Calculator), event.step? state = some next →
      next.entry ≠ state.entry ∨ next.unit ≠ state.unit →
        next.preview = state.preview.submit next.entry next.unit ∨
        (next.preview = state.preview.clear ∧ next.resultShown = true)) := by
  have hcoherent : Coherent events state := Coherent.run h
  constructor
  · intro hsettled
    exact ⟨hcoherent.text hsettled, hcoherent.previewLine hsettled⟩
  · intro event next hstep hchanged
    exact (effect_of_step? hstep).resubmits hchanged

/-- A run in which the unit is changed while the worker has the line under the old one. -/
def toggledRun : List Event :=
  [.type "sin(90)".toList, .background .take rfl, .toggleUnit, .background .skip rfl,
    .background .finish rfl, .background .send rfl, .background .receive rfl]

/-- The state it leads to. -/
def toggled : Calculator where
  entry := "sin(90)".toList
  unit := .radians
  preview :=
    { latest := 2
      applied := 2
      text := Preview.textFor (Expression.evaluate .radians "sin(90)".toList) }

theorem run_coherent_toggled :
    run? toggledRun {} = some toggled ∧ toggled.preview.isPending = false ∧
      Window.previewLine toggled = dueLine true toggled := by
  have hrun : run? toggledRun {} = some toggled := rfl
  have hsettled : toggled.preview.isPending = false := rfl
  obtain ⟨hshown, -⟩ := run_coherent hrun
  exact ⟨hrun, hsettled, (hshown hsettled).2⟩

end Calculator

end PocketCalc
