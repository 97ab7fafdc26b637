/-
PocketCalc.Proofs.Keypad.Runs — lines that only keys have written.

Where nothing is typed over the line, an event leaves it, clears it,
replaces it by a result or a digit, calls a function on it, or edits it
with a key (`Rewritten`). So a line comes from the empty one by keys and by
results that are put back, and a property of lines that these keep (`Kept`)
holds of every line the keypad can write (`Kept.run`).

A property that the sign key can break on lines of some kind is kept as
long as the sign key is never pressed on such a line (`SignSpares`).
-/
import PocketCalc.Proofs.Calculator.Runs
import PocketCalc.Proofs.Entry.Changes

namespace PocketCalc

namespace Calculator

open Number

/-! ## 1. What is kept, and what is spared -/

/-- Whether an event types over the line. -/
def Event.isTyping : Event → Bool
  | .type _ => true
  | _ => false

/-- The lines of a kind are spared by the sign key in a run: it is pressed on none. -/
def SignSpares (bad : Text → Prop) (events : List Event) (state : Calculator) : Prop :=
  ∀ (before after : List Event) (middle : Calculator),
    events = before ++ .press .sign :: after → run? before state = some middle →
      ¬bad middle.entry

/-- A property of lines that the keypad keeps while the sign key spares the `bad` ones. -/
structure Kept (bad motive : Text → Prop) : Prop where
  empty : motive []
  result {value : Float} (hfinite : value.isFinite = true) : motive (reentry value)
  /-- A function is called on a result. -/
  called {entry : Text} (f : MathFunction) (h : motive entry) :
    motive (f.name ++ ['('] ++ entry)
  changed {entry next : Text} {key : Key} (h : motive entry)
    (hsign : key = .sign → ¬bad entry) (hchange : Entry.Change entry key next) : motive next

variable {bad motive : Text → Prop} {state next : Calculator} {event : Event} {events : List Event}

/-- Sparing the lines in a run is sparing the first and sparing the rest. -/
theorem signSpares_cons :
    SignSpares bad (event :: events) state ↔
      (event = .press .sign → ¬bad state.entry) ∧
        ∀ next, event.step? state = some next → SignSpares bad events next := by
  constructor
  · intro h
    constructor
    · rintro rfl
      exact h [] events state rfl rfl
    · intro next hstep before after middle hevents hbefore
      refine h (event :: before) after middle (by rw [hevents, List.cons_append]) ?_
      rw [run?, hstep]
      exact hbefore
  · rintro ⟨hfirst, hrest⟩ before after middle hevents hbefore
    cases before with
    | nil =>
      obtain ⟨rfl, rfl⟩ := List.cons_eq_cons.mp hevents
      cases hbefore
      exact hfirst rfl
    | cons first before =>
      obtain ⟨rfl, rfl⟩ := List.cons_eq_cons.mp hevents
      obtain ⟨next, hstep, hbefore⟩ := Option.bind_eq_some_iff.mp hbefore
      exact hrest next hstep before after middle rfl hbefore

theorem signSpares_nil (bad : Text → Prop) (state : Calculator) : SignSpares bad [] state := by
  intro before after middle hevents
  cases before <;> cases hevents

theorem signSpares_press {key : Key} :
    SignSpares bad (.press key :: events) state ↔
      (key = .sign → ¬bad state.entry) ∧ SignSpares bad events (state.press key) := by
  simp [signSpares_cons, Event.step?]

/-- Where no line is bad there is nothing to spare. -/
theorem signSpares_false (events : List Event) (state : Calculator) :
    SignSpares (fun _ => False) events state :=
  fun _ _ _ _ _ => id

/-! ## 2. Keys -/

/-- A key that is not treated apart on a result edits the line. -/
theorem press_eq_edit {key : Key} (hclear : key ≠ .allClear) (hequals : key ≠ .equals)
    (hresult : state.resultShown = true → key.isDigit = false ∧ key.isCall = false) :
    state.press key = state.edit (edited key state.entry) := by
  have hedited : (if state.resultShown then editedResult key state.entry
      else edited key state.entry) = edited key state.entry := by
    split
    · rename_i hshown
      obtain ⟨hdigit, hcall⟩ := hresult hshown
      simp [editedResult, hdigit, hcall]
    · rfl
  unfold press
  split
  · exact absurd rfl hclear
  · exact absurd rfl hequals
  · rw [hedited]

theorem press_sign (state : Calculator) :
    (state.press .sign).entry = Entry.toggleSign state.entry := by
  rw [press_eq_edit (by simp) (by simp) fun _ => ⟨rfl, rfl⟩]
  rfl

/-- Presses keys one after the other. -/
def pressAll (keys : List Key) (state : Calculator) : Calculator :=
  keys.foldl (fun state key => state.press key) state

theorem run?_press (keys : List Key) (state : Calculator) :
    run? (keys.map .press) state = some (pressAll keys state) := by
  induction keys generalizing state with
  | nil => rfl
  | cons key keys ih => exact ih (state.press key)

theorem isTyping_press (keys : List Key) :
    ∀ event ∈ keys.map Event.press, event.isTyping = false := by
  intro event hevent
  obtain ⟨key, -, rfl⟩ := List.mem_map.mp hevent
  rfl

/-! ## 3. What becomes of the line -/

/-- What an event that types nothing makes of the line. -/
inductive Rewritten (entry : Text) : Event → Text → Prop where
  | kept {event : Event} : Rewritten entry event entry
  | cleared {event : Event} : Rewritten entry event []
  | result {event : Event} {value : Float} (hfinite : value.isFinite = true) :
      Rewritten entry event (reentry value)
  /-- A function is called on a result. -/
  | called (f : MathFunction) : Rewritten entry (.press (.call f)) (f.name ++ ['('] ++ entry)
  /-- A digit pressed on a result starts a new line. -/
  | restarted (d : Fin 10) : Rewritten entry (.press (.digit d)) (Key.digitText d)
  | changed {key : Key} {next : Text} (hchange : Entry.Change entry key next) :
      Rewritten entry (.press key) next

theorem rewritten_commit (event : Event) (state : Calculator) :
    Rewritten state.entry event state.commit.entry := by
  cases hvalue : state.committedValue? with
  | none =>
    rw [commit_of_none hvalue]
    exact .kept
  | some value =>
    rw [commit_of_some hvalue]
    exact .result (committedValue?_eq_some_iff.mp hvalue).2

theorem rewritten_press (key : Key) (state : Calculator) :
    Rewritten state.entry (.press key) (state.press key).entry := by
  have hedited : Rewritten state.entry (.press key) (edited key state.entry) :=
    .changed (Entry.change_edited key state.entry)
  unfold press
  split
  · exact .cleared
  · exact rewritten_commit _ state
  · show Rewritten _ _ (if state.resultShown then editedResult key state.entry
      else edited key state.entry)
    split
    · cases key with
      | digit d => exact .restarted d
      | call f => exact .called f
      | _ => exact hedited
    · exact hedited

theorem rewritten_of_step? (htyping : event.isTyping = false)
    (hstep : event.step? state = some next) : Rewritten state.entry event next.entry := by
  cases event with
  | press key =>
    cases hstep
    exact rewritten_press key state
  | type entry => cases htyping
  | toggleUnit | clearHistory =>
    cases hstep
    exact .kept
  | commit =>
    cases hstep
    exact rewritten_commit _ state
  | background move unprompted =>
    obtain ⟨preview, -, rfl⟩ := Option.map_eq_some_iff.mp hstep
    exact .kept

/-! ## 4. Runs -/

namespace Kept

theorem step (hkept : Kept bad motive) (h : motive state.entry)
    (htyping : event.isTyping = false) (hsign : event = .press .sign → ¬bad state.entry)
    (hstep : event.step? state = some next) : motive next.entry := by
  have hwritten := rewritten_of_step? htyping hstep
  generalize next.entry = line at hwritten
  cases hwritten with
  | kept => exact h
  | cleared => exact hkept.empty
  | result hfinite => exact hkept.result hfinite
  | called f => exact hkept.called f h
  | restarted d => exact hkept.changed hkept.empty (by simp) (.digit d)
  | changed hchange =>
    refine hkept.changed h ?_ hchange
    rintro rfl
    exact hsign rfl

/-- A run keeps what the keypad keeps. -/
theorem run (hkept : Kept bad motive) (h : motive state.entry)
    (htyping : ∀ event ∈ events, event.isTyping = false) (hspares : SignSpares bad events state)
    (hrun : run? events state = some next) : motive next.entry := by
  induction events generalizing state with
  | nil =>
    cases hrun
    exact h
  | cons event events ih =>
    obtain ⟨hfirst, hothers⟩ := List.forall_mem_cons.mp htyping
    obtain ⟨middle, hstep, hrest⟩ := Option.bind_eq_some_iff.mp hrun
    obtain ⟨hsign, hspares⟩ := signSpares_cons.mp hspares
    exact ih (hkept.step h hfirst hsign hstep) hothers (hspares middle hstep) hrest

end Kept

end Calculator

end PocketCalc
