/-
PocketCalc.Proofs.Keypad.Parens — parentheses written on the keypad.

Without the key of the closing parenthesis no parenthesis is closed that
was not opened. The key `()` and the closing of the line before a commit
look at the totals alone, while parentheses match by their order; so what
is kept is that the line is nested (`Entry.Nested`). What an edit leaves
of the line is a prefix of it, what it writes behind closes at most a
parenthesis that it has opened itself or that is counted as open, and the
sign key takes off a pair (`Nested.change`).

Main statement: `keypad_nested`.
-/
import PocketCalc.Proofs.Entry.Nesting
import PocketCalc.Proofs.Keypad.Runs
import PocketCalc.Proofs.Number.Reentry

namespace PocketCalc

namespace Entry

variable {entry : Text}

/-! ## 1. Every key -/

theorem close_not_mem_digitText (d : Fin 10) : ')' ∉ Key.digitText d :=
  not_mem_of_digits (isDigit_digitText d) (by decide)

theorem close_not_mem_of_number {number : Text} (h : ∀ c ∈ number, isLastNumberChar c = true) :
    ')' ∉ number := by
  intro hmem
  exact absurd (h _ hmem) (by decide)

theorem close_not_mem_call (f : MathFunction) : ')' ∉ f.name ++ ['('] := by
  cases f <;> decide

theorem close_not_mem_piece {key : Key} (hkey : key ≠ .closeParen) (hplain : key.isPlain = true) :
    ')' ∉ key.piece := by
  cases key with
  | call f => exact close_not_mem_call f
  | closeParen => exact absurd rfl hkey
  | pi | euler | square | cube | powerOfTwo | openParen => decide
  | _ => cases hplain

/-- The key `()` closes a parenthesis only where one is open. -/
theorem Nested.parens (h : Nested entry) : Nested (entry ++ parenPiece entry) := by
  unfold parenPiece
  split
  · rename_i hopen
    exact h.close (n := 1) hopen
  · split
    · exact h.append_of_not_mem (by decide)
    · split <;> exact h.append_of_not_mem (by decide)

/-- Every key but the closing parenthesis keeps a line nested. -/
theorem Nested.change {key : Key} {next : Text} (h : Nested entry) (hkey : key ≠ .closeParen)
    (hchange : Change entry key next) : Nested next := by
  have hnumber : ')' ∉ lastNumber entry :=
    close_not_mem_of_number fun c hc => isLastNumberChar_of_mem hc
  have hbefore : Nested (beforeLastNumber entry) := by
    rw [← beforeLastNumber_append entry] at h
    exact h.of_append
  cases hchange with
  | refused => exact h
  | plain hplain => exact h.append_of_not_mem (close_not_mem_piece hkey hplain)
  | digit d => exact h.append_of_not_mem (close_not_mem_digitText d)
  | zero d hentry hfront =>
    rw [hentry] at h
    exact h.of_append.append_of_not_mem (close_not_mem_digitText d)
  | point hlast hc hnone => exact h.append_of_not_mem (by decide)
  | newNumber hnone => exact h.append_of_not_mem (by decide)
  | percent hvalue => exact h.append_of_not_mem (by decide)
  | factorial hvalue => exact h.append_of_not_mem (by decide)
  | operator hpiece hsign hopen hlast =>
    exact h.append_of_not_mem (not_mem_operator hsign (by decide))
  | replaced hpiece hsign hentry hlast hguard =>
    rw [hentry] at h
    exact h.of_append.append_of_not_mem (not_mem_operator hsign (by decide))
  | parens => exact h.parens
  | minus hentry => exact nested_of_not_mem (by decide)
  | negate hne => exact hbefore.group (by decide) (by simpa using hnumber)
  | unwrap hentry hne hchars =>
    rw [hentry] at h
    exact h.of_append.of_append.of_append.append_of_not_mem (close_not_mem_of_number hchars)
  | invert hne => exact hbefore.group (by decide) (by simpa using hnumber)
  | erasePiece hentry hspaces hpiece hlongest =>
    rw [hentry] at h
    exact h.of_append.of_append
  | @eraseChar trimmed spaces hentry hspaces hnone =>
    rw [hentry] at h
    obtain ⟨last, hlast⟩ := List.dropLast_prefix trimmed
    rw [← hlast] at h
    exact h.of_append.of_append

end Entry

/-! ## 2. Runs -/

namespace Calculator

open Entry Number

variable {state next : Calculator} {event : Event} {events : List Event}

/-- The event neither types over the line nor presses the closing parenthesis. -/
def Event.ClosesNothing (event : Event) : Prop :=
  event.isTyping = false ∧ event ≠ .press .closeParen

theorem closesNothing_press {keys : List Key} (h : .closeParen ∉ keys) :
    ∀ event ∈ keys.map Event.press, event.ClosesNothing := by
  intro event hevent
  obtain ⟨key, hkey, rfl⟩ := List.mem_map.mp hevent
  refine ⟨rfl, ?_⟩
  rintro ⟨⟩
  exact h hkey

theorem close_not_mem_reentry {value : Float} (h : value.isFinite = true) :
    ')' ∉ reentry value := by
  intro hmem
  rcases mem_reentry h hmem with hminus | hnumeral
  · exact absurd hminus (by decide)
  · exact absurd hnumeral (by decide)

/-- Every event that closes nothing itself keeps the line nested. -/
theorem nested_of_step? (h : Nested state.entry) (hevent : event.ClosesNothing)
    (hstep : event.step? state = some next) : Nested next.entry := by
  obtain ⟨htyping, hclose⟩ := hevent
  have hwritten := rewritten_of_step? htyping hstep
  generalize next.entry = line at hwritten
  cases hwritten with
  | kept => exact h
  | cleared => exact nested_of_not_mem List.not_mem_nil
  | result hfinite => exact nested_of_not_mem (close_not_mem_reentry hfinite)
  | called f => exact (nested_of_not_mem (close_not_mem_call f)).append_nested h
  | restarted d => exact nested_of_not_mem (close_not_mem_digitText d)
  | changed hchange =>
    refine h.change ?_ hchange
    rintro rfl
    exact hclose rfl

/-- The line stays nested, in a run from any state where it is. -/
theorem nested_of_run (h : Nested state.entry) (hevents : ∀ event ∈ events, event.ClosesNothing)
    (hrun : run? events state = some next) : Nested next.entry :=
  run?_invariant_of_mem (motive := fun state => Nested state.entry) nested_of_step? h hevents hrun

/-- A commit of a nested line is not refused for its parentheses. -/
theorem evaluate_closedEntry (h : Nested state.entry) (unit : AngleUnit) :
    Expression.evaluate unit state.closedEntry ≠ .error (.reading .unmatchedParens) := by
  obtain ⟨hclosed, htotal⟩ := h.closeParens
  exact Expression.evaluate_ne_unmatchedParens hclosed htotal unit

/-- Without the key of the closing parenthesis no prefix of the line ever has more closing
parentheses than opening ones, whatever else is pressed, and a commit is never refused for its
parentheses. It does not matter where the line comes from: a nested one stays nested. -/
theorem keypad_nested (hevents : ∀ event ∈ events, event.ClosesNothing)
    (hrun : run? events {} = some state) :
    (∀ front, front <+: state.entry → front.count ')' ≤ front.count '(') ∧
    (∀ unit, Expression.evaluate unit state.closedEntry ≠ .error (.reading .unmatchedParens)) ∧
    (∀ (before after : Calculator) (event : Event), event.ClosesNothing →
      event.step? before = some after → Nested before.entry → Nested after.entry) := by
  have hempty : Nested ({} : Calculator).entry := nested_of_not_mem List.not_mem_nil
  have hnested : Nested state.entry := nested_of_run hempty hevents hrun
  refine ⟨hnested, evaluate_closedEntry hnested, ?_⟩
  intro before after event hevent hstep hbefore
  exact nested_of_step? hbefore hevent hstep

/-- Negates a number in a call, closes it, opens a factor and inverts it. -/
def wrapped : List Key :=
  [.call .sqrt, .digit 4, .sign, .parens, .parens, .digit 2, .reciprocal, .erase]

theorem keypad_nested_wrapped :
    (pressAll wrapped {}).closedEntry = "sqrt((-4))*(1/(2))".toList ∧
      Nested (pressAll wrapped {}).entry ∧
      ∀ unit, Expression.evaluate unit (pressAll wrapped {}).closedEntry ≠
        .error (.reading .unmatchedParens) := by
  obtain ⟨hnested, hcommit, -⟩ :=
    keypad_nested (closesNothing_press (by decide)) (run?_press wrapped {})
  exact ⟨by decide +kernel, hnested, hcommit⟩

end Calculator

end PocketCalc
