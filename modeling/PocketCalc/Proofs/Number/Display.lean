/-
PocketCalc.Proofs.Number.Display — which results are displayed as `Error`.

The text displayed for a finite number starts with a digit or with a minus
sign (`head?_display`), for the thousands separators never come first. So
no result is displayed as nothing, and main statement
`display_eq_errorText_iff`: exactly the infinities and what is not a number
are displayed as `Error`.
-/
import PocketCalc.Number.Result
import PocketCalc.Proofs.Number.Bits

namespace PocketCalc.Number

/-- The separators never stand in front. -/
theorem head?_group (text : Text) : (group text).head? = text.head? := by
  cases text with
  | nil => rfl
  | cons c rest => simp [group, groupFrom]

/-- A grouped number starts with its sign or with a digit. -/
theorem head?_signed (negative : Bool) (n : Nat) (rest : Text) :
    ∃ c, (signText negative ++ group (digitsOf n) ++ rest).head? = some c ∧
      (c = '-' ∨ c.isDigit = true) := by
  cases negative with
  | true => exact ⟨'-', rfl, Or.inl rfl⟩
  | false =>
    obtain ⟨c, digits, hdigits⟩ := List.exists_cons_of_ne_nil (digitsOf_ne_nil n)
    have hhead : (group (digitsOf n)).head? = some c := by
      rw [head?_group, hdigits, List.head?_cons]
    have hc : c ∈ digitsOf n := by simp [hdigits]
    refine ⟨c, ?_, Or.inr (isDigit_of_mem_digitsOf hc)⟩
    simp [signText, List.head?_append, hhead]

theorem head?_display {x : Float} (h : x.isFinite = true) :
    ∃ c, (display x).head? = some c ∧ (c = '-' ∨ c.isDigit = true) := by
  obtain ⟨negative, rank, hx⟩ := (isFinite_iff x).mp h
  rw [display, hx]
  exact head?_signed _ _ _

theorem display_of_not_finite {x : Float} (h : x.isFinite = false) : display x = errorText := by
  unfold display
  split
  · rename_i negative rank hx
    have hfinite : x.isFinite = true := (isFinite_iff x).mpr ⟨negative, rank, hx⟩
    rw [h] at hfinite
    cases hfinite
  · rfl

/-- What is not a finite number is displayed as `Error`, and nothing else is. -/
theorem display_eq_errorText_iff {x : Float} : display x = errorText ↔ x.isFinite = false := by
  constructor
  · intro h
    cases hfinite : x.isFinite with
    | false => rfl
    | true =>
      obtain ⟨c, hhead, hc⟩ := head?_display hfinite
      rw [h] at hhead
      obtain rfl : 'E' = c := Option.some.inj hhead
      rcases hc with hc | hc
      · exact absurd hc (by decide)
      · exact absurd hc (by decide)
  · exact display_of_not_finite

/-- Every result is displayed as something. -/
theorem display_ne_nil (x : Float) : display x ≠ [] := by
  intro h
  cases hfinite : x.isFinite with
  | false =>
    rw [display_of_not_finite hfinite] at h
    exact absurd h (by decide)
  | true =>
    obtain ⟨c, hhead, -⟩ := head?_display hfinite
    rw [h] at hhead
    cases hhead

end PocketCalc.Number
