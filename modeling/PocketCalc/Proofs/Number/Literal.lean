/-
PocketCalc.Proofs.Number.Literal — which texts are decimal literals.

A literal is what is read as a decimal (`ofText?_eq_some_iff`). Among the
runs of digits and points the literals are those that have a digit and one
point at most (`exists_literal_iff`).
-/
import PocketCalc.Proofs.Formula.Spelling
import PocketCalc.Proofs.Token.Reading

namespace PocketCalc.Number.Decimal

variable {text run : Text} {d : Decimal}

/-- The literals are the texts that are read as decimals. -/
theorem ofText?_eq_some_iff : ofText? text = some d ↔ Literal text d := by
  refine ⟨?_, Literal.ofText?⟩
  intro h
  have hsplit : text.takeWhile (· ≠ '.') ++ text.dropWhile (· ≠ '.') = text :=
    List.takeWhile_append_dropWhile
  simp only [ofText?] at h
  split at h
  · rename_i hshape
    obtain ⟨hne, hdigits⟩ := hshape
    cases h
    rw [List.all_eq_true] at hdigits
    cases hafter : text.dropWhile (· ≠ '.') with
    | nil =>
      rw [hafter, List.append_nil] at hsplit
      simp only [hafter, hsplit, List.drop_nil, List.append_nil] at hne hdigits ⊢
      exact .whole hne hdigits
    | cons c fraction =>
      have hpoint := Token.not_of_mem_head?_dropWhile (c := c) (by rw [hafter]; rfl)
      obtain rfl : c = '.' := by simpa using hpoint
      rw [hafter] at hsplit
      simp only [hafter, List.drop_one, List.tail_cons] at hne hdigits ⊢
      have hliteral := Literal.pointed hne hdigits
      rwa [hsplit] at hliteral
  · cases h

/-- A run of digits and points that has a digit and one point at most is a literal. -/
theorem exists_literal {run : Text} (hrun : ∀ c ∈ run, isNumeralChar c = true)
    (hdigit : ∃ c ∈ run, c.isDigit = true) (hcount : run.count '.' ≤ 1) :
    ∃ d, Literal run d := by
  have digit_of_ne : ∀ c ∈ run, c ≠ '.' → c.isDigit = true := by
    intro c hc hne
    simpa [isNumeralChar, hne] using hrun c hc
  by_cases hpoint : '.' ∈ run
  · obtain ⟨whole, fraction, rfl⟩ := List.append_of_mem hpoint
    rw [List.count_append, List.count_cons_self] at hcount
    have hwhole : '.' ∉ whole := List.count_eq_zero.mp (by omega)
    have hfraction : '.' ∉ fraction := List.count_eq_zero.mp (by omega)
    have hdigits : ∀ c ∈ whole ++ fraction, c.isDigit = true := by
      intro c hc
      refine digit_of_ne c ?_ ?_
      · rcases List.mem_append.mp hc with hc | hc
        · exact List.mem_append_left _ hc
        · exact List.mem_append_right _ (List.mem_cons_of_mem _ hc)
      · rintro rfl
        rcases List.mem_append.mp hc with hc | hc
        · exact hwhole hc
        · exact hfraction hc
    have hne : whole ++ fraction ≠ [] := by
      intro hnil
      obtain ⟨rfl, rfl⟩ := List.append_eq_nil_iff.mp hnil
      obtain ⟨c, hc, hd⟩ := hdigit
      obtain rfl := List.mem_singleton.mp hc
      exact absurd hd (by decide)
    exact ⟨_, .pointed hne hdigits⟩
  · obtain ⟨c, hc, -⟩ := hdigit
    have hdigits : ∀ c ∈ run, c.isDigit = true := by
      intro c hc
      exact digit_of_ne c hc (fun h => hpoint (h ▸ hc))
    exact ⟨_, .whole (List.ne_nil_of_mem hc) hdigits⟩

theorem Literal.space_not_mem (h : Literal text d) : ' ' ∉ text := by
  intro hspace
  exact absurd (h.isNumeralChar ' ' hspace) (by decide)

/-- A literal has a digit and one point at most. -/
theorem Literal.digit_and_point (h : Literal text d) :
    (∃ c ∈ text, c.isDigit = true) ∧ text.count '.' ≤ 1 := by
  have no_point : ∀ {digits : Text}, (∀ c ∈ digits, c.isDigit = true) → digits.count '.' = 0 := by
    intro digits hdigits
    refine List.count_eq_zero.mpr ?_
    intro hmem
    exact absurd (hdigits '.' hmem) (by decide)
  cases h with
  | whole hne hdigits =>
    obtain ⟨c, hc⟩ := List.exists_mem_of_ne_nil _ hne
    exact ⟨⟨c, hc, hdigits c hc⟩, by rw [no_point hdigits]; exact Nat.zero_le 1⟩
  | @pointed whole fraction hne hdigits =>
    obtain ⟨c, hc⟩ := List.exists_mem_of_ne_nil _ hne
    refine ⟨⟨c, ?_, hdigits c hc⟩, ?_⟩
    · rcases List.mem_append.mp hc with hc | hc
      · exact List.mem_append_left _ hc
      · exact List.mem_append_right _ (List.mem_cons_of_mem _ hc)
    · have hcount := no_point hdigits
      rw [List.count_append] at hcount
      rw [List.count_append, List.count_cons_self]
      omega

/-- Among the runs of digits and points the literals have a digit and one point at most. -/
theorem exists_literal_iff (hrun : ∀ c ∈ run, isNumeralChar c = true) :
    (∃ d, Literal run d) ↔ (∃ c ∈ run, c.isDigit = true) ∧ run.count '.' ≤ 1 := by
  constructor
  · rintro ⟨d, hd⟩
    exact hd.digit_and_point
  · rintro ⟨hdigit, hcount⟩
    exact exists_literal hrun hdigit hcount

end PocketCalc.Number.Decimal
