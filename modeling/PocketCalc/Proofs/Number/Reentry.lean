/-
PocketCalc.Proofs.Number.Reentry — a result put back in the line reads as
itself.

The text put back for a finite result is a decimal literal, behind a minus
sign when the result is negative and not zero (`exists_literal_reentry`).
The literal reads back as the magnitude, because a whole number below 2⁶³
is written exactly and any other double by the shortest decimal that reads
back; the minus sign is read as a negation. So the text spells a formula
of one operand, worth the result (`exists_formula_reentry`). Only the sign
of a negative zero is lost (`unsignedZero`).

Main statement: `evaluate_reentry`.
-/
import PocketCalc.Number.Result
import PocketCalc.Proofs.Formula.Spelling
import PocketCalc.Proofs.Number.Bits

namespace PocketCalc

namespace Number

/-! ## 1. Written numbers are literals -/

theorem Decimal.literal_digitsOf (n : Nat) : Decimal.Literal (digitsOf n) ⟨n, 0⟩ := by
  have h := Decimal.Literal.whole (digitsOf_ne_nil n) fun c hc => isDigit_of_mem_digitsOf hc
  rwa [valueOf_digitsOf] at h

/-- A decimal in full is a literal of that decimal. -/
theorem Decimal.literal_text (d : Decimal) : Decimal.Literal d.text d := by
  by_cases hplaces : d.places = 0
  · obtain ⟨digits, places⟩ := d
    subst hplaces
    simpa [text, fractionText, whole] using literal_digitsOf digits
  · have hne : digitsOf d.whole ++ digitsPadded d.places d.digits ≠ [] := by
      simp [digitsOf_ne_nil]
    have hdigits : ∀ c ∈ digitsOf d.whole ++ digitsPadded d.places d.digits,
        c.isDigit = true := by
      intro c hc
      rcases List.mem_append.mp hc with hc | hc
      · exact isDigit_of_mem_digitsOf hc
      · exact isDigit_of_mem_digitsPadded hc
    have h := Decimal.Literal.pointed hne hdigits
    rw [valueOf_parts, length_digitsPadded] at h
    simpa [text, fractionText, hplaces] using h

/-! ## 2. Magnitudes read back -/

theorem quanta_eq_zero_iff {rank : Nat} : quanta rank = 0 ↔ rank = 0 := by
  constructor
  · intro h
    have hsignificand : significand rank = 0 := by
      rcases Nat.mul_eq_zero.mp h with hzero | hpow
      · exact hzero
      · exact absurd hpow (Nat.ne_of_gt (Nat.two_pow_pos _))
    have hrank := doublings_significand rank
    rcases Nat.eq_zero_or_pos (doublings rank) with hzero | hpos
    · omega
    · have := significand_of_doublings_pos hpos
      omega
  · rintro rfl
    rfl

theorem smallWhole?_zero : smallWhole? 0 = some 0 := by
  simp [smallWhole?, quanta_eq_zero_iff.mpr rfl]

/-- A whole number below 2⁶³ reads back as the double it was. -/
theorem toFloat_of_smallWhole? {rank whole : Nat} (hrank : rank < infinityRank)
    (h : smallWhole? rank = some whole) :
    Decimal.toFloat ⟨whole, 0⟩ = floatOfRank rank ∧ (whole = 0 ↔ rank = 0) := by
  simp only [smallWhole?, Option.ite_none_right_eq_some, Option.some.injEq] at h
  obtain ⟨⟨hmod, -⟩, hwhole⟩ := h
  have hquanta : whole * quantaPerUnit = quanta rank := by
    have := Nat.div_add_mod (quanta rank) quantaPerUnit
    rw [hmod, Nat.add_zero, hwhole, Nat.mul_comm] at this
    exact this
  have hnearest : nearestRank whole 1 = rank := by
    rw [← nearestRank_scale whole 1 quantaPerUnit_pos, Nat.one_mul, hquanta,
      nearestRank_quanta hrank]
  constructor
  · rw [Decimal.toFloat, Decimal.rank, Nat.pow_zero, hnearest]
  · rw [← @quanta_eq_zero_iff rank, ← hquanta, Nat.mul_eq_zero,
      or_iff_left (Nat.ne_of_gt quantaPerUnit_pos)]

/-! ## 3. The sign of zero -/

/-- A double, where negative zero becomes zero. -/
def unsignedZero (x : Float) : Float :=
  if x = -0 then 0 else x

theorem unsignedZero_eq {x : Float} {negative : Bool} {rank : Nat}
    (h : Binary64.ofFloat x = .finite negative rank) :
    unsignedZero x =
      if negative && rank ≠ 0 then -(floatOfRank rank) else floatOfRank rank := by
  have hx := eq_of_ofFloat_finite h
  unfold unsignedZero
  by_cases hzero : x = -0
  · rw [if_pos hzero]
    rw [hzero] at h
    obtain ⟨rfl, rfl⟩ : true = negative ∧ 0 = rank := Binary64.finite.inj h
    rfl
  · rw [if_neg hzero]
    cases negative with
    | false => simpa using hx
    | true =>
      have hne : rank ≠ 0 := by
        rintro rfl
        exact hzero hx
      simpa [hne] using hx

/-- What is displayed does not depend on the sign of a zero, nor does what is put back. -/
theorem display_unsignedZero (x : Float) : display (unsignedZero x) = display x := by
  unfold unsignedZero
  split
  · rename_i hx
    rw [hx]
    decide +kernel
  · rfl

theorem reentry_unsignedZero (x : Float) : reentry (unsignedZero x) = reentry x := by
  unfold unsignedZero
  split
  · rename_i hx
    rw [hx]
    decide +kernel
  · rfl

theorem isFinite_unsignedZero {x : Float} (h : x.isFinite = true) :
    (unsignedZero x).isFinite = true := by
  unfold unsignedZero
  split
  · rfl
  · exact h

/-! ## 4. The text put back -/

/-- The text put back is a literal of the magnitude, with a minus sign in front when the
number is negative and not zero. -/
theorem exists_literal_reentry {x : Float} {negative : Bool} {rank : Nat}
    (h : Binary64.ofFloat x = .finite negative rank) :
    ∃ text d, Decimal.Literal text d ∧ d.toFloat = floatOfRank rank ∧
      reentry x = signText (negative && rank ≠ 0) ++ text := by
  have hrank : rank < infinityRank := (ofFloat_eq_finite_iff.mp h).2
  simp only [reentry, h]
  cases hwhole : smallWhole? rank with
  | some whole =>
    obtain ⟨hfloat, hzero⟩ := toFloat_of_smallWhole? hrank hwhole
    refine ⟨digitsOf whole, ⟨whole, 0⟩, Decimal.literal_digitsOf whole, hfloat, ?_⟩
    simp [hzero]
  | none =>
    have hne : rank ≠ 0 := by
      intro hzero
      rw [hzero, smallWhole?_zero] at hwhole
      cases hwhole
    refine ⟨(shortest rank).text, shortest rank, Decimal.literal_text _, toFloat_shortest hrank, ?_⟩
    simp [floatText, h, Binary64.text, hne]

/-- The places of a decimal, if it has any, are digits behind a point. -/
theorem Decimal.fractionText_shape (d : Decimal) :
    d.fractionText = [] ∨ ∃ digits, digits ≠ [] ∧ (∀ c ∈ digits, c.isDigit = true) ∧
      d.fractionText = '.' :: digits := by
  rw [d.fractionText_eq]
  split
  · exact Or.inl rfl
  · exact Or.inr ⟨_, ‹_›, fun c hc => isDigit_of_mem_digitsPadded hc, rfl⟩

/-- The text put back is a sign and digits, with digits behind a point or without. -/
theorem exists_digits_reentry {x : Float} (h : x.isFinite = true) :
    ∃ negative whole places, reentry x = signText negative ++ digitsOf whole ++ places ∧
      (places = [] ∨ ∃ digits, digits ≠ [] ∧ (∀ c ∈ digits, c.isDigit = true) ∧
        places = '.' :: digits) := by
  obtain ⟨negative, rank, hx⟩ := (isFinite_iff x).mp h
  simp only [reentry, hx]
  cases hwhole : smallWhole? rank with
  | some whole =>
    exact ⟨negative && whole ≠ 0, whole, [], (List.append_nil _).symm, Or.inl rfl⟩
  | none =>
    refine ⟨negative, (shortest rank).whole, (shortest rank).fractionText, ?_,
      (shortest rank).fractionText_shape⟩
    simp [floatText, hx, Binary64.text, Decimal.text]

/-- The text put back holds digits, a point and a minus sign. -/
theorem mem_reentry {x : Float} (h : x.isFinite = true) {c : Char} (hc : c ∈ reentry x) :
    c = '-' ∨ isNumeralChar c = true := by
  obtain ⟨negative, whole, places, hreentry, hplaces⟩ := exists_digits_reentry h
  have hall : c ∈ signText negative ∨ c = '.' ∨ c.isDigit = true := by
    rw [hreentry, List.mem_append, List.mem_append] at hc
    rcases hc with (hsign | hwhole) | hplace
    · exact Or.inl hsign
    · exact Or.inr (Or.inr (isDigit_of_mem_digitsOf hwhole))
    · rcases hplaces with rfl | ⟨digits, -, hdigits, rfl⟩
      · cases hplace
      · exact Or.inr ((List.mem_cons.mp hplace).imp id (hdigits c))
  rcases hall with hsign | rfl | hdigit
  · cases negative with
    | false => cases hsign
    | true => exact Or.inl (List.mem_singleton.mp hsign)
  · exact Or.inr (by decide)
  · exact Or.inr (Text.isNumeralChar_of_isDigit hdigit)

open Formula in
/-- The text put back spells one operand, worth the number. -/
theorem exists_formula_reentry {x : Float} (h : x.isFinite = true) :
    ∃ f : Formula .signed, f.Spelling (reentry x) ∧ ∀ unit, f.value unit = unsignedZero x := by
  obtain ⟨negative, rank, hx⟩ := (isFinite_iff x).mp h
  obtain ⟨text, d, hliteral, hfloat, htext⟩ := exists_literal_reentry hx
  have hnumber : Spelling (ofSuffixed (ofAtom (number d.toFloat))) text :=
    .lift (.lift (.literal hliteral))
  rw [htext, unsignedZero_eq hx]
  cases negative && decide (rank ≠ 0) with
  | false =>
    refine ⟨_, hnumber, ?_⟩
    intro unit
    exact hfloat
  | true =>
    refine ⟨negate _, .negate (by decide) hnumber, ?_⟩
    intro unit
    exact congrArg (fun y : Float => -y) hfloat

end Number

/-! ## 5. Reading it again -/

theorem Text.Spaced.refl (s : Text) : Spaced s s := by
  induction s with
  | nil => exact .nil
  | cons c s ih => exact .char c ih

/-- A spelling is cut into the tokens of its tree. -/
theorem Formula.Spelling.tokenize {level : Level} {x : Formula level} {s : Text}
    (hx : x.Spelling s) : Token.tokenize s = .ok x.tokens := by
  have hscan := Token.scan_spelling hx Token.detached_nil
  rw [List.append_nil, Token.scan_nil] at hscan
  rw [Token.tokenize, Text.squeeze_of_spaced (.refl s) hx.isWhiteSpace, hscan]
  simp [Except.map]

theorem Formula.Spelling.isBlank {level : Level} {x : Formula level} {s : Text}
    (hx : x.Spelling s) : Text.isBlank s = false :=
  Text.isBlank_of_spaced (.refl s) hx.ne_nil hx.isWhiteSpace

namespace Number

open Formula

theorem isBlank_reentry {x : Float} (h : x.isFinite = true) :
    Text.isBlank (reentry x) = false := by
  obtain ⟨f, hf, -⟩ := exists_formula_reentry h
  exact hf.isBlank

/-- The text put back for a finite result is worth that result, in both units. -/
theorem evaluate_reentry {x : Float} (h : x.isFinite = true) (unit : AngleUnit) :
    Expression.evaluate unit (reentry x) = .ok (unsignedZero x) := by
  obtain ⟨f, hf, hvalue⟩ := exists_formula_reentry h
  have hsum : Spelling (ofProduct (ofPower (ofSigned f))) (reentry x) :=
    .lift (.lift (.lift hf))
  rw [Expression.evaluate_of_tokenize hsum.isBlank hsum.tokenize,
    Expression.evaluateTokens_tokens]
  exact congrArg Except.ok (hvalue unit)

end Number

end PocketCalc
