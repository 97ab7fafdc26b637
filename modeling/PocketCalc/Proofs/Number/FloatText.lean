/-
PocketCalc.Proofs.Number.FloatText — a double written in full reads back.

A double is written as a sign and a magnitude: a decimal, or a word for an
infinity. `readNumber?` reads that text with the rounding of the numerals
of an expression, so the shortest decimal of a double gives the double
again. No double is excepted: the sign of a zero is written, and all bits
that are no number are one double.

Main statement: `readNumber?_floatText`.
-/
import PocketCalc.Proofs.Number.Reentry

namespace PocketCalc.Number

/-! ## 1. Signs -/

/-- Reads a text with a minus sign in front or without, the rest by `read?`. -/
def readSigned? {α : Type} [Neg α] (read? : Text → Option α) : Text → Option α
  | '-' :: text => (read? text).map (- ·)
  | text => read? text

theorem readSigned?_signText {α : Type} [Neg α] {read? : Text → Option α} {text : Text} {value : α}
    (hhead : '-' ∉ text) (h : read? text = some value) (negative : Bool) :
    readSigned? read? (signText negative ++ text) =
      some (if negative then -value else value) := by
  cases negative with
  | true => simp [signText, readSigned?, h]
  | false =>
    have hne : ∀ rest, text ≠ '-' :: rest := by
      rintro rest rfl
      exact hhead List.mem_cons_self
    simp only [signText, Bool.false_eq_true, if_false, List.nil_append]
    rw [readSigned?.eq_2 _ _ hne, h]

/-- The text of a decimal has no sign, no separator, no space and no letter. -/
theorem Decimal.not_mem_text (d : Decimal) {c : Char} (h : isNumeralChar c = false) :
    c ∉ d.text := by
  intro hmem
  rw [(Decimal.literal_text d).isNumeralChar c hmem] at h
  cases h

/-! ## 2. Infinities and what is no number -/

theorem eq_of_ofFloat_infinite {x : Float} {negative : Bool}
    (h : Binary64.ofFloat x = .infinite negative) :
    x = if negative then -(floatOfRank infinityRank) else floatOfRank infinityRank := by
  have hlt : x.toBits.toNat < 2 ^ 64 := x.toBits.toNat_lt
  have hbits : x.toBits.toNat = (if negative then 2 ^ 63 else 0) + infinityRank := by
    simp only [Binary64.ofFloat] at h
    split at h
    · cases h
    · split at h
      · rename_i hrank
        obtain rfl := Binary64.infinite.inj h
        simp only [decide_eq_true_eq]
        split <;> omega
      · cases h
  rw [← ofBits_toBits x, ← @UInt64.ofNat_toNat x.toBits, hbits]
  cases negative with
  | false => rfl
  | true => rfl

open Float.Model Float.Model.UnpackedFloat in
/-- The bits of a rank above that of infinity are those of the one double that is no number. -/
theorem eq_packedNaN_of_lt {b : Word} (hvalid : Format.binary64.Valid b)
    (h : infinityRank < b.toNat % 2 ^ 63) : b = packedNaN .binary64 := by
  refine hvalid.eq_packedNaN ((exponent_eq_iff b).mpr h.le) ?_
  intro hzero
  have hlow : (unpackMantissa b).toNat = 0 := congrArg BitVec.toNat hzero
  rw [toNat_mantissa] at hlow
  simp only [infinityRank] at h
  omega

open Float.Model in
theorem eq_of_ofFloat_nan {x : Float} (h : Binary64.ofFloat x = .nan) : x = Float.nan := by
  have hrank : infinityRank < x.toBits.toNat % 2 ^ 63 := by
    simp only [Binary64.ofFloat] at h
    split at h
    · cases h
    · split at h
      · cases h
      · omega
  have hbits : x.toBits = UInt64.ofBitVec (UnpackedFloat.packedNaN .binary64) :=
    UInt64.toBitVec_inj.mp (eq_packedNaN_of_lt x.toModel.valid hrank)
  rw [← ofBits_toBits x, hbits]
  rfl

/-! ## 3. Doubles read back -/

/-- Reads an infinity or a decimal. -/
def readMagnitude? (text : Text) : Option Float :=
  if text = "inf".toList then some (floatOfRank infinityRank)
  else (Decimal.ofText? text).map Decimal.toFloat

/-- Reads a double written in full. -/
def readNumber? (text : Text) : Option Float :=
  if text = "NaN".toList then some Float.nan else readSigned? readMagnitude? text

theorem readMagnitude?_text (d : Decimal) : readMagnitude? d.text = some d.toFloat := by
  have hne : d.text ≠ "inf".toList := by
    intro h
    have hi : 'i' ∉ d.text := d.not_mem_text rfl
    simp [h] at hi
  rw [readMagnitude?, if_neg hne, Decimal.ofText?_text]
  rfl

/-- A sign and a decimal do not name what is no number. -/
theorem signText_append_ne_nan (negative : Bool) {text : Text} (h : 'N' ∉ text) :
    signText negative ++ text ≠ "NaN".toList := by
  intro heq
  have hmem : 'N' ∈ signText negative ++ text := by simp [heq]
  rcases List.mem_append.mp hmem with hsign | htext
  · revert hsign
    cases negative <;> decide
  · exact h htext

/-- A double written in full is read back as that double. -/
theorem readNumber?_floatText (x : Float) : readNumber? (floatText x) = some x := by
  unfold floatText
  cases h : Binary64.ofFloat x with
  | nan => rw [eq_of_ofFloat_nan h]; rfl
  | infinite negative =>
    have hread : readMagnitude? "inf".toList = some (floatOfRank infinityRank) := rfl
    rw [eq_of_ofFloat_infinite h, Binary64.text, readNumber?,
      if_neg (signText_append_ne_nan negative (by decide)),
      readSigned?_signText (by decide) hread]
  | finite negative rank =>
    have hrank : rank < infinityRank := (ofFloat_eq_finite_iff.mp h).2
    have hletter : 'N' ∉ (shortest rank).text := Decimal.not_mem_text _ rfl
    rw [eq_of_ofFloat_finite h, Binary64.text, readNumber?,
      if_neg (signText_append_ne_nan negative hletter),
      readSigned?_signText (Decimal.not_mem_text _ rfl) (readMagnitude?_text _),
      toFloat_shortest hrank]

theorem space_not_mem_floatText (x : Float) : ' ' ∉ floatText x := by
  have hsign : ∀ negative, ' ' ∉ signText negative := by decide
  unfold floatText
  cases Binary64.ofFloat x with
  | nan => decide
  | infinite negative => cases negative <;> decide
  | finite negative rank =>
    have hdecimal : ' ' ∉ (shortest rank).text := Decimal.not_mem_text _ rfl
    exact fun hmem => (List.mem_append.mp hmem).elim (hsign negative) hdecimal

end PocketCalc.Number
