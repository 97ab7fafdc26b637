/-
PocketCalc.Proofs.Number.Canonical — the displayed text is the exact value
to ten decimals, in canonical form.

What is displayed depends on one whole number only: the exact value in
units of the tenth decimal, rounded to nearest, ties to even
(`display_eq_shownText`). The sign of that number is the displayed sign,
so a value that rounds to zero has none, and a carry of the rounding is
made before anything is written: it may lengthen the first group or open a
new one, but it cannot break the groups or the places.

`Shown` is the form of the displayed texts, with the conditions that make
it canonical. Main statement: `display_canonical`.
-/
import PocketCalc.Proofs.Number.Display
import PocketCalc.Proofs.Number.Exact
import PocketCalc.Proofs.Number.FloatText

namespace PocketCalc.Number

/-! ## 1. Decimals without zeros at the end -/

namespace Decimal

/-- The rational number that a decimal is. -/
def value (d : Decimal) : ℚ :=
  d.digits / 10 ^ d.places

theorem value_trimPlaces (digits places : Nat) :
    (trimPlaces digits places).value = digits / 10 ^ places := by
  induction places generalizing digits with
  | zero => rfl
  | succ places ih =>
    rw [trimPlaces]
    split
    · rename_i h
      obtain ⟨tens, rfl⟩ := Nat.dvd_of_mod_eq_zero h
      rw [ih, Nat.mul_div_cancel_left _ (by decide), pow_succ', Nat.cast_mul, Nat.cast_ofNat,
        mul_div_mul_left _ _ (by norm_num)]
    · rfl

theorem places_trimPlaces_le (digits places : Nat) :
    (trimPlaces digits places).places ≤ places := by
  induction places generalizing digits with
  | zero => rfl
  | succ places ih =>
    rw [trimPlaces]
    split
    · exact (ih _).trans (Nat.le_succ _)
    · rfl

/-- The last place that is left is no zero. -/
theorem digits_trimPlaces_mod {digits places : Nat} (h : (trimPlaces digits places).places ≠ 0) :
    (trimPlaces digits places).digits % 10 ≠ 0 := by
  induction places generalizing digits with
  | zero => exact absurd rfl h
  | succ places ih =>
    rw [trimPlaces] at h ⊢
    split
    · rename_i hzero
      rw [if_pos hzero] at h
      exact ih h
    · assumption

theorem value_eq_zero_iff {d : Decimal} : d.value = 0 ↔ d.digits = 0 := by
  simp [value]

end Decimal

/-! ## 2. Digits -/

/-- A number is written without zeros in front, but for zero itself. -/
theorem digitsOf_leading (n : Nat) : digitsOf n = ['0'] ∨ (digitsOf n).head? ≠ some '0' := by
  fun_induction digitsOf n with
  | case1 n h =>
    rcases eq_or_ne (digitChar n) '0' with hzero | hne
    · exact Or.inl (by rw [hzero])
    · exact Or.inr (by simpa using hne)
  | case2 n h ih =>
    right
    rcases ih with hzero | hne
    · have hvalue := valueOf_digitsOf (n / 10)
      rw [hzero] at hvalue
      have : n / 10 = 0 := hvalue.symm
      omega
    · rwa [List.head?_append_of_ne_nil _ (digitsOf_ne_nil _)]

theorem digitChar_eq_zero_iff (n : Nat) : digitChar n = '0' ↔ n % 10 = 0 := by
  constructor
  · intro h
    rw [← digitValue_digitChar, h]
    rfl
  · intro h
    rw [digitChar, h]

/-- Digits in a fixed width end in a zero when the number does. -/
theorem getLast?_digitsPadded {width n : Nat} (h : width ≠ 0 → n % 10 ≠ 0) :
    (digitsPadded width n).getLast? ≠ some '0' := by
  cases width with
  | zero => simp [digitsPadded]
  | succ width => simpa [digitsPadded, digitChar_eq_zero_iff] using h

/-! ## 3. Groups -/

/-- Three characters that a multiple of three follows make up a group. -/
theorem groupFrom_triple {passed : Nat} (hpassed : 0 < passed) (a b c : Char) {rest : Text}
    (hrest : rest.length % 3 = 0) :
    groupFrom (passed + (a :: b :: c :: rest).length) passed (a :: b :: c :: rest) =
      groupSeparator :: [a, b, c] ++
        groupFrom (passed + 3 + rest.length) (passed + 3) rest := by
  have hsize : passed + (a :: b :: c :: rest).length = passed + 3 + rest.length := by
    simp only [List.length_cons]
    omega
  rw [hsize, groupFrom, if_pos (by omega), groupFrom, if_neg (by omega), groupFrom,
    if_neg (by omega)]
  rfl

/-- What stands behind the first group is cut into groups of three. -/
theorem exists_groups_of_length (count : Nat) {passed : Nat} (hpassed : 0 < passed) {text : Text}
    (htext : text.length = 3 * count) :
    ∃ groups : List Text, (∀ g ∈ groups, g.length = 3) ∧ groups.flatten = text ∧
      groupFrom (passed + text.length) passed text = groups.flatMap (groupSeparator :: ·) := by
  induction count generalizing passed text with
  | zero =>
    obtain rfl := List.eq_nil_of_length_eq_zero htext
    exact ⟨[], by simp, rfl, rfl⟩
  | succ count ih =>
    obtain ⟨a, b, c, rest, rfl⟩ : ∃ a b c rest, text = a :: b :: c :: rest := by
      match text, htext with
      | a :: b :: c :: rest, _ => exact ⟨a, b, c, rest, rfl⟩
    have hrest : rest.length = 3 * count := by
      simp only [List.length_cons] at htext
      omega
    obtain ⟨groups, hlength, hflatten, hgroups⟩ := ih (Nat.add_pos_left hpassed 3) hrest
    refine ⟨[a, b, c] :: groups, ?_, ?_, ?_⟩
    · intro g hg
      rcases List.mem_cons.mp hg with rfl | hg
      · rfl
      · exact hlength g hg
    · rw [List.flatten_cons, hflatten]
      rfl
    · rw [groupFrom_triple hpassed a b c (by omega), hgroups, List.flatMap_cons]

/-- Within the first group no separator falls. -/
theorem groupFrom_first {size passed : Nat} {first rest : Text} (hrest : rest.length % 3 = 0)
    (hfew : passed + first.length ≤ 3) (hsize : size = passed + first.length + rest.length) :
    groupFrom size passed (first ++ rest) =
      first ++ groupFrom size (passed + first.length) rest := by
  induction first generalizing passed with
  | nil => rfl
  | cons c first ih =>
    simp only [List.length_cons] at hfew hsize
    rw [List.cons_append, groupFrom, if_neg (by omega), ih (by omega) (by omega),
      List.cons_append, List.length_cons, Nat.add_right_comm, Nat.add_assoc]

theorem utf8Size_of_isDigit {c : Char} (h : c.isDigit = true) : c.utf8Size = 1 := by
  have hle : c.val ≤ '9'.val := by
    simp only [Char.isDigit, Bool.and_eq_true, decide_eq_true_eq] at h
    exact h.2
  exact if_pos (UInt32.le_trans hle (by decide))

/-- Digits are characters of one byte. -/
theorem byteSize_of_isDigit {text : Text} (h : ∀ c ∈ text, c.isDigit = true) :
    text.byteSize = text.length := by
  induction text with
  | nil => rfl
  | cons c text ih =>
    obtain ⟨hc, htext⟩ := List.forall_mem_cons.mp h
    rw [Text.byteSize_cons, utf8Size_of_isDigit hc, ih htext, List.length_cons, Nat.add_comm]

/-- Digits are cut into a first group of at most three and groups of three. -/
theorem exists_groups {text : Text} (hne : text ≠ []) (h : ∀ c ∈ text, c.isDigit = true) :
    ∃ (first : Text) (groups : List Text),
      (1 ≤ first.length ∧ first.length ≤ 3) ∧ (∀ g ∈ groups, g.length = 3) ∧
      first ++ groups.flatten = text ∧
      group text = first ++ groups.flatMap (groupSeparator :: ·) := by
  have hpos : 0 < text.length := List.length_pos_iff.mpr hne
  obtain ⟨count, few, htext, hlow, hhigh⟩ :
      ∃ count few, text.length = few + 3 * count ∧ 1 ≤ few ∧ few ≤ 3 :=
    ⟨(text.length - 1) / 3, (text.length - 1) % 3 + 1, by omega, by omega, by omega⟩
  obtain ⟨first, rest, rfl, hfirst⟩ : ∃ first rest, text = first ++ rest ∧ first.length = few :=
    ⟨text.take few, text.drop few, (List.take_append_drop few text).symm,
      List.length_take_of_le (by omega)⟩
  rw [List.length_append, hfirst, Nat.add_right_inj] at htext
  obtain ⟨groups, hlength, hflatten, hgroups⟩ := exists_groups_of_length count hlow htext
  refine ⟨first, groups, ⟨by omega, by omega⟩, hlength, by rw [hflatten], ?_⟩
  have hcut : groupFrom (few + rest.length) 0 (first ++ rest) =
      first ++ groupFrom (few + rest.length) (0 + first.length) rest :=
    groupFrom_first (by omega) (by omega) (by omega)
  rw [group, byteSize_of_isDigit h, List.length_append, hfirst, hcut, hfirst, Nat.zero_add, hgroups]

/-! ## 4. What is displayed is the rounded value -/

/-- The exact value in units of the tenth decimal, rounded to nearest, ties to even. -/
def roundedUnits (x : Float) : ℤ :=
  roundEven (exactValue x * 10 ^ 10)

/-- The exact value rounded to ten decimals. -/
def roundedValue (x : Float) : ℚ :=
  roundedUnits x / 10 ^ 10

/-- The text displayed for so many units of the tenth decimal. -/
def shownText (units : ℤ) : Text :=
  let shown := Decimal.trim ⟨units.natAbs, 10⟩
  signText (units < 0) ++ group (digitsOf shown.whole) ++ shown.fractionText

variable {x y : Float}

theorem roundedUnits_eq {negative : Bool} {rank : Nat}
    (h : Binary64.ofFloat x = .finite negative rank) :
    roundedUnits x =
      if negative then -(roundHalfEven (quanta rank * 10 ^ 10) quantaPerUnit : ℤ)
      else roundHalfEven (quanta rank * 10 ^ 10) quantaPerUnit := by
  have hscaled : (quanta rank / quantaPerUnit * 10 ^ 10 : ℚ) =
      (quanta rank * 10 ^ 10 : Nat) / quantaPerUnit := by
    rw [div_mul_eq_mul_div, Nat.cast_mul, Nat.cast_pow, Nat.cast_ofNat]
  rw [roundedUnits, exactValue_eq h, signed_mul, hscaled]
  cases negative with
  | false =>
    rw [signed, if_neg Bool.false_ne_true, if_neg Bool.false_ne_true,
      roundEven_div _ quantaPerUnit_pos]
  | true => rw [signed, if_pos rfl, if_pos rfl, roundEven_neg, roundEven_div _ quantaPerUnit_pos]

theorem roundedValue_inj : roundedValue x = roundedValue y ↔
    roundedUnits x = roundedUnits y := by
  rw [roundedValue, roundedValue, div_left_inj' (by positivity), Int.cast_inj]

/-- The rounding is negative when the exact value is and does not round to zero. -/
theorem roundedUnits_neg_iff :
    roundedUnits x < 0 ↔ exactValue x < 0 ∧ roundedValue x ≠ 0 := by
  have hunits : roundedValue x ≠ 0 ↔ roundedUnits x ≠ 0 := by
    rw [roundedValue, Ne, div_eq_zero_iff, or_iff_left (by positivity), Int.cast_eq_zero]
  have hpow : (0 : ℚ) < 10 ^ 10 := by positivity
  have hscaled : exactValue x * 10 ^ 10 < 0 ↔ exactValue x < 0 := by
    rw [mul_neg_iff, or_iff_right fun h => hpow.not_gt h.2, and_iff_left hpow]
  rw [hunits, roundedUnits, roundEven_neg_iff, hscaled]

theorem digits_trim_eq_zero_iff (d : Decimal) : d.trim.digits = 0 ↔ d.digits = 0 := by
  rw [← Decimal.value_eq_zero_iff, Decimal.trim, Decimal.value_trimPlaces]
  exact Decimal.value_eq_zero_iff

/-- The displayed text depends on the rounded value only. -/
theorem display_eq_shownText (hx : x.isFinite = true) :
    display x = shownText (roundedUnits x) := by
  obtain ⟨negative, rank, h⟩ := (isFinite_iff x).mp hx
  rw [roundedUnits_eq h]
  simp only [display, h, displayedDecimal, displayedPlaces, shownText, ne_eq,
    digits_trim_eq_zero_iff]
  generalize roundHalfEven (quanta rank * 10 ^ 10) quantaPerUnit = units
  have habs : (if negative then -(units : ℤ) else units).natAbs = units := by
    split <;> omega
  have hsign : decide ((if negative then -(units : ℤ) else units) < 0) =
      (negative && decide (¬ units = 0)) := by
    cases negative with
    | false =>
      simp only [Bool.false_eq_true, if_false, Bool.false_and, decide_eq_false_iff_not]
      omega
    | true =>
      simp only [if_true, Bool.true_and, decide_eq_decide]
      omega
  rw [habs, hsign]

/-! ## 5. Reading it back -/

/-- Reads a decimal. -/
def readDecimal? (text : Text) : Option ℚ :=
  (Decimal.ofText? text).map Decimal.value

theorem readDecimal?_text (negative : Bool) (d : Decimal) :
    readSigned? readDecimal? (signText negative ++ d.text) = some (signed negative d.value) := by
  have hread : readDecimal? d.text = some d.value := by
    rw [readDecimal?, Decimal.ofText?_text]
    rfl
  exact readSigned?_signText (d.not_mem_text rfl) hread negative

/-- Without its separators the text is that of the decimal. -/
theorem filter_shownText (units : ℤ) :
    (shownText units).filter (· != groupSeparator) =
      signText (units < 0) ++ (Decimal.trim ⟨units.natAbs, 10⟩).text := by
  have hsign : ∀ negative, (signText negative).filter (· != groupSeparator) =
      signText negative := by decide
  have hmem (d : Decimal) : groupSeparator ∉ d.text := d.not_mem_text rfl
  have hwhole (d : Decimal) : (group (digitsOf d.whole)).filter (· != groupSeparator) =
      digitsOf d.whole :=
    filter_groupFrom _ _ fun h => hmem d (List.mem_append_left _ h)
  have hfraction (d : Decimal) : d.fractionText.filter (· != groupSeparator) = d.fractionText := by
    rw [List.filter_eq_self]
    intro c hc
    exact bne_iff_ne.mpr fun h => hmem d (List.mem_append_right _ (h ▸ hc))
  simp only [shownText, List.filter_append, hsign, hwhole, hfraction, Decimal.text,
    List.append_assoc]

theorem signed_natAbs (units : ℤ) (q : ℚ) : signed (units < 0) (units.natAbs / q) = units / q := by
  rw [Nat.cast_natAbs]
  by_cases h : units < 0
  · rw [abs_of_neg h]
    simp [signed, h]
    ring
  · rw [abs_of_nonneg (not_lt.mp h)]
    simp [signed, h]

/-- Without its separators the text reads as the value it was made of. -/
theorem readDecimal?_shownText (units : ℤ) :
    readSigned? readDecimal? ((shownText units).filter (· != groupSeparator)) =
      some ((units : ℚ) / 10 ^ 10) := by
  rw [filter_shownText, readDecimal?_text, Decimal.trim, Decimal.value_trimPlaces, signed_natAbs]

/-! ## 6. The canonical form -/

/-- A displayed number in parts, with what makes it canonical: digits in groups of three
behind a first group of at most three, no zeros in front of a number but for zero itself, and
none behind the places. -/
structure Shown where
  negative : Bool
  first : Text
  groups : List Text
  places : Text
  isDigit : ∀ c ∈ first ++ groups.flatten ++ places, c.isDigit = true
  length_first : 1 ≤ first.length ∧ first.length ≤ 3
  length_groups : ∀ g ∈ groups, g.length = 3
  leading : first ++ groups.flatten = ['0'] ∨ first.head? ≠ some '0'
  length_places : places.length ≤ 10
  trailing : places.getLast? ≠ some '0'

/-- The parts put together: the sign, the groups, and the places behind a point if there are any. -/
def Shown.text (s : Shown) : Text :=
  (if s.negative then ['-'] else []) ++ s.first ++ s.groups.flatMap (',' :: ·) ++
    (if s.places = [] then [] else '.' :: s.places)

/-- What the parts are worth: all digits together are a whole number of units of the last place. -/
def Shown.value (s : Shown) : ℚ :=
  signed s.negative (valueOf (s.first ++ s.groups.flatten ++ s.places) / 10 ^ s.places.length)

/-- Every displayed text has the canonical form. -/
theorem exists_shown (units : ℤ) :
    ∃ s : Shown, shownText units = s.text ∧ s.negative = decide (units < 0) ∧
      s.value = units / 10 ^ 10 := by
  obtain ⟨d, hd⟩ : ∃ d, Decimal.trim ⟨units.natAbs, 10⟩ = d := ⟨_, rfl⟩
  obtain ⟨first, groups, hfirst, hgroups, hflatten, hgroup⟩ :=
    exists_groups (digitsOf_ne_nil d.whole) fun c hc => isDigit_of_mem_digitsOf hc
  have hdigits : ∀ c ∈ first ++ groups.flatten ++ digitsPadded d.places d.digits,
      c.isDigit = true := by
    intro c hc
    rw [hflatten] at hc
    exact (List.mem_append.mp hc).elim isDigit_of_mem_digitsOf isDigit_of_mem_digitsPadded
  have hleading : first ++ groups.flatten = ['0'] ∨ first.head? ≠ some '0' := by
    have hne : first ≠ [] := List.length_pos_iff.mp hfirst.1
    have h := digitsOf_leading d.whole
    rwa [← hflatten, List.head?_append_of_ne_nil _ hne] at h
  have hplaces : (digitsPadded d.places d.digits).length ≤ 10 := by
    rw [length_digitsPadded, ← hd]
    exact Decimal.places_trimPlaces_le ..
  have htrailing : (digitsPadded d.places d.digits).getLast? ≠ some '0' := by
    refine getLast?_digitsPadded ?_
    rw [← hd]
    exact Decimal.digits_trimPlaces_mod
  refine ⟨⟨units < 0, first, groups, _, hdigits, hfirst, hgroups, hleading, hplaces, htrailing⟩,
    ?_, rfl, ?_⟩
  · simp only [shownText, hd, hgroup, d.fractionText_eq, Shown.text, signText, groupSeparator,
      List.append_assoc]
  · have hvalue : d.value = units.natAbs / 10 ^ 10 := by
      rw [← hd, Decimal.trim, Decimal.value_trimPlaces]
    rw [Shown.value, hflatten, d.valueOf_parts, length_digitsPadded, ← signed_natAbs, ← hvalue]
    rfl

/-- What is displayed for a finite number is canonical and exact: it has the canonical form,
with a sign exactly when the number is negative and its rounding is not zero, and is worth the
exact value rounded to ten decimals, ties to even; that is also what is read of it without the
separators; two numbers are displayed alike exactly when they round alike; and no number is
displayed as an error. -/
theorem display_canonical (hx : x.isFinite = true) :
    (∃ s : Shown, display x = s.text ∧ s.value = roundedValue x ∧
      (s.negative = true ↔ exactValue x < 0 ∧ roundedValue x ≠ 0)) ∧
    readSigned? readDecimal? ((display x).filter (· != ',')) = some (roundedValue x) ∧
    (∀ y : Float, y.isFinite = true →
      (display x = display y ↔ roundedValue x = roundedValue y)) ∧
    display x ≠ "Error".toList := by
  have hread {z : Float} (hz : z.isFinite = true) :
      readSigned? readDecimal? ((display z).filter (· != ',')) = some (roundedValue z) := by
    rw [display_eq_shownText hz]
    exact readDecimal?_shownText _
  refine ⟨?_, hread hx, fun y hy => ⟨fun h => ?_, fun h => ?_⟩, ?_⟩
  · obtain ⟨s, htext, hnegative, hvalue⟩ := exists_shown (roundedUnits x)
    refine ⟨s, (display_eq_shownText hx).trans htext, hvalue, ?_⟩
    rw [hnegative, decide_eq_true_iff, roundedUnits_neg_iff]
  · have hsame := hread hx
    rw [h, hread hy] at hsame
    exact (Option.some.inj hsame).symm
  · rw [display_eq_shownText hx, display_eq_shownText hy, roundedValue_inj.mp h]
  · intro herror
    have hfinite := display_eq_errorText_iff.mp herror
    rw [hx] at hfinite
    cases hfinite

/-- The double next to minus one thousand is rounded up to it, and the carry opens a group. The
other double lies halfway between two decimals of ten places and goes to the even one. -/
theorem display_canonical_rounded :
    let carried := Float.ofBits 0xC08F3FFFFFFFFFFF
    let tie := Float.ofBits 0xC093480080000000
    (carried.isFinite = true ∧ display carried = "-1,000".toList ∧ roundedValue carried = -1000) ∧
    (tie.isFinite = true ∧ display tie = "-1,234.0004882812".toList ∧
      roundedValue tie = -12340004882812 / 10 ^ 10) := by
  intro carried tie
  have hcarried : carried.isFinite = true ∧ display carried = "-1,000".toList := by
    decide +kernel
  have htie : tie.isFinite = true ∧ display tie = "-1,234.0004882812".toList := by
    decide +kernel
  have htexts : "-1,000".toList.filter (· != ',') = signText true ++ (⟨1000, 0⟩ : Decimal).text ∧
      "-1,234.0004882812".toList.filter (· != ',') =
        signText true ++ (⟨12340004882812, 10⟩ : Decimal).text := by
    decide +kernel
  obtain ⟨-, hwhole, -, -⟩ := display_canonical hcarried.1
  obtain ⟨-, hplaces, -, -⟩ := display_canonical htie.1
  rw [hcarried.2, htexts.1, readDecimal?_text] at hwhole
  rw [htie.2, htexts.2, readDecimal?_text] at hplaces
  refine ⟨⟨hcarried.1, hcarried.2, ?_⟩, htie.1, htie.2, ?_⟩
  · rw [← Option.some.inj hwhole]
    norm_num [signed, Decimal.value]
  · rw [← Option.some.inj hplaces]
    norm_num [signed, Decimal.value]

end PocketCalc.Number
