/-
PocketCalc.Proofs.Keypad.Numerals — numbers written on the keypad.

In a line that only keys have written every number has one point at most
(`WellNumbered`), with one exception: the sign key takes the parentheses
off `(-2.5)` whatever stands in front, and after `1.5` the two numbers run
into `1.52.5` (`JoinsPoints`, `not_wellNumbered_toggleSign`).

The property looks at the longest runs of digits and points, and a key
that cuts a run or lengthens one would have to argue about both. So the
line is read from the left instead, by a machine that knows where it
stands in a number (`Place`) and stops at a misplaced point. What it reads
to the end is `Tidy`; this goes on from any prefix, and every change of a
line but the exception keeps it (`Tidy.change`). No key writes a character
that the scan does not know, exception or not.

Main statement: `keypad_numerals`.
-/
import Mathlib.Data.List.Induction
import PocketCalc.Proofs.Keypad.Runs
import PocketCalc.Proofs.Number.Literal
import PocketCalc.Proofs.Number.Reentry
import PocketCalc.Proofs.Token.Faults

namespace PocketCalc

open Number

/-! ## 1. Where a line stands in a number -/

/-- Outside of every number, in one without a point, or in one with a point. -/
inductive Place where
  | outside | whole | fraction
deriving DecidableEq

namespace Place

/-- The place after a character. A point must follow digits without a point. -/
def next? (place : Place) (c : Char) : Option Place :=
  if c.isDigit then some (if place = fraction then fraction else whole)
  else if c = '.' then if place = whole then some fraction else none
  else some outside

/-- The place after a text. -/
def after? : Place → Text → Option Place
  | place, [] => some place
  | place, c :: rest => (place.next? c).bind (after? · rest)

theorem after?_append (place : Place) (front back : Text) :
    place.after? (front ++ back) = (place.after? front).bind (after? · back) := by
  induction front generalizing place with
  | nil => rfl
  | cons c front ih =>
    simp only [List.cons_append, after?, ih, Option.bind_assoc]

theorem next?_other {c : Char} (h : isNumeralChar c = false) (place : Place) :
    place.next? c = some outside := by
  simp only [isNumeralChar, Bool.or_eq_false_iff, decide_eq_false_iff_not] at h
  simp [next?, h.1, h.2]

/-- Only a point can be misplaced. -/
theorem exists_next? {c : Char} (h : c ≠ '.') (place : Place) :
    ∃ next, place.next? c = some next := by
  unfold next?
  rw [if_neg h]
  split
  · exact ⟨_, rfl⟩
  · exact ⟨_, rfl⟩

theorem exists_after? {text : Text} (h : '.' ∉ text) (place : Place) :
    ∃ next, place.after? text = some next := by
  induction text generalizing place with
  | nil => exact ⟨place, rfl⟩
  | cons c rest ih =>
    simp only [List.mem_cons, not_or] at h
    obtain ⟨next, hnext⟩ := exists_next? (Ne.symm h.1) place
    rw [after?, hnext]
    exact ih h.2 next

/-- Behind a character that belongs to no number the line is outside. -/
theorem eq_outside {front : Text} {place : Place} (h : outside.after? front = some place)
    (hlast : ∀ c ∈ front.getLast?, isNumeralChar c = false) : place = outside := by
  rcases List.eq_nil_or_concat' front with rfl | ⟨front, c, rfl⟩
  · exact (Option.some.inj h).symm
  · rw [after?_append] at h
    obtain ⟨middle, -, hc⟩ := Option.bind_eq_some_iff.mp h
    have hnext := next?_other (hlast c List.getLast?_concat) middle
    simp only [after?, hnext, Option.bind_some, Option.some.injEq] at hc
    exact hc.symm

/-- In a number with a point the point stands in the run of digits and points at the end. -/
theorem point_mem_of_fraction {front : Text} (h : outside.after? front = some fraction) :
    '.' ∈ front.reverse.takeWhile isNumeralChar := by
  induction front using List.reverseRecOn with
  | nil => cases h
  | append_singleton front c ih =>
    rw [after?_append] at h
    obtain ⟨middle, hmiddle, hc⟩ := Option.bind_eq_some_iff.mp h
    simp only [after?, Option.bind_eq_some_iff, Option.some.injEq, exists_eq_right] at hc
    rw [List.reverse_concat, List.takeWhile_cons]
    by_cases hpoint : c = '.'
    · subst hpoint
      simp [isNumeralChar]
    · by_cases hdigit : c.isDigit = true
      · have hfraction : middle = fraction := by
          by_cases hm : middle = fraction
          · exact hm
          · simp [next?, hdigit, hm] at hc
        rw [if_pos (Text.isNumeralChar_of_isDigit hdigit)]
        exact List.mem_cons_of_mem _ (ih (hfraction ▸ hmiddle))
      · simp [next?, hdigit, hpoint] at hc

/-- What is read in a number has one point at most, and none where one has been. -/
theorem count_of_after? {run : Text} {place next : Place}
    (hrun : ∀ c ∈ run, isNumeralChar c = true) (h : place.after? run = some next) :
    run.count '.' ≤ if place = fraction then 0 else 1 := by
  induction run generalizing place with
  | nil => simp
  | cons c rest ih =>
    obtain ⟨hc, hrest⟩ := List.forall_mem_cons.mp hrun
    obtain ⟨middle, hmiddle, hafter⟩ := Option.bind_eq_some_iff.mp h
    have hcount := ih hrest hafter
    by_cases hdigit : c.isDigit = true
    · have hne : c ≠ '.' := of_decide_eq_true (Decimal.ne_point_of_isDigit hdigit)
      rw [List.count_cons_of_ne hne]
      by_cases hfraction : place = fraction
      · subst hfraction
        obtain rfl : fraction = middle := by simpa [next?, hdigit] using hmiddle
        exact hcount
      · simp only [next?, hdigit, hfraction, if_true, if_false, Option.some.injEq] at hmiddle
        rw [if_neg hfraction]
        rwa [← hmiddle, if_neg (by decide)] at hcount
    · obtain rfl : c = '.' := by simpa [isNumeralChar, hdigit] using hc
      by_cases hwhole : place = whole
      · subst hwhole
        obtain rfl : fraction = middle := by simpa [next?] using hmiddle
        rw [List.count_cons_self, if_neg (by decide)]
        simpa using hcount
      · simp [next?, hwhole] at hmiddle

end Place

namespace Entry

open Place

/-! ## 2. Well-formed numbers -/

/-- Every longest run of digits and points in the line has a digit, and one point at
most. -/
def WellNumbered (entry : Text) : Prop :=
  ∀ front run back : Text, entry = front ++ run ++ back → run ≠ [] →
    (∀ c ∈ run, isNumeralChar c = true) →
    (∀ c ∈ front.getLast?, isNumeralChar c = false) →
    (∀ c ∈ back.head?, isNumeralChar c = false) →
    (∃ c ∈ run, c.isDigit = true) ∧ run.count '.' ≤ 1

/-- No point of the line is misplaced. -/
def Tidy (entry : Text) : Prop :=
  ∃ place, outside.after? entry = some place

variable {entry : Text}

theorem Tidy.wellNumbered (h : Tidy entry) : WellNumbered entry := by
  intro front run back hentry hne hrun hfront hback
  obtain ⟨place, hplace⟩ := h
  rw [hentry, after?_append, after?_append] at hplace
  obtain ⟨last, hbefore, -⟩ := Option.bind_eq_some_iff.mp hplace
  obtain ⟨first, hfirst, hlast⟩ := Option.bind_eq_some_iff.mp hbefore
  obtain rfl := eq_outside hfirst hfront
  refine ⟨?_, count_of_after? hrun hlast⟩
  obtain ⟨c, rest, rfl⟩ := List.exists_cons_of_ne_nil hne
  obtain ⟨next, hnext, -⟩ := Option.bind_eq_some_iff.mp hlast
  refine ⟨c, List.mem_cons_self, ?_⟩
  have hc := hrun c List.mem_cons_self
  by_cases hdigit : c.isDigit = true
  · exact hdigit
  · obtain rfl : c = '.' := by simpa [isNumeralChar, hdigit] using hc
    cases hnext

/-- A prefix of a tidy line is tidy. -/
theorem Tidy.of_append {front back : Text} (h : Tidy (front ++ back)) : Tidy front := by
  obtain ⟨place, hplace⟩ := h
  rw [after?_append] at hplace
  obtain ⟨first, hfirst, -⟩ := Option.bind_eq_some_iff.mp hplace
  exact ⟨first, hfirst⟩

/-- What has no point can be written behind a tidy line. -/
theorem Tidy.append {piece : Text} (h : Tidy entry) (hpiece : '.' ∉ piece) :
    Tidy (entry ++ piece) := by
  obtain ⟨place, hplace⟩ := h
  obtain ⟨next, hnext⟩ := exists_after? hpiece place
  exact ⟨next, by rw [after?_append, hplace, Option.bind_some, hnext]⟩

/-- A tidy text can be written behind a tidy line that does not end in a number. -/
theorem Tidy.append_tidy {piece : Text} (h : Tidy entry) (hpiece : Tidy piece)
    (hlast : ∀ c ∈ entry.getLast?, isNumeralChar c = false) : Tidy (entry ++ piece) := by
  obtain ⟨place, hplace⟩ := h
  obtain rfl := eq_outside hplace hlast
  obtain ⟨next, hnext⟩ := hpiece
  exact ⟨next, by rw [after?_append, hplace, Option.bind_some, hnext]⟩

/-- What follows a character that belongs to no number is tidy by itself. -/
theorem Tidy.of_front {front back : Text} (h : Tidy (front ++ back))
    (hlast : ∀ c ∈ front.getLast?, isNumeralChar c = false) : Tidy back := by
  obtain ⟨place, hplace⟩ := h
  rw [after?_append] at hplace
  obtain ⟨first, hfirst, hback⟩ := Option.bind_eq_some_iff.mp hplace
  obtain rfl := eq_outside hfirst hlast
  exact ⟨place, hback⟩

/-- The run of digits and points at the end belongs to the number at the end. -/
theorem mem_lastNumber {c : Char} (h : c ∈ entry.reverse.takeWhile isNumeralChar) :
    c ∈ lastNumber entry := by
  have hall : ∀ x ∈ entry.reverse.takeWhile isNumeralChar, isLastNumberChar x = true := by
    intro x hx
    have hnumeral := Token.mem_takeWhile hx
    rw [isNumeralChar] at hnumeral
    rw [isLastNumberChar, hnumeral, Bool.true_or]
  have hsplit : (entry.reverse.takeWhile isNumeralChar ++
      entry.reverse.dropWhile isNumeralChar).takeWhile isLastNumberChar = _ :=
    List.takeWhile_append_of_pos hall
  rw [List.takeWhile_append_dropWhile] at hsplit
  rw [lastNumber, List.mem_reverse, hsplit]
  exact List.mem_append_left _ h

/-- A point can be written behind a tidy line that ends in a number without one. -/
theorem Tidy.point {c : Char} (h : Tidy entry) (hlast : entry.getLast? = some c)
    (hdigit : c.isDigit = true) (hnumber : '.' ∉ lastNumber entry) : Tidy (entry ++ ['.']) := by
  obtain ⟨front, rfl⟩ := List.getLast?_eq_some_iff.mp hlast
  obtain ⟨place, hplace⟩ := h
  have hfraction : place ≠ fraction := by
    rintro rfl
    exact hnumber (mem_lastNumber (point_mem_of_fraction hplace))
  have houtside : place ≠ outside := by
    rintro rfl
    rw [after?_append] at hplace
    obtain ⟨middle, -, hc⟩ := Option.bind_eq_some_iff.mp hplace
    simp only [after?, next?, hdigit, if_true, Option.bind_some, Option.some.injEq] at hc
    split at hc
    · cases hc
    · cases hc
  have hwhole : place = whole := by
    cases place with
    | outside => exact absurd rfl houtside
    | whole => rfl
    | fraction => exact absurd rfl hfraction
  exact ⟨fraction, by rw [after?_append, hplace, hwhole]; rfl⟩

/-! ## 3. Numbers that run into each other -/

/-- A number with a point stands in parentheses behind a minus sign, and right in front of
them stands another number with a point. -/
def JoinsPoints (entry : Text) : Prop :=
  ∃ front number : Text, entry = front ++ ['(', '-'] ++ number ++ [')'] ∧
    (∀ c ∈ number, isLastNumberChar c = true) ∧
    '.' ∈ front.reverse.takeWhile isNumeralChar ∧ '.' ∈ number.takeWhile isNumeralChar

/-- The sign key joins the two into one with two points. -/
theorem not_wellNumbered_toggleSign (h : JoinsPoints entry) :
    ¬WellNumbered (toggleSign entry) := by
  obtain ⟨front, number, rfl, hnumber, hfront, hback⟩ := h
  have hne : number ≠ [] := by
    rintro rfl
    cases hback
  rw [toggleSign_negated hne hnumber]
  intro hwell
  have hsplit : front ++ number = (front.reverse.dropWhile isNumeralChar).reverse ++
      ((front.reverse.takeWhile isNumeralChar).reverse ++ number.takeWhile isNumeralChar) ++
      number.dropWhile isNumeralChar := by
    rw [← List.append_assoc, ← List.reverse_append, List.takeWhile_append_dropWhile,
      List.reverse_reverse, List.append_assoc, List.takeWhile_append_dropWhile]
  have hnil : (front.reverse.takeWhile isNumeralChar).reverse ++
      number.takeWhile isNumeralChar ≠ [] :=
    List.append_ne_nil_of_right_ne_nil _ (List.ne_nil_of_mem hback)
  have hrun : ∀ c ∈ (front.reverse.takeWhile isNumeralChar).reverse ++
      number.takeWhile isNumeralChar, isNumeralChar c = true := by
    intro c hc
    rcases List.mem_append.mp hc with hc | hc
    · exact Token.mem_takeWhile (List.mem_reverse.mp hc)
    · exact Token.mem_takeWhile hc
  have hstart : ∀ c ∈ (front.reverse.dropWhile isNumeralChar).reverse.getLast?,
      isNumeralChar c = false := by
    intro c hc
    rw [List.getLast?_reverse] at hc
    exact Token.not_of_mem_head?_dropWhile hc
  obtain ⟨-, hcount⟩ := hwell _ _ _ hsplit hnil hrun hstart
    (fun c hc => Token.not_of_mem_head?_dropWhile hc)
  rw [List.count_append, List.count_reverse] at hcount
  have hfirst := List.count_pos_iff.mpr hfront
  have hsecond := List.count_pos_iff.mpr hback
  omega

end Entry

namespace Place

/-- Until the first point or the end of a number, it does not matter where the reading
starts. -/
theorem exists_after?_elsewhere {text : Text} {place next : Place}
    (h : place.after? text = some next) (hpoint : '.' ∉ text.takeWhile isNumeralChar)
    (other : Place) : ∃ last, other.after? text = some last := by
  induction text generalizing place other with
  | nil => exact ⟨other, rfl⟩
  | cons c rest ih =>
    obtain ⟨middle, hmiddle, hrest⟩ := Option.bind_eq_some_iff.mp h
    cases hc : isNumeralChar c with
    | false =>
      rw [next?_other hc] at hmiddle
      obtain rfl := Option.some.inj hmiddle
      exact ⟨next, by rw [after?, next?_other hc, Option.bind_some, hrest]⟩
    | true =>
      rw [List.takeWhile_cons_of_pos hc, List.mem_cons, not_or] at hpoint
      obtain ⟨moved, hmoved⟩ := exists_next? (Ne.symm hpoint.1) other
      rw [after?, hmoved]
      exact ih hrest hpoint.2 moved

/-- A number may go on with the digits of another one, and with its point if it has none
itself. -/
theorem exists_after?_of_tidy {text : Text} (h : Entry.Tidy text) (place : Place)
    (hpoint : place = fraction → '.' ∉ text.takeWhile isNumeralChar) :
    ∃ next, place.after? text = some next := by
  obtain ⟨next, hnext⟩ := h
  cases place with
  | outside => exact ⟨next, hnext⟩
  | fraction => exact exists_after?_elsewhere hnext (hpoint rfl) fraction
  | whole =>
    cases text with
    | nil => exact ⟨whole, rfl⟩
    | cons c rest =>
      obtain ⟨middle, hmiddle, hrest⟩ := Option.bind_eq_some_iff.mp hnext
      have hsame : whole.next? c = some middle := by
        by_cases hdigit : c.isDigit = true
        · simpa [next?, hdigit] using hmiddle
        · by_cases hc : c = '.'
          · subst hc
            cases hmiddle
          · simpa [next?, hdigit, hc] using hmiddle
      exact ⟨next, by rw [after?, hsame, Option.bind_some, hrest]⟩

end Place

namespace Entry

open Place

variable {entry : Text}

/-- A number that gets out of its parentheses does not spoil the one in front of them,
unless both have a point. -/
theorem Tidy.unwrap {front number : Text}
    (h : Tidy (front ++ ['(', '-'] ++ number ++ [')']))
    (hnumber : ∀ c ∈ number, isLastNumberChar c = true)
    (hjoins : ¬JoinsPoints (front ++ ['(', '-'] ++ number ++ [')'])) : Tidy (front ++ number) := by
  have hopen : Tidy (front ++ ['(', '-'] ++ number) := h.of_append
  have htidy : Tidy number := hopen.of_front (by simp [isNumeralChar])
  obtain ⟨place, hplace⟩ := hopen.of_append.of_append
  obtain ⟨next, hnext⟩ := exists_after?_of_tidy htidy place (by
    rintro rfl hpoint
    exact hjoins ⟨front, number, rfl, hnumber, point_mem_of_fraction hplace, hpoint⟩)
  exact ⟨next, by rw [after?_append, hplace, Option.bind_some, hnext]⟩

/-! ## 4. Every key -/

theorem point_not_mem_digitText (d : Fin 10) : '.' ∉ Key.digitText d :=
  not_mem_of_digits (isDigit_digitText d) (by decide)

theorem point_not_mem_piece {key : Key} (hkey : key.isPlain = true) : '.' ∉ key.piece := by
  cases key with
  | call f => cases f <;> decide
  | pi | euler | square | cube | powerOfTwo | openParen | closeParen => decide
  | _ => cases hkey

theorem point_not_mem_parenPiece (entry : Text) : '.' ∉ parenPiece entry := by
  unfold parenPiece
  split
  · decide
  · split
    · decide
    · split <;> decide

/-- Every key keeps a line tidy, unless it is the sign key on two numbers that it joins. -/
theorem Tidy.change {key : Key} {next : Text} (h : Tidy entry)
    (hsign : key = .sign → ¬JoinsPoints entry) (hchange : Change entry key next) : Tidy next := by
  -- the number at the end, which stands behind what belongs to no number
  have hbefore : Tidy (beforeLastNumber entry) := by
    rw [← beforeLastNumber_append entry] at h
    exact h.of_append
  have hnumber : Tidy (lastNumber entry) := by
    rw [← beforeLastNumber_append entry] at h
    refine h.of_front ?_
    intro c hc
    have hlast := not_isLastNumberChar_of_getLast? hc
    simp only [isLastNumberChar, Bool.or_eq_false_iff] at hlast
    rw [isNumeralChar, hlast.1.1, hlast.1.2, Bool.or_false]
  cases hchange with
  | refused => exact h
  | plain hkey => exact h.append (point_not_mem_piece hkey)
  | digit d => exact h.append (point_not_mem_digitText d)
  | zero d hentry hfront =>
    rw [hentry] at h
    exact h.of_append.append (point_not_mem_digitText d)
  | point hlast hc hnone => exact h.point hlast hc hnone
  | newNumber hnone =>
    obtain ⟨place, hplace⟩ := h
    have hfraction : place ≠ fraction := by
      rintro rfl
      have hmem := mem_lastNumber (point_mem_of_fraction hplace)
      rw [hnone] at hmem
      cases hmem
    refine ⟨fraction, ?_⟩
    rw [after?_append, hplace]
    simp [after?, next?, hfraction]
  | percent hvalue => exact h.append (by decide)
  | factorial hvalue => exact h.append (by decide)
  | operator hkey hmem hopen hlast => exact h.append (not_mem_operator hmem (by decide))
  | replaced hkey hmem hentry hlast hguard =>
    rw [hentry] at h
    exact h.of_append.append (not_mem_operator hmem (by decide))
  | parens => exact h.append (point_not_mem_parenPiece entry)
  | minus hentry => exact ⟨outside, rfl⟩
  | negate hne =>
    refine Tidy.append (Tidy.append_tidy (hbefore.append (by decide)) hnumber ?_) (by decide)
    simp [isNumeralChar]
  | unwrap hentry hne hchars =>
    subst hentry
    exact h.unwrap hchars (hsign rfl)
  | invert hne =>
    refine Tidy.append (Tidy.append_tidy (hbefore.append (by decide)) hnumber ?_) (by decide)
    simp [isNumeralChar]
  | erasePiece hentry hspaces hpiece hlongest =>
    rw [hentry] at h
    exact h.of_append.of_append
  | @eraseChar trimmed spaces hentry hspaces hnone =>
    rw [hentry] at h
    have htrimmed := h.of_append
    obtain ⟨last, hlast⟩ := List.dropLast_prefix trimmed
    rw [← hlast] at htrimmed
    exact htrimmed.of_append

end Entry

/-! ## 5. What is read of a well-formed number -/

/-- A line of well-formed numbers has no bad one. -/
theorem Entry.WellNumbered.tokenize_ne_badNumber {entry : Text} (h : WellNumbered entry)
    (hspace : ' ' ∉ entry) (numeral : Text) :
    Token.tokenize entry ≠ .error (.badNumber numeral) := by
  intro herror
  rw [Token.tokenize, Token.squeeze_of_no_space hspace] at herror
  obtain ⟨front, c, rest, hentry, hfails, hfront⟩ := Token.scan_error herror
  cases hfails with
  | number hc hnumeral =>
    have hrun : ∀ x ∈ c :: rest.takeWhile isNumeralChar, isNumeralChar x = true :=
      List.forall_mem_cons.mpr ⟨hc, fun _ => Token.mem_takeWhile⟩
    have hsplit : entry = front ++ (c :: rest.takeWhile isNumeralChar) ++
        rest.dropWhile isNumeralChar := by
      rw [hentry, List.append_assoc, List.cons_append, List.takeWhile_append_dropWhile]
    obtain ⟨hdigit, hcount⟩ := h front _ _ hsplit (by simp) hrun (hfront hc)
      (fun x hx => Token.not_of_mem_head?_dropWhile hx)
    obtain ⟨d, hd⟩ := Decimal.exists_literal hrun hdigit hcount
    rw [hd.ofText?] at hnumeral
    cases hnumeral

/-! ## 6. Lines written on the keypad -/

namespace Calculator

open Entry

variable {state : Calculator} {events : List Event}

/-- The text put back for a result is tidy. -/
theorem tidy_reentry {value : Float} (h : value.isFinite = true) : Tidy (reentry value) := by
  obtain ⟨negative, whole, places, hreentry, hplaces⟩ := exists_digits_reentry h
  have hdigits : ∀ c ∈ digitsOf whole, c.isDigit = true := fun c hc => isDigit_of_mem_digitsOf hc
  have hsign : '.' ∉ signText negative := by cases negative <;> decide
  have hfront : '.' ∉ signText negative ++ digitsOf whole := by
    simp [hsign, not_mem_of_digits hdigits (show '.'.isDigit = false by decide)]
  have hwhole : Tidy (signText negative ++ digitsOf whole) := Place.exists_after? hfront _
  rw [hreentry]
  rcases hplaces with rfl | ⟨digits, -, hplaces, rfl⟩
  · rwa [List.append_nil]
  · obtain ⟨last, hlast⟩ : ∃ last, (digitsOf whole).getLast? = some last :=
      ⟨_, List.getLast?_eq_some_getLast (digitsOf_ne_nil whole)⟩
    have hend : (signText negative ++ digitsOf whole).getLast? = some last := by
      rw [List.getLast?_append, hlast, Option.some_or]
    have hnone : '.' ∉ lastNumber (signText negative ++ digitsOf whole) := by
      intro hmem
      refine hfront ?_
      rw [← beforeLastNumber_append (signText negative ++ digitsOf whole)]
      exact List.mem_append_right _ hmem
    have hpoint := hwhole.point hend (hdigits last (List.mem_of_getLast? hlast)) hnone
    have hall := hpoint.append (not_mem_of_digits hplaces (by decide))
    rwa [List.append_assoc, List.singleton_append] at hall

/-- The keypad keeps lines tidy while the sign key joins no numbers. -/
theorem kept_tidy : Kept JoinsPoints Tidy where
  empty := ⟨.outside, rfl⟩
  result := tidy_reentry
  called f h := by
    refine Tidy.append_tidy ⟨.outside, ?_⟩ h (by simp [isNumeralChar])
    cases f <;> rfl
  changed h hsign hchange := h.change hsign hchange

/-! ## 7. Characters written on the keypad -/

/-- Whether all characters of a text can be part of a lexeme. -/
def AllAccepted (text : Text) : Prop :=
  ∀ c ∈ text, Token.isAccepted c = true

@[simp] theorem allAccepted_nil : AllAccepted [] :=
  List.forall_mem_nil _

@[simp] theorem allAccepted_cons {c : Char} {rest : Text} :
    AllAccepted (c :: rest) ↔ Token.isAccepted c = true ∧ AllAccepted rest :=
  List.forall_mem_cons

@[simp] theorem allAccepted_append {front back : Text} :
    AllAccepted (front ++ back) ↔ AllAccepted front ∧ AllAccepted back :=
  List.forall_mem_append

/-- The marks that keys write can be read. -/
theorem isAccepted_of_mem {c : Char}
    (h : c ∈
      ['0', '1', '2', '3', '.', '%', '!', '+', '-', '*', '/', '^', '(', ')', 'e', 'i', 'p']) :
    Token.isAccepted c = true := by
  have hall : (['0', '1', '2', '3', '.', '%', '!', '+', '-', '*', '/', '^', '(', ')', 'e', 'i', 'p']
      : Text).all Token.isAccepted = true := by
    decide +kernel
  exact List.all_eq_true.mp hall c h

theorem allAccepted_of_digits {digits : Text} (h : ∀ c ∈ digits, c.isDigit = true) :
    AllAccepted digits := by
  intro c hc
  simp [Token.isAccepted, Text.isNumeralChar_of_isDigit (h c hc)]

theorem allAccepted_digitText (d : Fin 10) : AllAccepted (Key.digitText d) :=
  allAccepted_of_digits (isDigit_digitText d)

theorem allAccepted_call (f : MathFunction) : AllAccepted (f.name ++ ['(']) := by
  have hnames : ∀ f ∈ MathFunction.all, (f.name ++ ['(']).all Token.isAccepted = true := by
    decide +kernel
  exact List.all_eq_true.mp (hnames f f.mem_all)

theorem allAccepted_piece {key : Key} (hkey : key.isPlain = true) : AllAccepted key.piece := by
  cases key with
  | call f => exact allAccepted_call f
  | pi | euler | square | cube | powerOfTwo | openParen | closeParen =>
    simp [Key.piece, isAccepted_of_mem]
  | _ => cases hkey

theorem allAccepted_operator {sign : Char} (hsign : sign ∈ operatorSigns) :
    AllAccepted [sign] := by
  simp only [operatorSigns, List.mem_cons, List.not_mem_nil, or_false] at hsign
  rcases hsign with rfl | rfl | rfl | rfl | rfl <;> simp [isAccepted_of_mem]

theorem allAccepted_parenPiece (entry : Text) : AllAccepted (parenPiece entry) := by
  unfold parenPiece
  repeat' split
  all_goals simp [isAccepted_of_mem]

/-- The text put back for a result can be read. -/
theorem allAccepted_reentry {value : Float} (h : value.isFinite = true) :
    AllAccepted (reentry value) := by
  intro c hc
  rcases mem_reentry h hc with rfl | hnumeral
  · exact isAccepted_of_mem (by decide)
  · simp [Token.isAccepted, hnumeral]

/-- Every key writes only what can be part of a lexeme. -/
theorem AllAccepted.change {entry next : Text} {key : Key} (h : AllAccepted entry)
    (hchange : Change entry key next) : AllAccepted next := by
  have hparts : AllAccepted (beforeLastNumber entry) ∧ AllAccepted (lastNumber entry) := by
    rwa [← allAccepted_append, beforeLastNumber_append]
  cases hchange with
  | refused => exact h
  | plain hkey => simp [h, allAccepted_piece hkey]
  | digit d => simp [h, allAccepted_digitText]
  | zero d hentry hfront =>
    rw [hentry, allAccepted_append] at h
    simp [h.1, allAccepted_digitText]
  | point hlast hc hnone => simp [h, isAccepted_of_mem]
  | newNumber hnone => simp [h, isAccepted_of_mem]
  | percent hvalue => simp [h, isAccepted_of_mem]
  | factorial hvalue => simp [h, isAccepted_of_mem]
  | operator hkey hmem hopen hlast => exact allAccepted_append.mpr ⟨h, allAccepted_operator hmem⟩
  | replaced hkey hmem hentry hlast hguard =>
    rw [hentry, allAccepted_append] at h
    exact allAccepted_append.mpr ⟨h.1, allAccepted_operator hmem⟩
  | parens => exact allAccepted_append.mpr ⟨h, allAccepted_parenPiece entry⟩
  | minus hentry => simp [isAccepted_of_mem]
  | negate hne => simp [hparts, isAccepted_of_mem]
  | unwrap hentry hne hchars =>
    simp only [hentry, allAccepted_append] at h ⊢
    exact ⟨h.1.1.1, h.1.2⟩
  | invert hne => simp [hparts, isAccepted_of_mem]
  | erasePiece hentry hspaces hpiece hlongest =>
    simp only [hentry, allAccepted_append] at h
    exact h.1.1
  | eraseChar hentry hspaces hnone =>
    rw [hentry, allAccepted_append] at h
    exact fun c hc => h.1 c ((List.dropLast_prefix _).subset hc)

/-- The keypad writes nothing that cannot be read. -/
theorem kept_allAccepted : Kept (fun _ => False) AllAccepted where
  empty := allAccepted_nil
  result := allAccepted_reentry
  called f h := allAccepted_append.mpr ⟨allAccepted_call f, h⟩
  changed h _ hchange := h.change hchange

/-! ## 8. Runs -/

/-- A line written on the keypad has no character that cannot be read. Its numbers have a
digit and one point at most, and can be read, as long as the sign key is never pressed where
it joins two numbers that both have a point; pressed there, it makes a number that has two. -/
theorem keypad_numerals (hkeys : ∀ event ∈ events, event.isTyping = false)
    (hrun : run? events {} = some state) :
    (∀ c ∈ state.entry, Token.isAccepted c = true) ∧
    (∀ c, Token.tokenize state.entry ≠ .error (.unexpectedChar c)) ∧
    (SignSpares JoinsPoints events {} →
      WellNumbered state.entry ∧
        ∀ numeral, Token.tokenize state.entry ≠ .error (.badNumber numeral)) ∧
    (JoinsPoints state.entry → ¬WellNumbered (state.press .sign).entry) := by
  have haccepted : AllAccepted state.entry :=
    kept_allAccepted.run kept_allAccepted.empty hkeys (signSpares_false events {}) hrun
  refine ⟨haccepted, Token.tokenize_ne_unexpectedChar haccepted, ?_, ?_⟩
  · intro hspares
    have htidy : Tidy state.entry := kept_tidy.run kept_tidy.empty hkeys hspares hrun
    have hspace := Token.space_not_mem_of_accepted haccepted
    exact ⟨htidy.wellNumbered, htidy.wellNumbered.tokenize_ne_badNumber hspace⟩
  · intro hjoins
    rw [press_sign]
    exact not_wellNumbered_toggleSign hjoins

/-- Negates 1.5 and takes it back. -/
def negatedTwice : List Key :=
  [.digit 1, .point, .digit 5, .sign, .sign]

/-- A line with one point has no two numbers to join. -/
theorem not_joinsPoints {entry : Text} (h : entry.count '.' ≤ 1) : ¬JoinsPoints entry := by
  rintro ⟨front, number, rfl, -, hfront, hback⟩
  have hfirst : 0 < front.count '.' := by
    rw [← List.count_reverse]
    exact List.count_pos_iff.mpr ((List.takeWhile_prefix _).subset hfront)
  have hsecond : 0 < number.count '.' :=
    List.count_pos_iff.mpr ((List.takeWhile_prefix _).subset hback)
  simp only [List.count_append] at h
  omega

theorem keypad_numerals_negatedTwice :
    (pressAll negatedTwice {}).entry = "1.5".toList ∧
      WellNumbered (pressAll negatedTwice {}).entry ∧
      ∀ numeral, Token.tokenize (pressAll negatedTwice {}).entry ≠ .error (.badNumber numeral) := by
  have hspares : SignSpares JoinsPoints (negatedTwice.map .press) {} := by
    simp only [negatedTwice, List.map_cons, List.map_nil, signSpares_press]
    refine ⟨by simp, by simp, by simp, ?_, ?_, signSpares_nil _ _⟩
    · exact fun _ => not_joinsPoints (by decide +kernel)
    · exact fun _ => not_joinsPoints (by decide +kernel)
  obtain ⟨-, -, hwell, -⟩ :=
    keypad_numerals (isTyping_press negatedTwice) (run?_press negatedTwice {})
  exact ⟨by decide +kernel, hwell hspares⟩

/-- The sign key joins 1.5 and 2.5. -/
def joined : List Key :=
  [.digit 1, .point, .digit 5, .openParen, .minus, .digit 2, .point, .digit 5, .closeParen, .sign]

/-- A number with two points, written on the keypad. -/
theorem keypad_two_points :
    run? (joined.map .press) {} = some (pressAll joined {}) ∧
      (∀ event ∈ joined.map Event.press, event.isTyping = false) ∧
      ¬WellNumbered (pressAll joined {}).entry ∧
      Token.tokenize (pressAll joined {}).entry = .error (.badNumber "1.52.5".toList) := by
  have hentry : (pressAll joined {}).entry = "1.52.5".toList := by decide +kernel
  refine ⟨run?_press joined {}, isTyping_press joined, ?_, ?_⟩
  · rw [hentry]
    intro hwell
    have hrun : ∀ c ∈ "1.52.5".toList, isNumeralChar c = true := List.all_eq_true.mp (by decide)
    obtain ⟨-, hcount⟩ := hwell [] "1.52.5".toList [] rfl (by decide) hrun (by simp) (by simp)
    exact absurd hcount (by decide)
  · rw [hentry]
    show Token.scan ('1' :: ".52.5".toList) = _
    exact Token.scan_cons_of_error rfl

end Calculator

end PocketCalc
