/-
PocketCalc.Proofs.Keypad.Typing — a number typed key by key.

Where an operand is due, digits and points make one number and leave what
stands in front alone. Each key looks at the end of the line only: a digit
at the last two characters, a point at the number at the end. What they
make of the number is `extend`, and `numeral` says in one go what becomes
of a whole sequence: the points after the first are dropped, a point in
front gets a zero, and zeros that count for nothing go. The two agree key
by key (`numeral_concat`), and that is the induction.

Main statement: `insertEach_numeral`.
-/
import Mathlib.Data.List.Induction
import Mathlib.Data.List.TakeWhile
import PocketCalc.Proofs.Keypad.Operators
import PocketCalc.Proofs.Number.Literal

namespace PocketCalc

namespace Entry

open Number

variable {base number keys digits rest : Text} {c : Char}

/-! ## 1. One key -/

/-- The line after some keys that write one character each. -/
def insertEach (keys entry : Text) : Text :=
  keys.foldl (fun entry c => insert [c] entry) entry

/-- The number at the end of the line after one more digit or point. -/
def extend (number : Text) (key : Char) : Text :=
  if key = '.' then
    if '.' ∈ number then number else if number = [] then ['0', '.'] else number ++ ['.']
  else if number = ['0'] then [key]
  else number ++ [key]

/-- A number behind a base that ends in none is a zero by itself when it is nothing else. -/
theorem endsWithLoneZero_append (hbase : ∀ c ∈ base.getLast?, isLastNumberChar c = false)
    (hnumber : ∀ c ∈ number, isNumeralChar c = true) :
    endsWithLoneZero (base ++ number) = decide (number = ['0']) := by
  have hother : ∀ c ∈ base.getLast?, isNumeralChar c = false := by
    intro c hc
    have hlast := hbase c hc
    simp only [isLastNumberChar, Bool.or_eq_false_iff] at hlast
    simp [isNumeralChar, hlast]
  rcases List.eq_nil_or_concat' number with rfl | ⟨front, last, rfl⟩
  · rcases List.eq_nil_or_concat' base with rfl | ⟨before, c, rfl⟩
    · rfl
    · have hc := hother c List.getLast?_concat
      have hzero : c ≠ '0' := by
        rintro rfl
        cases hc
      rw [List.append_nil, endsWithLoneZero_concat]
      simp [hzero]
  · rw [← List.append_assoc, endsWithLoneZero_concat]
    rcases List.eq_nil_or_concat' front with rfl | ⟨before, c, rfl⟩
    · have hnone : base.getLast?.any isNumeralChar = false := by
        cases hlast : base.getLast? with
        | none => rfl
        | some c => exact hother c hlast
      simp [hnone]
    · have hlonger : before ++ [c, last] ≠ ['0'] := by cases before <;> simp
      simp [hnumber c (by simp), hlonger]

theorem lastNumber_append_numeral (hbase : ∀ c ∈ base.getLast?, isLastNumberChar c = false)
    (hnumber : ∀ c ∈ number, isNumeralChar c = true) : lastNumber (base ++ number) = number := by
  refine (lastNumber_append ?_ hbase).1
  intro c hc
  have hnumeral := hnumber c hc
  rw [isNumeralChar] at hnumeral
  rw [isLastNumberChar, hnumeral, Bool.true_or]

/-- Where an operand is due the line ends in no number. -/
theorem not_isLastNumberChar_of_operandDue (h : operandDue base = true) :
    ∀ c ∈ base.getLast?, isLastNumberChar c = false := by
  intro c hc
  rw [Option.mem_def] at hc
  simp only [operandDue, hc, Option.all_some, Bool.or_eq_true, decide_eq_true_eq] at h
  rcases h with rfl | hoperator
  · rfl
  · simp only [operatorSigns, List.mem_cons, List.not_mem_nil, or_false] at hoperator
    rcases hoperator with rfl | rfl | rfl | rfl | rfl <;> rfl

/-- A digit behind digits and points. -/
theorem insert_digit (hbase : ∀ c ∈ base.getLast?, isLastNumberChar c = false)
    (hnumber : ∀ c ∈ number, isNumeralChar c = true) (hc : c.isDigit = true) :
    insert [c] (base ++ number) = base ++ extend number c := by
  have hpoint : c ≠ '.' := of_decide_eq_true (Decimal.ne_point_of_isDigit hc)
  simp only [insert, insertion, hc, if_true, insertDigit, lastNumber_append_numeral hbase hnumber,
    endsWithLoneZero_append hbase hnumber, extend, hpoint, if_false]
  by_cases hlone : number = ['0']
  · subst hlone
    by_cases hzero : c = '0' <;> simp [hzero]
  · simp [hlone]

/-- A point behind digits and points. -/
theorem insert_point (hbase : operandDue base = true)
    (hnumber : ∀ c ∈ number, isNumeralChar c = true) :
    insert ['.'] (base ++ number) = base ++ extend number '.' := by
  have hpiece : insertion ['.'] (base ++ number) = insertPoint (base ++ number) := rfl
  have hlast := lastNumber_append_numeral (not_isLastNumberChar_of_operandDue hbase) hnumber
  have hpointed : (number.any fun c => c = '.' || c = '%') = decide ('.' ∈ number) := by
    rw [Bool.eq_iff_iff]
    simp only [List.any_eq_true, Bool.or_eq_true, decide_eq_true_eq]
    constructor
    · intro h
      obtain ⟨c, hc, rfl | rfl⟩ := h
      · exact hc
      · exact absurd (hnumber _ hc) (by decide)
    · intro h
      exact ⟨'.', h, Or.inl rfl⟩
  rw [insert, hpiece, insertPoint, hlast, hpointed, extend, if_pos rfl]
  by_cases hpoint : '.' ∈ number
  · simp [hpoint]
  · rcases List.eq_nil_or_concat' number with rfl | ⟨front, last, rfl⟩
    · -- what an operand is due behind is neither a digit nor a closing parenthesis
      rcases List.eq_nil_or_concat' base with rfl | ⟨before, c, rfl⟩
      · rfl
      · have hc : c ≠ ')' ∧ c.isDigit = false := by
          simp only [operandDue, List.getLast?_concat, Option.all_some, Bool.or_eq_true,
            decide_eq_true_eq, operatorSigns, List.mem_cons, List.not_mem_nil, or_false] at hbase
          rcases hbase with rfl | rfl | rfl | rfl | rfl | rfl <;> decide
        simp [hc]
    · have hne : last ≠ '.' := by
        rintro rfl
        exact hpoint (by simp)
      have hdigit : last.isDigit = true := by
        simpa [isNumeralChar, hne] using hnumber last (by simp)
      have hclose : last ≠ ')' := by
        rintro rfl
        cases hdigit
      rw [← List.append_assoc, List.getLast?_concat]
      simp [hpoint, hdigit]

/-- A digit or a point behind the number changes the number alone. -/
theorem insert_extend (hbase : operandDue base = true)
    (hnumber : ∀ c ∈ number, isNumeralChar c = true) (hc : isNumeralChar c = true) :
    insert [c] (base ++ number) = base ++ extend number c := by
  by_cases hpoint : c = '.'
  · subst hpoint
    exact insert_point hbase hnumber
  · have hdigit : c.isDigit = true := by simpa [isNumeralChar, hpoint] using hc
    exact insert_digit (not_isLastNumberChar_of_operandDue hbase) hnumber hdigit

/-! ## 2. A sequence of keys -/

/-- The sequence without the points behind the first. -/
def keepFirstPoint : Text → Text
  | [] => []
  | c :: rest => if c = '.' then '.' :: rest.filter (· ≠ '.') else c :: keepFirstPoint rest

/-- The sequence with a zero in front of a point that it starts with. -/
def zeroBeforePoint : Text → Text
  | '.' :: rest => '0' :: '.' :: rest
  | text => text

/-- The sequence without the zeros that it starts with, as long as a digit follows. -/
def trimZeros : Text → Text
  | [] => []
  | c :: rest => if c = '0' ∧ rest.head?.any Char.isDigit then trimZeros rest else c :: rest

/-- The number that a sequence of digits and points makes. -/
def numeral (keys : Text) : Text :=
  trimZeros (zeroBeforePoint (keepFirstPoint keys))

theorem mem_keepFirstPoint_iff : '.' ∈ keepFirstPoint keys ↔ '.' ∈ keys := by
  induction keys with
  | nil => rfl
  | cons c keys ih =>
    rw [keepFirstPoint]
    split
    · rename_i hc
      simp [hc]
    · simp [ih]

theorem keepFirstPoint_concat (keys : Text) (c : Char) :
    keepFirstPoint (keys ++ [c]) =
      if c = '.' ∧ '.' ∈ keys then keepFirstPoint keys else keepFirstPoint keys ++ [c] := by
  induction keys with
  | nil => by_cases hc : c = '.' <;> simp [keepFirstPoint, hc]
  | cons first keys ih =>
    by_cases hfirst : first = '.'
    · by_cases hc : c = '.' <;> simp [keepFirstPoint, hfirst, hc]
    · have hmem : '.' ∈ first :: keys ↔ '.' ∈ keys := by simp [Ne.symm hfirst]
      simp only [List.cons_append, keepFirstPoint, hfirst, if_false, ih, hmem]
      split <;> rfl

theorem zeroBeforePoint_concat (h : keys ≠ [] ∨ c ≠ '.') :
    zeroBeforePoint (keys ++ [c]) = zeroBeforePoint keys ++ [c] := by
  cases keys with
  | nil =>
    have hc : c ≠ '.' := by simpa using h
    simp [zeroBeforePoint, hc]
  | cons first rest => by_cases hfirst : first = '.' <;> simp [zeroBeforePoint, hfirst]

/-- The zeros in front of a text are trimmed without looking behind it, unless there is nothing
to it but a zero. -/
theorem trimZeros_append (hne : digits ≠ []) (tail : Text) :
    trimZeros (digits ++ tail) =
      if trimZeros digits = ['0'] ∧ tail.head?.any Char.isDigit then trimZeros tail
      else trimZeros digits ++ tail := by
  fun_induction trimZeros digits with
  | case1 => exact absurd rfl hne
  | case2 c rest htrim ih =>
    cases rest with
    | nil => simp at htrim
    | cons next more =>
      have hmore := ih (by simp)
      rw [List.cons_append, trimZeros, if_pos (by simpa using htrim)]
      exact hmore
  | case3 c rest htrim =>
    cases rest with
    | nil => simp [trimZeros]
    | cons next more =>
      rw [List.cons_append, trimZeros, if_neg (by simpa using htrim), if_neg (by simp)]

theorem trimZeros_suffix (text : Text) : trimZeros text <:+ text := by
  fun_induction trimZeros text with
  | case1 => exact List.suffix_rfl
  | case2 c rest htrim ih => exact ih.trans (List.suffix_cons _ _)
  | case3 c rest htrim => exact List.suffix_rfl

theorem trimZeros_ne_nil (hne : keys ≠ []) : trimZeros keys ≠ [] := by
  fun_induction trimZeros keys with
  | case1 => exact hne
  | case2 c rest htrim ih =>
    refine ih ?_
    intro hrest
    simp [hrest] at htrim
  | case3 c rest htrim => simp

/-- Only zeros are taken off. -/
theorem point_mem_trimZeros_iff : '.' ∈ trimZeros keys ↔ '.' ∈ keys := by
  fun_induction trimZeros keys with
  | case1 => rfl
  | case2 c rest htrim ih => simp [ih, htrim.1]
  | case3 c rest htrim => rfl

theorem point_mem_zeroBeforePoint_iff : '.' ∈ zeroBeforePoint keys ↔ '.' ∈ keys := by
  unfold zeroBeforePoint
  split <;> simp

theorem point_mem_numeral_iff : '.' ∈ numeral keys ↔ '.' ∈ keys := by
  rw [numeral, point_mem_trimZeros_iff, point_mem_zeroBeforePoint_iff, mem_keepFirstPoint_iff]

theorem keepFirstPoint_ne_nil (hne : keys ≠ []) : keepFirstPoint keys ≠ [] := by
  obtain ⟨first, rest, rfl⟩ := List.exists_cons_of_ne_nil hne
  by_cases hfirst : first = '.' <;> simp [keepFirstPoint, hfirst]

theorem zeroBeforePoint_ne_nil (hne : keys ≠ []) : zeroBeforePoint keys ≠ [] := by
  unfold zeroBeforePoint
  split
  · simp
  · exact hne

theorem numeral_eq_nil_iff : numeral keys = [] ↔ keys = [] := by
  constructor
  · intro h
    refine Classical.byContradiction fun hne => ?_
    exact trimZeros_ne_nil (zeroBeforePoint_ne_nil (keepFirstPoint_ne_nil hne)) h
  · intro h
    rw [h]
    rfl

/-- One more key extends the number. -/
theorem numeral_concat (keys : Text) (hc : isNumeralChar c = true) :
    numeral (keys ++ [c]) = extend (numeral keys) c := by
  by_cases hpoint : c = '.'
  · subst hpoint
    rw [numeral, keepFirstPoint_concat, extend, if_pos rfl]
    simp only [true_and, point_mem_numeral_iff, numeral_eq_nil_iff]
    by_cases hmem : '.' ∈ keys
    · rw [if_pos hmem, if_pos hmem]
      rfl
    · by_cases hnil : keys = []
      · rw [hnil]
        rfl
      · have hkept := keepFirstPoint_ne_nil hnil
        rw [if_neg hmem, if_neg hmem, if_neg hnil, zeroBeforePoint_concat (Or.inl hkept),
          trimZeros_append (zeroBeforePoint_ne_nil hkept), if_neg (by simp)]
        rfl
  · have hdigit : c.isDigit = true := by simpa [isNumeralChar, hpoint] using hc
    rw [numeral, keepFirstPoint_concat, if_neg (by simp [hpoint]),
      zeroBeforePoint_concat (Or.inr hpoint), extend, if_neg hpoint]
    by_cases hnil : keys = []
    · subst hnil
      simp [keepFirstPoint, zeroBeforePoint, numeral, trimZeros]
    · rw [trimZeros_append (zeroBeforePoint_ne_nil (keepFirstPoint_ne_nil hnil)), ← numeral]
      by_cases hlone : numeral keys = ['0'] <;> simp [hlone, hdigit, trimZeros]

theorem isNumeralChar_of_mem_extend (hnumber : ∀ c ∈ number, isNumeralChar c = true)
    {key : Char} (hkey : isNumeralChar key = true) :
    ∀ c ∈ extend number key, isNumeralChar c = true := by
  have happend : ∀ c ∈ number ++ [key], isNumeralChar c = true := by
    simpa [or_imp, forall_and] using ⟨hnumber, hkey⟩
  unfold extend
  split
  · rename_i hpoint
    subst hpoint
    split
    · exact hnumber
    · split
      · simp [isNumeralChar]
      · exact happend
  · split
    · simpa using hkey
    · exact happend

/-- The keys of a sequence make its number behind what stands there. -/
theorem insertEach_append (hbase : operandDue base = true)
    (hkeys : ∀ c ∈ keys, isNumeralChar c = true) :
    insertEach keys base = base ++ numeral keys ∧ ∀ c ∈ numeral keys, isNumeralChar c = true := by
  induction keys using List.reverseRecOn with
  | nil => simp [insertEach, numeral, keepFirstPoint, zeroBeforePoint, trimZeros]
  | append_singleton keys key ih =>
    obtain ⟨hothers, hkey⟩ := List.forall_mem_append.mp hkeys
    have hkey := List.forall_mem_singleton.mp hkey
    obtain ⟨hline, hnumber⟩ := ih hothers
    have hlast : insertEach (keys ++ [key]) base = insert [key] (insertEach keys base) := by
      simp [insertEach]
    rw [hlast, hline, insert_extend hbase hnumber hkey, numeral_concat keys hkey]
    exact ⟨rfl, isNumeralChar_of_mem_extend hnumber hkey⟩

/-! ## 3. The number -/

/-- Digits without a needless zero in front, and perhaps a point and more digits. -/
def IsCanonical (number : Text) : Prop :=
  ∃ whole places : Text, number = whole ++ places ∧
    (∀ c ∈ whole, c.isDigit = true) ∧ (whole = ['0'] ∨ whole ≠ [] ∧ whole.head? ≠ some '0') ∧
    (places = [] ∨ ∃ digits, (∀ c ∈ digits, c.isDigit = true) ∧ places = '.' :: digits)

/-- The decimal that a sequence of keys spells: all digits count, and those behind the first
point are its places. -/
def spelledDecimal (keys : Text) : Decimal :=
  ⟨valueOf (keys.filter Char.isDigit), ((keys.dropWhile (· ≠ '.')).filter Char.isDigit).length⟩

theorem trimZeros_shape (hne : digits ≠ []) (hdigits : ∀ c ∈ digits, c.isDigit = true) :
    trimZeros digits = ['0'] ∨ trimZeros digits ≠ [] ∧ (trimZeros digits).head? ≠ some '0' := by
  fun_induction trimZeros digits with
  | case1 => exact absurd rfl hne
  | case2 c rest htrim ih =>
    obtain ⟨hc, hdigit⟩ := htrim
    refine ih ?_ (List.forall_mem_cons.mp hdigits).2
    intro hrest
    simp [hrest] at hdigit
  | case3 c rest htrim =>
    by_cases hc : c = '0'
    · cases rest with
      | nil => exact Or.inl (by rw [hc])
      | cons next rest =>
        have hnext : next.isDigit = true := hdigits next (by simp)
        exact absurd ⟨hc, hnext⟩ htrim
    · exact Or.inr (by simp [hc])

theorem isDigit_of_mem_trimZeros (hdigits : ∀ c ∈ digits, c.isDigit = true) :
    ∀ c ∈ trimZeros digits, c.isDigit = true :=
  fun c hc => hdigits c ((trimZeros_suffix digits).subset hc)

theorem valueOf_trimZeros (digits more : Text) :
    valueOf (trimZeros digits ++ more) = valueOf (digits ++ more) := by
  fun_induction trimZeros digits with
  | case1 => rfl
  | case2 c rest htrim ih =>
    rw [ih, htrim.1]
    rfl
  | case3 c rest htrim => rfl

/-- A sequence without a point only loses zeros. -/
theorem numeral_whole (h : '.' ∉ keys) : numeral keys = trimZeros keys := by
  have hkept : keepFirstPoint keys = keys := by
    induction keys with
    | nil => rfl
    | cons c keys ih =>
      obtain ⟨hc, hkeys⟩ := not_or.mp (mt List.mem_cons.mpr h)
      simp [keepFirstPoint, Ne.symm hc, ih hkeys]
  have hzero : zeroBeforePoint keys = keys := by
    unfold zeroBeforePoint
    split
    · simp at h
    · rfl
  rw [numeral, hkept, hzero]

/-- The digits in front of a point, or a zero in place of none. -/
def wholeDigits (digits : Text) : Text :=
  if digits = [] then ['0'] else digits

theorem wholeDigits_ne_nil (digits : Text) : wholeDigits digits ≠ [] := by
  unfold wholeDigits
  split
  · simp
  · assumption

theorem isDigit_of_mem_wholeDigits (hdigits : ∀ c ∈ digits, c.isDigit = true) :
    ∀ c ∈ wholeDigits digits, c.isDigit = true := by
  unfold wholeDigits
  split
  · simp
  · exact hdigits

theorem valueOf_wholeDigits (digits more : Text) :
    valueOf (wholeDigits digits ++ more) = valueOf (digits ++ more) := by
  unfold wholeDigits
  split
  · rename_i hnil
    rw [hnil]
    rfl
  · rfl

/-- A sequence with a point is the digits in front of it, without needless zeros, and the
digits behind it. -/
theorem numeral_pointed (h : '.' ∉ digits) (rest : Text) :
    numeral (digits ++ '.' :: rest) =
      trimZeros (wholeDigits digits) ++ '.' :: rest.filter (· ≠ '.') := by
  have hkept : keepFirstPoint (digits ++ '.' :: rest) = digits ++ '.' :: rest.filter (· ≠ '.') := by
    induction digits with
    | nil => simp [keepFirstPoint]
    | cons c digits ih =>
      obtain ⟨hc, hdigits⟩ := not_or.mp (mt List.mem_cons.mpr h)
      simp [keepFirstPoint, Ne.symm hc, ih hdigits]
  have hzero : ∀ fraction : Text, zeroBeforePoint (digits ++ '.' :: fraction) =
      wholeDigits digits ++ '.' :: fraction := by
    intro fraction
    cases digits with
    | nil => rfl
    | cons c digits =>
      have hc : c ≠ '.' := Ne.symm (not_or.mp (mt List.mem_cons.mpr h)).1
      simp [zeroBeforePoint, wholeDigits, hc]
  rw [numeral, hkept, hzero, trimZeros_append (wholeDigits_ne_nil digits), if_neg (by simp)]

/-- Digits and points that are no points are digits. -/
theorem isDigit_of_point_not_mem (hkeys : ∀ c ∈ keys, isNumeralChar c = true) (h : '.' ∉ keys) :
    ∀ c ∈ keys, c.isDigit = true := by
  intro c hc
  have hpoint : c ≠ '.' := by
    rintro rfl
    exact h hc
  simpa [isNumeralChar, hpoint] using hkeys c hc

theorem filter_ne_point (hkeys : ∀ c ∈ keys, isNumeralChar c = true) :
    keys.filter (· ≠ '.') = keys.filter Char.isDigit := by
  refine List.filter_congr ?_
  intro c hc
  by_cases hpoint : c = '.'
  · subst hpoint
    rfl
  · have hdigit : c.isDigit = true := by simpa [isNumeralChar, hpoint] using hkeys c hc
    simp [hpoint, hdigit]

theorem spelledDecimal_whole (hdigits : ∀ c ∈ digits, c.isDigit = true) :
    spelledDecimal digits = ⟨valueOf digits, 0⟩ := by
  have hdrop : digits.dropWhile (· ≠ '.') = [] :=
    List.dropWhile_eq_nil_iff.mpr fun c hc => Decimal.ne_point_of_isDigit (hdigits c hc)
  rw [spelledDecimal, List.filter_eq_self.mpr hdigits, hdrop]
  rfl

theorem spelledDecimal_pointed (hdigits : ∀ c ∈ digits, c.isDigit = true) (rest : Text) :
    spelledDecimal (digits ++ '.' :: rest) =
      ⟨valueOf (digits ++ rest.filter Char.isDigit), (rest.filter Char.isDigit).length⟩ := by
  have hdrop : (digits ++ '.' :: rest).dropWhile (· ≠ '.') = '.' :: rest := by
    rw [List.dropWhile_append_of_pos fun c hc => Decimal.ne_point_of_isDigit (hdigits c hc)]
    simp
  have hpoint : ('.' :: rest).filter Char.isDigit = rest.filter Char.isDigit :=
    List.filter_cons_of_neg (by decide)
  rw [spelledDecimal, hdrop, List.filter_append, hpoint, List.filter_eq_self.mpr hdigits]

theorem isCanonical_numeral (hkeys : ∀ c ∈ keys, isNumeralChar c = true) (hne : keys ≠ []) :
    IsCanonical (numeral keys) := by
  by_cases hpoint : '.' ∈ keys
  · obtain ⟨digits, rest, rfl, hwhole⟩ := List.eq_append_cons_of_mem hpoint
    obtain ⟨hfront, hback⟩ := List.forall_mem_append.mp hkeys
    have hrest := (List.forall_mem_cons.mp hback).2
    have hdigits := isDigit_of_mem_wholeDigits (isDigit_of_point_not_mem hfront hwhole)
    rw [numeral_pointed hwhole, filter_ne_point hrest]
    refine ⟨_, _, rfl, isDigit_of_mem_trimZeros hdigits,
      trimZeros_shape (wholeDigits_ne_nil digits) hdigits, Or.inr ⟨_, ?_, rfl⟩⟩
    intro c hc
    exact (List.mem_filter.mp hc).2
  · have hdigits := isDigit_of_point_not_mem hkeys hpoint
    rw [numeral_whole hpoint]
    exact ⟨_, [], (List.append_nil _).symm, isDigit_of_mem_trimZeros hdigits,
      trimZeros_shape hne hdigits, Or.inl rfl⟩

/-- The number is read as what the sequence spells. -/
theorem ofText?_numeral (hkeys : ∀ c ∈ keys, isNumeralChar c = true) (hne : keys ≠ []) :
    Decimal.ofText? (numeral keys) = some (spelledDecimal keys) := by
  rw [Decimal.ofText?_eq_some_iff]
  by_cases hpoint : '.' ∈ keys
  · obtain ⟨digits, rest, rfl, hwhole⟩ := List.eq_append_cons_of_mem hpoint
    obtain ⟨hfront, hback⟩ := List.forall_mem_append.mp hkeys
    have hrest := (List.forall_mem_cons.mp hback).2
    have hdigits := isDigit_of_point_not_mem hfront hwhole
    have hshown : ∀ c ∈ trimZeros (wholeDigits digits) ++ rest.filter Char.isDigit,
        c.isDigit = true := by
      refine List.forall_mem_append.mpr ⟨?_, ?_⟩
      · exact isDigit_of_mem_trimZeros (isDigit_of_mem_wholeDigits hdigits)
      · intro c hc
        exact (List.mem_filter.mp hc).2
    have hliteral := Decimal.Literal.pointed
      (by simp [trimZeros_ne_nil (wholeDigits_ne_nil digits)]) hshown
    rw [valueOf_trimZeros, valueOf_wholeDigits] at hliteral
    rw [numeral_pointed hwhole, filter_ne_point hrest, spelledDecimal_pointed hdigits]
    exact hliteral
  · have hdigits := isDigit_of_point_not_mem hkeys hpoint
    have hliteral := Decimal.Literal.whole (trimZeros_ne_nil hne) (isDigit_of_mem_trimZeros hdigits)
    have hvalue := valueOf_trimZeros keys []
    simp only [List.append_nil] at hvalue
    rw [numeral_whole hpoint, spelledDecimal_whole hdigits, ← hvalue]
    exact hliteral

/-- Where an operand is due, a sequence of digits and points leaves what stands in front as it
is, and makes one number: the sequence without the points behind the first, with a zero in
front of a point that comes first, and without needless zeros. The number is written without
needless zeros and is worth what the sequence spells. -/
theorem insertEach_numeral (hbase : operandDue base = true)
    (hkeys : ∀ c ∈ keys, isNumeralChar c = true) (hne : keys ≠ []) :
    insertEach keys base = base ++ trimZeros (zeroBeforePoint (keepFirstPoint keys)) ∧
      IsCanonical (numeral keys) ∧ Decimal.ofText? (numeral keys) = some (spelledDecimal keys) :=
  ⟨(insertEach_append hbase hkeys).1, isCanonical_numeral hkeys hne, ofText?_numeral hkeys hne⟩

/-- Zeros and points too many are typed behind an opening parenthesis. -/
theorem insertEach_numeral_needless :
    insertEach "00.0.50".toList "2*(".toList = "2*(".toList ++ "0.050".toList ∧
      Decimal.ofText? "0.050".toList = some ⟨50, 3⟩ := by
  have hkeys : "00.0.50".toList.all isNumeralChar = true := by decide
  obtain ⟨hline, -, hvalue⟩ :=
    @insertEach_numeral "2*(".toList "00.0.50".toList (by decide) (List.all_eq_true.mp hkeys)
      (by decide)
  exact ⟨hline, hvalue⟩

end Entry

end PocketCalc
