/-
PocketCalc.Proofs.Keypad.Operators — operators written on the keypad.

An operator is checked against what it is typed behind, and takes the
place of an operator there. What it stands behind after that is not checked
again. Mostly there is no need: the operator that goes stood where an
operator may stand. But a minus sign may also stand where an operand is
due, and there it is replaced all the same: `-` and then `+` leave a `+` at
the start of the line (`replacesSign`, `not_wellOperated_edited`).

There are two laws, and both look at an operator and at what stands in
front of it, so the argument is made once for any such law (`Placed`). That
no operator stands right behind `+` or `-` is kept by every key. That none
but the minus sign stands where an operand is due is kept by every key that
does not replace a sign there, and broken by every key that does.

Main statement: `typed_operators`.
-/
import Mathlib.Data.List.Basic
import PocketCalc.Proofs.Entry.Changes

namespace PocketCalc

namespace Entry

/-! ## 1. Where an operator stands -/

/-- Each operator of a line, with what stands in front of it. -/
def Placed (may : Char → Text → Prop) (entry : Text) : Prop :=
  ∀ front sign back, entry = front ++ sign :: back → sign ∈ operatorSigns → may sign front

/-- Whether an operand is due behind a text: at the start, behind an opening parenthesis and
behind an operator. -/
def operandDue (front : Text) : Bool :=
  front.getLast?.all fun c => c = '(' || c ∈ operatorSigns

theorem operandDue_eq_false_iff {front : Text} :
    operandDue front = false ↔
      ∃ last, front.getLast? = some last ∧ last ≠ '(' ∧ last ∉ operatorSigns := by
  cases hend : front.getLast? <;> simp [operandDue, hend]

/-- No operator stands right behind a plus or a minus sign. -/
def SignsApart : Text → Prop :=
  Placed fun _ front => front.getLast? ≠ some '+' ∧ front.getLast? ≠ some '-'

/-- No operator but the minus sign stands where an operand is due. -/
def WellOperated : Text → Prop :=
  Placed fun sign front => sign ≠ '-' → operandDue front = false

variable {may : Char → Text → Prop} {entry back : Text}

theorem placed_nil : Placed may [] := by
  intro front sign back hentry
  cases front <;> cases hentry

theorem Placed.of_append (h : Placed may (entry ++ back)) : Placed may entry := by
  rintro front sign rest rfl
  exact h front sign (rest ++ back) (by simp)

theorem Placed.concat {c : Char} (h : Placed may entry) (hc : c ∈ operatorSigns → may c entry) :
    Placed may (entry ++ [c]) := by
  intro front sign rest hentry hsign
  rcases List.eq_nil_or_concat' rest with rfl | ⟨rest, last, rfl⟩
  · obtain ⟨rfl, hlast⟩ := List.append_inj' hentry rfl
    obtain rfl := List.singleton_inj.mp hlast
    exact hc hsign
  · rw [← List.cons_append, ← List.append_assoc] at hentry
    exact h front sign rest (List.append_inj' hentry rfl).1 hsign

/-- Text without operators can be written anywhere. -/
theorem Placed.append (h : Placed may entry) (hback : ∀ c ∈ back, c ∉ operatorSigns) :
    Placed may (entry ++ back) := by
  induction back generalizing entry with
  | nil => rwa [List.append_nil]
  | cons c back ih =>
    obtain ⟨hc, hrest⟩ := List.forall_mem_cons.mp hback
    rw [List.append_cons]
    exact ih (h.concat fun hmem => absurd hmem hc) hrest

theorem Placed.last {front : Text} {sign : Char} (h : Placed may (front ++ [sign]))
    (hsign : sign ∈ operatorSigns) : may sign front :=
  h front sign [] rfl hsign

end Entry

/-! ## 2. Every key -/

/-- Whether the key adds a symbol to the line or takes one off: the digits, the point, the
percent sign, the operators, the parentheses, the constants, the functions and the key that
erases. -/
def Key.isSymbol : Key → Bool
  | .digit _ | .point | .percent | .plus | .minus | .times | .divide | .power | .openParen
  | .closeParen | .pi | .euler | .call _ | .erase => true
  | _ => false

namespace Entry

theorem operator_not_mem_of_digits {digits : Text} (h : ∀ c ∈ digits, c.isDigit = true) :
    ∀ c ∈ digits, c ∉ operatorSigns :=
  fun c hc => not_mem_operatorSigns (h c hc)

theorem operator_not_mem_of_all {text : Text}
    (h : (text.all fun c => c ∉ operatorSigns) = true) : ∀ c ∈ text, c ∉ operatorSigns := by
  simpa using h

theorem operator_not_mem_piece {key : Key} (hkey : key.isSymbol = true)
    (hplain : key.isPlain = true) : ∀ c ∈ key.piece, c ∉ operatorSigns := by
  cases key with
  | call f => cases f <;> exact operator_not_mem_of_all (by decide)
  | pi | euler | openParen | closeParen => exact operator_not_mem_of_all (by decide)
  | square | cube | powerOfTwo => cases hkey
  | _ => cases hplain

/-- A key keeps a law of operators if the law holds of the operator that the key appends or
puts in the place of another. -/
theorem Placed.change {key : Key} {next : Text} (h : Placed may entry)
    (hkey : key.isSymbol = true)
    (happended : ∀ sign, sign ∈ operatorSigns →
      (entry = [] ∨ entry.getLast? = some '(' → sign = '-') →
      (∀ last ∈ entry.getLast?, last ∈ operatorSigns → last ∈ signableOperators ∧ sign = '-') →
        may sign entry)
    (hreplaced : ∀ front last sign, entry = front ++ [last] → last ∈ operatorSigns →
      key.piece = [sign] → sign ∈ operatorSigns → may sign front)
    (hchange : Change entry key next) : Placed may next := by
  cases hchange with
  | refused => exact h
  | plain hplain => exact h.append (operator_not_mem_piece hkey hplain)
  | digit d => exact h.append (operator_not_mem_of_digits (isDigit_digitText d))
  | zero d hentry hfront =>
    rw [hentry] at h
    exact h.of_append.append (operator_not_mem_of_digits (isDigit_digitText d))
  | point hlast hc hnone => exact h.append (operator_not_mem_of_all (by decide))
  | newNumber hnone => exact h.append (operator_not_mem_of_all (by decide))
  | percent hvalue => exact h.append (operator_not_mem_of_all (by decide))
  | operator hpiece hsign hopen hlast => exact h.concat fun _ => happended _ hsign hopen hlast
  | replaced hpiece hsign hentry hlast hguard =>
    have hmay := hreplaced _ _ _ hentry hlast hpiece hsign
    rw [hentry] at h
    exact h.of_append.concat fun _ => hmay
  | erasePiece hentry hspaces hpiece hlongest =>
    rw [hentry] at h
    exact h.of_append.of_append
  | @eraseChar trimmed spaces hentry hspaces hnone =>
    rw [hentry] at h
    obtain ⟨last, hlast⟩ := List.dropLast_prefix trimmed
    rw [← hlast] at h
    exact h.of_append.of_append
  | _ => cases hkey

/-- No key puts an operator behind a plus or a minus sign. -/
theorem SignsApart.change {key : Key} {next : Text} (h : SignsApart entry)
    (hkey : key.isSymbol = true) (hchange : Change entry key next) : SignsApart next := by
  refine Placed.change h hkey ?_ ?_ hchange
  · intro sign hsign hopen hlast
    have hnone : ∀ last, last ∈ operatorSigns → last ∉ signableOperators →
        entry.getLast? ≠ some last := by
      intro last hmem hsum hend
      exact hsum (hlast last hend hmem).1
    exact ⟨hnone '+' (by decide) (by decide), hnone '-' (by decide) (by decide)⟩
  · rintro front last sign rfl hlast hpiece hsign
    exact Placed.last h hlast

/-- Whether the key puts an operator in the place of a minus sign that stands where an
operand is due. -/
def replacesSign (key : Key) (entry : Text) : Bool :=
  key.piece ∈ [['+'], ['*'], ['/'], ['^']] && entry.getLast? = some '-' &&
    operandDue entry.dropLast

theorem replacesSign_iff {key : Key} :
    replacesSign key entry = true ↔
      ∃ sign front, key.piece = [sign] ∧ sign ∈ operatorSigns ∧ sign ≠ '-' ∧
        entry = front ++ ['-'] ∧ operandDue front = true := by
  have hpiece : key.piece ∈ [['+'], ['*'], ['/'], ['^']] ↔
      ∃ sign, key.piece = [sign] ∧ sign ∈ operatorSigns ∧ sign ≠ '-' := by
    constructor
    · intro h
      simp only [List.mem_cons, List.not_mem_nil, or_false] at h
      rcases h with h | h | h | h <;> exact ⟨_, h, by decide, by decide⟩
    · rintro ⟨sign, h, hsign, hne⟩
      simp only [operatorSigns, List.mem_cons, List.not_mem_nil, or_false] at hsign
      rcases hsign with rfl | rfl | rfl | rfl | rfl <;> simp_all
  have hlast : entry.getLast? = some '-' ∧ operandDue entry.dropLast = true ↔
      ∃ front, entry = front ++ ['-'] ∧ operandDue front = true := by
    constructor
    · rintro ⟨hlast, hdue⟩
      obtain ⟨front, rfl⟩ := List.getLast?_eq_some_iff.mp hlast
      exact ⟨front, rfl, by rwa [List.dropLast_concat] at hdue⟩
    · rintro ⟨front, rfl, hdue⟩
      exact ⟨List.getLast?_concat, by rwa [List.dropLast_concat]⟩
  rw [replacesSign, Bool.and_eq_true, Bool.and_eq_true, decide_eq_true_iff, decide_eq_true_iff,
    and_assoc, hlast, hpiece]
  constructor
  · rintro ⟨⟨sign, h, hsign, hne⟩, front, hentry, hdue⟩
    exact ⟨sign, front, h, hsign, hne, hentry, hdue⟩
  · rintro ⟨sign, front, h, hsign, hne, hentry, hdue⟩
    exact ⟨⟨sign, h, hsign, hne⟩, front, hentry, hdue⟩

/-- Every key that does not replace a sign keeps operators but the minus sign away from where
an operand is due. -/
theorem WellOperated.change {key : Key} {next : Text} (h : WellOperated entry)
    (hkey : key.isSymbol = true) (hspares : replacesSign key entry = false)
    (hchange : Change entry key next) : WellOperated next := by
  refine Placed.change h hkey ?_ ?_ hchange
  · intro sign hsign hopen hlast hne
    cases hend : entry.getLast? with
    | none => exact absurd (hopen (Or.inl (List.getLast?_eq_none_iff.mp hend))) hne
    | some last =>
      have hparen : last ≠ '(' := by
        rintro rfl
        exact hne (hopen (Or.inr hend))
      have hoperator : last ∉ operatorSigns := fun hmem => hne (hlast last hend hmem).2
      exact operandDue_eq_false_iff.mpr ⟨last, hend, hparen, hoperator⟩
  · rintro front last sign rfl hlast hpiece hsign hne
    by_cases hminus : last = '-'
    · subst hminus
      refine Bool.eq_false_iff.mpr fun hdue => ?_
      rw [replacesSign_iff.mpr ⟨sign, front, hpiece, hsign, hne, rfl, hdue⟩] at hspares
      cases hspares
    · exact Placed.last h hlast hminus

/-! ## 3. The key of an operator -/

/-- At the start and behind an opening parenthesis only a minus sign is taken. An operator
takes the place of the one before it, save a minus sign behind `*`, `/` and `^`. -/
theorem insert_operator {sign : Char} (hsign : sign ∈ operatorSigns) (entry : Text) :
    (entry = [] ∨ entry.getLast? = some '(' →
      insert [sign] entry = if sign = '-' then entry ++ [sign] else entry) ∧
    (∀ front last, entry = front ++ [last] → last ∈ operatorSigns →
      insert [sign] entry =
        if last ∈ signableOperators ∧ sign = '-' then entry ++ [sign] else front ++ [sign]) ∧
    (operandDue entry = false → insert [sign] entry = entry ++ [sign]) := by
  rw [insert, insertion_operator hsign]
  refine ⟨?_, ?_, ?_⟩
  · intro hopen
    rw [insertOperator_open hopen]
    split
    · exact Splice.edited_append entry [sign]
    · exact Splice.edited_unchanged entry
  · rintro front last rfl hlast
    rw [insertOperator_behind hlast]
    split
    · exact Splice.edited_append _ [sign]
    · rw [Splice.edited_replaceLast, List.dropLast_concat]
  · intro hdue
    obtain ⟨last, hend, hparen, hlast⟩ := operandDue_eq_false_iff.mp hdue
    rw [insertOperator_value hend hparen hlast, Splice.edited_append]

/-- A key that replaces a sign leaves an operator where an operand is due. -/
theorem not_wellOperated_edited {key : Key} (h : replacesSign key entry = true) :
    ¬WellOperated (Calculator.edited key entry) := by
  obtain ⟨sign, front, hpiece, hsign, hne, rfl, hdue⟩ := replacesSign_iff.mp h
  have hedited : Calculator.edited key (front ++ ['-']) = insert [sign] (front ++ ['-']) := by
    rw [← hpiece]
    cases key <;> first | rfl | cases hpiece
  obtain ⟨-, hreplaced, -⟩ := insert_operator hsign (front ++ ['-'])
  rw [hedited, hreplaced front '-' rfl (by decide), if_neg fun h => hne h.2]
  intro hwell
  have hclear := Placed.last hwell hsign hne
  rw [hdue] at hclear
  cases hclear

end Entry

/-! ## 4. Sequences of keys -/

namespace Calculator

open Entry

/-- The line after some keys. -/
def typed (keys : List Key) (entry : Text) : Text :=
  keys.foldl (fun entry key => edited key entry) entry

/-- Whether no key of a sequence replaces a sign. -/
def sparesSigns : List Key → Text → Bool
  | [], _ => true
  | key :: keys, entry => !replacesSign key entry && sparesSigns keys (edited key entry)

variable {keys : List Key} {entry : Text}

/-- Whatever the keys, no operator comes to stand behind a plus or a minus sign. -/
theorem signsApart_typed (h : SignsApart entry) (hkeys : ∀ key ∈ keys, key.isSymbol = true) :
    SignsApart (typed keys entry) := by
  induction keys generalizing entry with
  | nil => exact h
  | cons key keys ih =>
    obtain ⟨hkey, hothers⟩ := List.forall_mem_cons.mp hkeys
    exact ih (h.change hkey (change_edited key entry)) hothers

/-- The operators stay well placed for as long as no sign is replaced, and no longer. -/
theorem wellOperated_typed_iff (h : WellOperated entry)
    (hkeys : ∀ key ∈ keys, key.isSymbol = true) :
    (∀ n, WellOperated (typed (keys.take n) entry)) ↔ sparesSigns keys entry = true := by
  induction keys generalizing entry with
  | nil => simp [typed, sparesSigns, h]
  | cons key keys ih =>
    obtain ⟨hkey, hothers⟩ := List.forall_mem_cons.mp hkeys
    rw [sparesSigns]
    cases hreplaces : replacesSign key entry with
    | true =>
      have hbroken := not_wellOperated_edited hreplaces
      simp only [Bool.not_true, Bool.false_and, Bool.false_eq_true, iff_false]
      intro hall
      exact hbroken (hall 1)
    | false =>
      have hnext := h.change hkey hreplaces (change_edited key entry)
      have hrest := ih hnext hothers
      simp only [Bool.not_false, Bool.true_and]
      constructor
      · intro hall
        exact hrest.mp fun n => hall (n + 1)
      · intro hspares n
        cases n with
        | zero => exact h
        | succ n => exact hrest.mpr hspares n

/-- Adding symbols to the empty line and taking them off, no operator comes to stand behind a
plus or a minus sign. No `+`, `*`, `/` or `^` comes to stand at the start, behind an opening
parenthesis or behind an operator, for as long as none replaces a minus sign that stands
there; then one does. At the start and behind an opening parenthesis only a minus sign is
taken, behind `*`, `/` and `^` it is taken as well, and every other operator behind an operator
takes its place. -/
theorem typed_operators (hkeys : ∀ key ∈ keys, key.isSymbol = true) :
    SignsApart (typed keys []) ∧
    ((∀ n, WellOperated (typed (keys.take n) [])) ↔ sparesSigns keys [] = true) ∧
    (∀ sign ∈ operatorSigns, ∀ entry,
      (entry = [] ∨ entry.getLast? = some '(' →
        insert [sign] entry = if sign = '-' then entry ++ [sign] else entry) ∧
      (∀ front last, entry = front ++ [last] → last ∈ operatorSigns →
        insert [sign] entry =
          if last ∈ signableOperators ∧ sign = '-' then entry ++ [sign] else front ++ [sign]) ∧
      (operandDue entry = false → insert [sign] entry = entry ++ [sign])) :=
  ⟨signsApart_typed placed_nil hkeys, wellOperated_typed_iff placed_nil hkeys,
    fun _ hsign entry => insert_operator hsign entry⟩

/-- An operator is replaced twice, erased, and a sign is put behind a power. -/
def replacedTwice : List Key :=
  [.call .sin, .minus, .digit 2, .plus, .times, .divide, .erase, .power, .minus, .digit 3,
    .closeParen, .minus, .plus]

theorem typed_operators_replacedTwice :
    typed replacedTwice [] = "sin(-2^-3)+".toList ∧
      WellOperated (typed replacedTwice []) ∧ SignsApart (typed replacedTwice []) := by
  have hkeys : ∀ key ∈ replacedTwice, key.isSymbol = true := by decide
  obtain ⟨hapart, hwell, -⟩ := typed_operators hkeys
  have hspares : sparesSigns replacedTwice [] = true := by decide +kernel
  exact ⟨by decide +kernel, hwell.mpr hspares replacedTwice.length, hapart⟩

/-- The keys `-` and `+` leave a `+` at the start of the line. -/
theorem typed_minus_plus :
    (∀ key ∈ [Key.minus, .plus], key.isSymbol = true) ∧ typed [.minus, .plus] [] = ['+'] ∧
      ¬WellOperated (typed [.minus, .plus] []) := by
  have hreplaces : replacesSign .plus ['-'] = true := by decide
  exact ⟨by decide, by decide, not_wellOperated_edited hreplaces⟩

end Calculator

end PocketCalc
