/-
PocketCalc.Proofs.Calculator.Continuation — going on with a result.

The text put back for a result has no parentheses around it, not even when
it is negative. It is one operand all the same: a minus sign in front
binds tighter than every operator, the power included, so the text is a
phrase of the level `signed`, which is a left operand of each of them
(`Writes.leftOperand`), and a call puts parentheses around it. What the keys
write behind it is written as it stands: the text ends with a digit, so an
operator is added, and the digits pressed after the operator are a numeral
of their own, in which needless zeros are dropped (`exists_insert_digit`).

Main statement: `result_continues`.
-/
import PocketCalc.Proofs.Calculator.AllOrNothing
import PocketCalc.Proofs.Calculator.FixedPoint
import PocketCalc.Proofs.Keypad.Runs
import PocketCalc.Proofs.Keypad.Typing

namespace PocketCalc

open Number

/-! ## 1. Texts with a value -/

namespace Formula

/-- The text writes a phrase of the level, with this value in each unit. -/
def Writes (level : Level) (text : Text) (value : AngleUnit → Float) : Prop :=
  ∃ x : Formula level, x.Spelling text ∧ ∀ unit, x.value unit = value unit

variable {level tight : Level} {text more : Text} {value other : AngleUnit → Float}

/-- A phrase of a level is one of every looser level. -/
theorem Writes.lift (hlevel : level.tighter? = some tight) (h : Writes tight text value) :
    Writes level text value := by
  obtain ⟨x, hx, hvalue⟩ := h
  exact ⟨Formula.lift hlevel x, .lift hx, hvalue⟩

theorem Writes.binary {op : BinaryOperator} {sign : Char} (h : Writes op.leftLevel text value)
    (hsign : sign ∈ op.signs) (hmore : Writes op.rightLevel more other) :
    Writes op.level (text ++ sign :: more) fun unit => op.apply (value unit) (other unit) := by
  obtain ⟨x, hx, hvalue⟩ := h
  obtain ⟨y, hy, hother⟩ := hmore
  refine ⟨.binary op x y, .binary hx hsign hy, ?_⟩
  intro unit
  rw [Formula.value, hvalue, hother]

theorem Writes.call (f : MathFunction) (h : Writes .sum text value) :
    Writes .atom (f.name ++ '(' :: (text ++ [')'])) fun unit => f.apply unit (value unit) := by
  obtain ⟨x, hx, hvalue⟩ := h
  refine ⟨.call f x, .call ?_ hx, ?_⟩
  · cases f <;> decide
  · intro unit
    rw [Formula.value, hvalue]

/-- A signed operand can stand on the left of every operator. -/
theorem Writes.leftOperand (op : BinaryOperator) (h : Writes .signed text value) :
    Writes op.leftLevel text value := by
  have hproduct : Writes .product text value := .lift rfl (.lift rfl h)
  cases op with
  | plus | minus => exact .lift rfl hproduct
  | times | divide => exact hproduct
  | power => exact h

/-- A number can stand on the right of every operator. -/
theorem Writes.rightOperand (op : BinaryOperator) (h : Writes .atom text value) :
    Writes op.rightLevel text value := by
  have hpower : Writes .power text value := .lift rfl (.lift rfl (.lift rfl h))
  cases op with
  | plus | minus => exact .lift rfl hpower
  | times | divide | power => exact hpower

/-- What an operator makes is a whole expression. -/
theorem Writes.ofOperator (op : BinaryOperator) (h : Writes op.level text value) :
    Writes .sum text value := by
  cases op with
  | plus | minus => exact h
  | times | divide => exact .lift rfl h
  | power => exact .lift rfl (.lift rfl h)

theorem Writes.evaluate (h : Writes .sum text value) (unit : AngleUnit) :
    Expression.evaluate unit text = .ok (value unit) := by
  obtain ⟨x, hx, hvalue⟩ := h
  rw [Expression.evaluate_of_tokenize hx.isBlank hx.tokenize, Expression.evaluateTokens_tokens,
    hvalue]

end Formula

open Formula Entry

theorem Number.writes_reentry {value : Float} (h : value.isFinite = true) :
    Writes .signed (reentry value) fun _ => unsignedZero value :=
  exists_formula_reentry h

theorem Number.writes_digits {digits : Text} (hne : digits ≠ [])
    (hdigits : ∀ c ∈ digits, c.isDigit = true) :
    Writes .atom digits fun _ => Decimal.toFloat ⟨valueOf digits, 0⟩ :=
  ⟨.number _, .literal (.whole hne hdigits), fun _ => rfl⟩

/-- The text put back ends with a digit. -/
theorem Number.exists_digit_reentry {value : Float} (h : value.isFinite = true) :
    ∃ front last, reentry value = front ++ [last] ∧ last.isDigit = true := by
  obtain ⟨negative, whole, places, hreentry, hplaces⟩ := exists_digits_reentry h
  have ends : ∀ {front digits : Text}, digits ≠ [] → (∀ c ∈ digits, c.isDigit = true) →
      ∃ before last, front ++ digits = before ++ [last] ∧ last.isDigit = true := by
    intro front digits hne hdigits
    obtain ⟨before, last, rfl⟩ := (List.eq_nil_or_concat' digits).resolve_left hne
    exact ⟨front ++ before, last, by simp, hdigits last (by simp)⟩
  rw [hreentry]
  rcases hplaces with rfl | ⟨digits, hne, hdigits, rfl⟩
  · rw [List.append_nil]
    exact ends (digitsOf_ne_nil whole) fun c hc => isDigit_of_mem_digitsOf hc
  · rw [List.append_cons]
    exact ends hne hdigits

/-! ## 2. Digits behind an operator -/

/-- The number that digits spell. -/
def spelled (digits : List (Fin 10)) : Nat :=
  digits.foldl (fun value d => 10 * value + d.val) 0

namespace Entry

variable {base digits : Text}

/-- A digit key behind digits makes the digits of the next number, with or without the zero
that stood there. -/
theorem exists_insert_digit (hbase : ∀ c ∈ base.getLast?, isLastNumberChar c = false)
    (hdigits : ∀ c ∈ digits, c.isDigit = true) (d : Fin 10) :
    ∃ longer, insert (Key.digitText d) (base ++ digits) = base ++ longer ∧ longer ≠ [] ∧
      (∀ c ∈ longer, c.isDigit = true) ∧ valueOf longer = 10 * valueOf digits + d.val := by
  obtain ⟨hd, hvalue⟩ : (Char.ofNat (48 + d)).isDigit = true ∧
      digitValue (Char.ofNat (48 + d)) = d.val := by
    revert d
    decide
  have hnumber : ∀ c ∈ digits, isNumeralChar c = true :=
    fun c hc => Text.isNumeralChar_of_isDigit (hdigits c hc)
  rw [Key.digitText]
  generalize Char.ofNat (48 + d) = c at hd hvalue
  have hpoint : c ≠ '.' := of_decide_eq_true (Decimal.ne_point_of_isDigit hd)
  refine ⟨extend digits c, insert_digit hbase hnumber hd, ?_⟩
  rw [extend, if_neg hpoint]
  split
  · rename_i hzero
    subst hzero
    refine ⟨by simp, by simpa using hd, ?_⟩
    show 10 * 0 + digitValue c = 10 * 0 + d.val
    rw [hvalue]
  · refine ⟨by simp, ?_, by rw [valueOf_append_singleton, hvalue]⟩
    intro x hx
    rcases List.mem_append.mp hx with hx | hx
    · exact hdigits x hx
    · exact List.mem_singleton.mp hx ▸ hd

/-! ## 3. What else is written behind a result -/

/-- Behind a digit an operator is added to the line. -/
theorem insert_operator_digit {sign last : Char} (hsign : sign ∈ operatorSigns)
    (hlast : last.isDigit = true) (front : Text) :
    insert [sign] (front ++ [last]) = front ++ [last] ++ [sign] := by
  have hopen : last ≠ '(' := by
    rintro rfl
    exact absurd hlast (by decide)
  rw [insert, insertion_operator hsign,
    insertOperator_value List.getLast?_concat hopen (not_mem_operatorSigns hlast),
    Splice.edited_append]

/-- A call of a text whose parentheses match lacks one. -/
theorem closeParens_call (f : MathFunction) {text : Text} (h : text.count '(' = text.count ')') :
    closeParens (f.name ++ ['('] ++ text) = f.name ++ '(' :: (text ++ [')']) := by
  have hname : f.name.count '(' = 0 ∧ f.name.count ')' = 0 := by
    cases f <;> decide
  have hunclosed : unclosed (f.name ++ ['('] ++ text) = 1 := by
    simp only [unclosed, List.count_append, hname.1, hname.2, h]
    simp
  rw [closeParens, hunclosed]
  simp

end Entry

namespace Calculator

variable {state : Calculator} {value : Float}

/-- Keys keep the unit. -/
theorem unit_press (key : Key) (state : Calculator) : (state.press key).unit = state.unit := by
  by_cases hkey : key = .equals
  · subst hkey
    rw [press_equals]
    cases hvalue : state.committedValue? with
    | none => rw [commit_of_none hvalue]
    | some value => rw [commit_of_some hvalue, committed]
  · obtain ⟨entry, hedit⟩ := exists_press_eq_edit hkey state
    rw [hedit]
    rfl

theorem unit_pressAll (keys : List Key) (state : Calculator) :
    (pressAll keys state).unit = state.unit := by
  induction keys generalizing state with
  | nil => rfl
  | cons key keys ih => exact (ih (state.press key)).trans (unit_press key state)

/-- Keys with the key `=` after them compute a value: the line they write has it once its
parentheses are closed, and it is committed if it is finite; otherwise the line stays. -/
structure Computes (keys : List Key) (state : Calculator) (value : Float) : Prop where
  worth : Expression.evaluate state.unit (pressAll keys state).closedEntry = .ok value
  commits (hfinite : value.isFinite = true) :
    pressAll (keys ++ [.equals]) state = (pressAll keys state).committed value
  refuses (hfinite : value.isFinite = false) :
    pressAll (keys ++ [.equals]) state = { pressAll keys state with wantsFocus := true }

theorem computes_of_evaluate {keys : List Key}
    (h : Expression.evaluate state.unit (pressAll keys state).closedEntry = .ok value) :
    Computes keys state value := by
  have hcommit : pressAll (keys ++ [.equals]) state = (pressAll keys state).commit := by
    rw [pressAll, List.foldl_append]
    rfl
  rw [← unit_pressAll keys state] at h
  refine ⟨by rwa [unit_pressAll] at h, ?_, ?_⟩
  · intro hfinite
    rw [hcommit]
    exact commit_of_some (committedValue?_eq_some_iff.mpr ⟨h, hfinite⟩)
  · intro hfinite
    rw [hcommit]
    refine commit_of_none (committedValue?_eq_none ?_)
    intro other hother
    rw [h] at hother
    exact Except.ok.inj hother ▸ hfinite

theorem computes_of_writes {keys : List Key} {value : AngleUnit → Float}
    (h : Writes .sum (pressAll keys state).entry value) :
    Computes keys state (value state.unit) := by
  have hvalue := h.evaluate state.unit
  refine computes_of_evaluate ?_
  rw [closedEntry_of_evaluate hvalue, hvalue]

/-! ## 4. Keys pressed behind a result -/

/-- The key of an operator. -/
def operatorKey : BinaryOperator → Key
  | .plus => .plus
  | .minus => .minus
  | .times => .times
  | .divide => .divide
  | .power => .power

/-- Behind a digit an operator is added to the line. -/
theorem entry_press_operator (op : BinaryOperator) {front : Text} {last : Char}
    (hentry : state.entry = front ++ [last]) (hlast : last.isDigit = true) :
    ∃ sign, sign ∈ op.signs ∧ isLastNumberChar sign = false ∧
      (state.press (operatorKey op)).entry = state.entry ++ [sign] ∧
      (state.press (operatorKey op)).resultShown = false := by
  obtain ⟨sign, hsigns, hoperator, hnumber, hpiece⟩ : ∃ sign, sign ∈ op.signs ∧
      sign ∈ operatorSigns ∧ isLastNumberChar sign = false ∧
      ∀ entry, edited (operatorKey op) entry = insert [sign] entry := by
    cases op
    case plus => exact ⟨'+', by decide, by decide, by decide, fun _ => rfl⟩
    case minus => exact ⟨'-', by decide, by decide, by decide, fun _ => rfl⟩
    case times => exact ⟨'*', by decide, by decide, by decide, fun _ => rfl⟩
    case divide => exact ⟨'/', by decide, by decide, by decide, fun _ => rfl⟩
    case power => exact ⟨'^', by decide, by decide, by decide, fun _ => rfl⟩
  have hpress : state.press (operatorKey op) = state.edit (state.entry ++ [sign]) := by
    rw [press_eq_edit (by cases op <;> simp [operatorKey]) (by cases op <;> simp [operatorKey])
      (fun _ => by cases op <;> exact ⟨rfl, rfl⟩), hpiece, hentry,
      insert_operator_digit hoperator hlast]
  exact ⟨sign, hsigns, hnumber, by rw [hpress]; rfl, by rw [hpress]; rfl⟩

/-- Digit keys add a numeral to a line that ends in no number. -/
theorem exists_pressAll_digits {base digits : Text}
    (hbase : ∀ c ∈ base.getLast?, isLastNumberChar c = false)
    (hdigits : ∀ c ∈ digits, c.isDigit = true) (hshown : state.resultShown = false)
    (hentry : state.entry = base ++ digits) (keys : List (Fin 10)) :
    ∃ longer, (pressAll (keys.map .digit) state).entry = base ++ longer ∧
      (keys ≠ [] ∨ digits ≠ [] → longer ≠ []) ∧ (∀ c ∈ longer, c.isDigit = true) ∧
      valueOf longer = keys.foldl (fun value d => 10 * value + d.val) (valueOf digits) := by
  induction keys generalizing state digits with
  | nil => exact ⟨digits, hentry, by simp, hdigits, rfl⟩
  | cons d keys ih =>
    obtain ⟨next, hinsert, hne, hnext, hvalue⟩ := exists_insert_digit hbase hdigits d
    have hpress : state.press (.digit d) = state.edit (base ++ next) := by
      rw [press_eq_edit (by simp) (by simp) (by simp [hshown]), ← hinsert, hentry]
      rfl
    obtain ⟨longer, hlonger, hnil, hall, hspelled⟩ :=
      @ih (state.press (.digit d)) next hnext (by rw [hpress]; rfl) (by rw [hpress]; rfl)
    refine ⟨longer, hlonger, fun _ => hnil (Or.inr hne), hall, ?_⟩
    rw [hspelled, hvalue]
    rfl

/-- A function key pressed on a result calls the function on it. -/
theorem press_call (f : MathFunction) (hshown : state.resultShown = true) :
    state.press (.call f) = state.edit (f.name ++ ['('] ++ state.entry) := by
  show state.edit (if state.resultShown then editedResult (.call f) state.entry
    else edited (.call f) state.entry) = _
  rw [if_pos hshown]
  rfl

/-- A key that writes its piece anywhere writes it behind a result as well, unless it calls
a function. -/
theorem entry_press_plain {key : Key} (hplain : key.isPlain = true) (hcall : key.isCall = false)
    (state : Calculator) : (state.press key).entry = state.entry ++ key.piece := by
  obtain ⟨hdigit, hedited⟩ : key.isDigit = false ∧
      edited key state.entry = insert key.piece state.entry := by
    cases key with
    | pi | euler | call _ | square | cube | powerOfTwo | openParen | closeParen =>
      exact ⟨rfl, rfl⟩
    | _ => cases hplain
  have hclear : key ≠ .allClear := by
    rintro rfl
    cases hplain
  have hequals : key ≠ .equals := by
    rintro rfl
    cases hplain
  rw [press_eq_edit hclear hequals fun _ => ⟨hdigit, hcall⟩, hedited, insert_plain hplain]
  rfl

/-- A key that writes a power with its exponent raises the line to it. -/
theorem computes_power {key : Key} {c : Char} {base exponent : Float}
    (hline : (state.press key).entry = state.entry ++ '^' :: [c]) (hc : c.isDigit = true)
    (hexponent : Decimal.toFloat ⟨valueOf [c], 0⟩ = exponent)
    (h : Writes .signed state.entry fun _ => base) : Computes [key] state (base.pow exponent) := by
  have hnumber : Writes .atom [c] fun _ => Decimal.toFloat ⟨valueOf [c], 0⟩ :=
    writes_digits (List.cons_ne_nil c []) (by simpa using hc)
  have hsign : '^' ∈ BinaryOperator.power.signs := by decide
  have hpower := ((h.leftOperand .power).binary hsign (hnumber.rightOperand .power)).ofOperator
  rw [hexponent, ← hline] at hpower
  have hpressed : Writes .sum (pressAll [key] state).entry fun _ => base.pow exponent := hpower
  exact computes_of_writes hpressed

/-- The line of a result is one operand, worth the result. -/
theorem writes_entry (hfinite : value.isFinite = true) (hentry : state.entry = reentry value) :
    Writes .signed state.entry fun _ => unsignedZero value := by
  rw [hentry]
  exact writes_reentry hfinite

/-- The key of an operator and digits behind a result compute with the number that the digits
spell. -/
theorem computes_operator (hfinite : value.isFinite = true) (hentry : state.entry = reentry value)
    (op : BinaryOperator) {digits : List (Fin 10)} (hdigits : digits ≠ []) :
    Computes (operatorKey op :: digits.map .digit) state
      (op.apply (unsignedZero value) (Decimal.toFloat ⟨spelled digits, 0⟩)) := by
  have hresult := writes_entry hfinite hentry
  obtain ⟨front, last, hfront, hlast⟩ := exists_digit_reentry hfinite
  rw [← hentry] at hfront
  obtain ⟨sign, hsign, hnumber, hline, hfresh⟩ := entry_press_operator op hfront hlast
  obtain ⟨longer, hlonger, hne, hall, hvalue⟩ :=
    @exists_pressAll_digits (state.press (operatorKey op)) (state.entry ++ [sign]) []
      (by simpa using hnumber) (by simp) hfresh (by rw [hline, List.append_nil]) digits
  have hright : Writes .atom longer fun _ => Decimal.toFloat ⟨spelled digits, 0⟩ := by
    have h := writes_digits (hne (Or.inl hdigits)) hall
    rwa [hvalue] at h
  have hwhole := ((hresult.leftOperand op).binary hsign (hright.rightOperand op)).ofOperator
  rw [List.append_assoc] at hlonger
  have hentry' : (pressAll (operatorKey op :: digits.map .digit) state).entry =
      state.entry ++ sign :: longer := hlonger
  exact computes_of_writes (hentry' ▸ hwhole)

/-! ## 5. Going on -/

/-- Where a result is shown, the keys that are pressed next compute with it as one operand,
whatever its sign: the key of a function and `=` give the function of the result; the key of
an operator, digits and `=` give the sum, the difference, the product, the quotient or the
power of the result and the number that the digits spell; the keys for a square and a cube
give these. The value is committed exactly when it is finite. -/
theorem result_continues (hshown : state.resultShown = true) (hfinite : value.isFinite = true)
    (hentry : state.entry = reentry value) :
    (∀ f : MathFunction, Computes [.call f] state (f.apply state.unit (unsignedZero value))) ∧
    (∀ digits : List (Fin 10), digits ≠ [] →
      let number := Decimal.toFloat ⟨spelled digits, 0⟩
      Computes (.plus :: digits.map .digit) state (unsignedZero value + number) ∧
      Computes (.minus :: digits.map .digit) state (unsignedZero value - number) ∧
      Computes (.times :: digits.map .digit) state (unsignedZero value * number) ∧
      Computes (.divide :: digits.map .digit) state (unsignedZero value / number) ∧
      Computes (.power :: digits.map .digit) state ((unsignedZero value).pow number)) ∧
    Computes [.square] state ((unsignedZero value).pow 2) ∧
    Computes [.cube] state ((unsignedZero value).pow 3) := by
  have hresult := writes_entry hfinite hentry
  refine ⟨?_, ?_, ?_, ?_⟩
  · intro f
    have hsum : Writes .sum state.entry fun _ => unsignedZero value :=
      .lift rfl (.lift rfl (.lift rfl hresult))
    have hparens := Expression.parens_of_evaluate (hsum.evaluate state.unit)
    have hcall : Writes .sum _ fun unit => f.apply unit (unsignedZero value) :=
      .lift rfl (.lift rfl (.lift rfl (.lift rfl (.lift rfl (hsum.call f)))))
    have hclosed : (pressAll [.call f] state).closedEntry =
        f.name ++ '(' :: (state.entry ++ [')']) := by
      rw [← closeParens_call f hparens, closedEntry]
      exact congrArg (fun next => closeParens next.entry) (press_call f hshown)
    refine computes_of_evaluate ?_
    rw [hclosed, hcall.evaluate]
  · intro digits hdigits
    exact ⟨computes_operator hfinite hentry .plus hdigits,
      computes_operator hfinite hentry .minus hdigits,
      computes_operator hfinite hentry .times hdigits,
      computes_operator hfinite hentry .divide hdigits,
      computes_operator hfinite hentry .power hdigits⟩
  · exact computes_power (entry_press_plain rfl rfl state) (by decide) (by decide +kernel) hresult
  · exact computes_power (entry_press_plain rfl rfl state) (by decide) (by decide +kernel) hresult

/-- Every operator with a negative result and two, and the magnitude of the result. -/
theorem result_continues_negated :
    negated.resultShown = true ∧ negated.entry = reentry (-pi) ∧
      Computes [.plus, .digit 0, .digit 2] negated (-pi + 2) ∧
      Computes [.minus, .digit 0, .digit 2] negated (-pi - 2) ∧
      Computes [.times, .digit 0, .digit 2] negated (-pi * 2) ∧
      Computes [.divide, .digit 0, .digit 2] negated (-pi / 2) ∧
      Computes [.power, .digit 0, .digit 2] negated ((-pi).pow 2) ∧
      Computes [.call .abs] negated (-pi).abs := by
  have hshown : negated.resultShown = true := by
    rw [negated, commit_of_some committedValue?_negated, committed]
  have hentry : negated.entry = reentry (-pi) := by
    rw [negated, commit_of_some committedValue?_negated, committed]
  have hvalue : unsignedZero (-pi) = -pi := by decide +kernel
  have htwo : Decimal.toFloat ⟨spelled [0, 2], 0⟩ = 2 := by decide +kernel
  obtain ⟨hcalls, hoperators, -, -⟩ := result_continues hshown (by decide +kernel) hentry
  have hwithTwo := hoperators [0, 2] (by simp)
  have hmagnitude := hcalls .abs
  rw [hvalue] at hmagnitude
  rw [hvalue, htwo] at hwithTwo
  obtain ⟨hsum, hdifference, hproduct, hquotient, hpower⟩ := hwithTwo
  exact ⟨hshown, hentry, hsum, hdifference, hproduct, hquotient, hpower, hmagnitude⟩

end Calculator

end PocketCalc
