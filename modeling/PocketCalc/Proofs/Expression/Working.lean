/-
PocketCalc.Proofs.Expression.Working — the working shows what is evaluated.

The reverse order is shown as text, a space between two tokens, and the
value is computed from the tokens themselves. Nothing is lost on the way
to the text: no token is written with a space or as nothing, so the pieces
between the spaces are the texts of the tokens, and no two tokens are
written alike. A negation is written as a word and not as a minus sign, a
number that is too large as a word that names no function, and a minus
sign alone is no number.

So reading the pieces back gives the list that is evaluated
(`ofListText?_listText`), and expressions with the same reverse order have
the same value. Main statement: `evaluate_of_working`.
-/
import PocketCalc.Proofs.Number.FloatText
import PocketCalc.Proofs.Rpn.Matching

namespace PocketCalc

/-! ## 1. Tokens read back -/

namespace Token

open Number

/-- Reads a piece of a reverse order: a number, an operator, a suffix or a function. -/
def ofText? (text : Text) : Option Token :=
  ((readNumber? text).map number).or <|
  ((Operator.all.find? fun op => op.symbol = text).map operator).or <|
  (([.factorial, .percent].find? fun s : Suffix => s.symbol = text).map suffix).or <|
  (MathFunction.ofName? text).map function

/-- Reads a reverse order from its text. -/
def ofListText? (text : Text) : Option (List Token) :=
  if text = [] then some [] else (text.splitOn ' ').mapM ofText?

/-- A token of a reverse order is read back from its text. -/
theorem ofText?_text {token : Token} (h : token.isParen = false) :
    ofText? token.text = some token := by
  cases token with
  | number x => simp [ofText?, text, readNumber?_floatText]
  | operator op =>
    cases op with
    | binary op => cases op <;> rfl
    | negate => rfl
  | suffix s => cases s <;> rfl
  | function f => cases f <;> rfl
  | openParen | closeParen => cases h

theorem text_ne_nil {token : Token} (h : token.isParen = false) : token.text ≠ [] := by
  intro hnil
  have hread := ofText?_text h
  rw [hnil] at hread
  exact absurd hread (by simp [show ofText? [] = none from rfl])

theorem space_not_mem_text {token : Token} : ' ' ∉ token.text := by
  cases token with
  | number x => exact space_not_mem_floatText x
  | operator op =>
    cases op with
    | binary op => cases op <;> decide
    | negate => decide
  | suffix s => cases s <;> decide
  | function f => cases f <;> decide
  | openParen | closeParen => decide

theorem mapM_ofText?_texts {rpn : List Token} (h : ∀ token ∈ rpn, token.isParen = false) :
    (rpn.map text).mapM ofText? = some rpn := by
  induction rpn with
  | nil => rfl
  | cons token rpn ih =>
    obtain ⟨htoken, hrpn⟩ := List.forall_mem_cons.mp h
    simp [ofText?_text htoken, ih hrpn]

/-- A list has no text only if it has no tokens. -/
theorem listText_eq_nil_iff {rpn : List Token} (h : ∀ token ∈ rpn, token.isParen = false) :
    listText rpn = [] ↔ rpn = [] := by
  refine ⟨fun hnil => ?_, by rintro rfl; rfl⟩
  cases rpn with
  | nil => rfl
  | cons token rpn =>
    have htoken : token.text ≠ [] := text_ne_nil (h token List.mem_cons_self)
    cases rpn <;> simp [listText, htoken] at hnil

/-- A reverse order is read back from its text. -/
theorem ofListText?_listText {rpn : List Token} (h : ∀ token ∈ rpn, token.isParen = false) :
    ofListText? (listText rpn) = some rpn := by
  unfold ofListText?
  split
  · rename_i hnil
    rw [(listText_eq_nil_iff h).mp hnil]
  · rename_i hne
    have htexts : rpn.map text ≠ [] := by
      intro hnil
      exact hne ((listText_eq_nil_iff h).mpr (List.map_eq_nil_iff.mp hnil))
    have hspace : ∀ piece ∈ rpn.map text, ' ' ∉ piece := by
      intro piece hpiece
      obtain ⟨token, -, rfl⟩ := List.mem_map.mp hpiece
      exact space_not_mem_text
    rw [listText, List.splitOn_intercalate ' ' hspace htexts, mapM_ofText?_texts h]

end Token

/-! ## 2. The working and the value -/

namespace Expression

variable {expression : Text}

/-- A text that is not blank is worth what its reverse order is worth. -/
theorem evaluate_of_not_blank (h : Text.isBlank expression = false) (unit : AngleUnit) :
    evaluate unit expression =
      ((toRpn expression).mapError .reading).bind fun rpn =>
        (Rpn.eval unit rpn).mapError .evaluation := by
  simp only [evaluate, h, Bool.false_eq_true, if_false]
  cases toRpn expression with
  | error fault => rfl
  | ok rpn =>
    simp only [Except.mapError, Except.bind]
    cases Rpn.eval unit rpn <;> rfl

/-- The value is refused in reading exactly when there is no reverse order. -/
theorem evaluate_eq_reading_iff (h : Text.isBlank expression = false) {unit : AngleUnit}
    {fault : SyntaxFault} :
    evaluate unit expression = .error (.reading fault) ↔ toRpn expression = .error fault := by
  rw [evaluate_of_not_blank h]
  cases toRpn expression with
  | error other => simp [Except.mapError, Except.bind]
  | ok rpn =>
    simp only [Except.mapError, Except.bind]
    cases Rpn.eval unit rpn <;> simp

/-- The working is refused exactly when there is no reverse order. -/
theorem working_eq_error_iff {fault : SyntaxFault} :
    working expression = .error fault ↔ toRpn expression = .error fault := by
  unfold working toRpn
  cases signedTokens expression with
  | error other => simp
  | ok tokens =>
    simp only [Except.map]
    cases Rpn.ofTokens tokens <;> simp

/-- The working shows the reverse order, from which it is read back. -/
theorem ofListText?_working {found : Working} (h : working expression = .ok found) :
    ∃ rpn, toRpn expression = .ok rpn ∧ Token.ofListText? found.rpn = some rpn := by
  cases htokens : signedTokens expression with
  | error fault => simp [working, htokens] at h
  | ok tokens =>
    simp only [working, htokens] at h
    cases hrpn : Rpn.ofTokens tokens with
    | error fault => simp [hrpn, Except.map] at h
    | ok rpn =>
      rw [hrpn] at h
      obtain rfl := Except.ok.inj h
      refine ⟨rpn, by simp [toRpn, htokens, hrpn], ?_⟩
      exact Token.ofListText?_listText fun token htoken =>
        Rpn.isParen_of_mem_ofTokens hrpn htoken

/-- The working of an expression that is not blank tells its value. It is refused exactly when
reading the expression is, for the same reason, in both units. Else the pieces of the reverse
order it shows are read back as a list that has the value of the expression, or its fault. So
two expressions with the same reverse order on show are worth the same. -/
theorem evaluate_of_working (h : Text.isBlank expression = false) :
    (∀ unit fault, working expression = .error fault ↔
      evaluate unit expression = .error (.reading fault)) ∧
    (∀ found, working expression = .ok found →
      ∃ rpn, Token.ofListText? found.rpn = some rpn ∧
        ∀ unit, evaluate unit expression = (Rpn.eval unit rpn).mapError .evaluation) ∧
    (∀ other found shown, Text.isBlank other = false → working expression = .ok found →
      working other = .ok shown → found.rpn = shown.rpn →
      ∀ unit, evaluate unit expression = evaluate unit other) := by
  have hvalue {text : Text} (htext : Text.isBlank text = false) {found : Working}
      (hfound : working text = .ok found) :
      ∃ rpn, Token.ofListText? found.rpn = some rpn ∧
        ∀ unit, evaluate unit text = (Rpn.eval unit rpn).mapError .evaluation := by
    obtain ⟨rpn, hrpn, hread⟩ := ofListText?_working hfound
    refine ⟨rpn, hread, fun unit => ?_⟩
    rw [evaluate_of_not_blank htext, hrpn]
    rfl
  refine ⟨fun unit fault => ?_, fun found hfound => hvalue h hfound, ?_⟩
  · rw [working_eq_error_iff, evaluate_eq_reading_iff h]
  · intro other found shown hother hfound hshown hsame unit
    obtain ⟨rpn, hread, hrpn⟩ := hvalue h hfound
    obtain ⟨rpn', hread', hrpn'⟩ := hvalue hother hshown
    rw [hsame, hread'] at hread
    obtain rfl := Option.some.inj hread
    rw [hrpn, hrpn']

/-- The parentheses are not on show, and not needed: a negation is told from a subtraction. -/
theorem evaluate_of_working_negation :
    working "2--3".toList = .ok ⟨"2 - neg 3".toList, "2 3 neg -".toList⟩ ∧
    ∀ unit, evaluate unit "2--3".toList = evaluate unit "2-(-3)".toList := by
  have hread : working "2--3".toList = .ok ⟨"2 - neg 3".toList, "2 3 neg -".toList⟩ ∧
      working "2-(-3)".toList = .ok ⟨"2 - ( neg 3 )".toList, "2 3 neg -".toList⟩ := by
    decide +kernel
  obtain ⟨hfound, hshown⟩ := hread
  have hblank : Text.isBlank "2--3".toList = false := by decide
  obtain ⟨-, -, halike⟩ := evaluate_of_working hblank
  exact ⟨hfound, halike _ _ _ (by decide) hfound hshown rfl⟩

end Expression

end PocketCalc
