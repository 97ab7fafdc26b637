/-
PocketCalc.Proofs.Entry.Operand — what the keys that act on the last number
do to the value of the line.

The two keys look at characters: they take the digits, points and percent
signs at the end of the line and write around them. Whether that is the
last operand of the expression is a question of its own. It is, when the
line is a well-formed expression and no space splits the number
(`exists_lastNumber`): behind the first percent sign no operand is due, so
all that follows is percent signs, and in front of a number an operator
stands or nothing at all.

The sign key puts parentheses around what it writes, which makes an operand
of it again: it negates the last operand, whatever stands in front
(`toggleSign_lastOperand`). The reciprocal key puts none around the
quotient. Its division takes all of the last term as dividend, so the number
becomes its reciprocal only where nothing but minus signs stands in front
of it in its term (`evaluate_invert`).
-/
import PocketCalc.Proofs.Entry.Changes
import PocketCalc.Proofs.Formula.LastOperand
import PocketCalc.Proofs.Formula.Value
import PocketCalc.Proofs.Token.Language

namespace PocketCalc

open Number Entry

/-! ## 1. Reading the number at the end -/

namespace Token

open Text

variable {front back rest run : Text} {tokens : List Token} {first : Token} {c : Char}

/-- What starts with a digit or a point is read as a literal and what is behind it. -/
theorem scan_numeral (hc : isNumeralChar c = true) (h : scan (c :: rest) = .ok tokens) :
    ∃ literal left d more, c :: rest = literal ++ left ∧ Decimal.Literal literal d ∧
      scan left = .ok more ∧ tokens = .number d.toFloat :: more := by
  have hrun : ∀ x ∈ c :: rest.takeWhile isNumeralChar, isNumeralChar x = true :=
    List.forall_mem_cons.mpr ⟨hc, fun _ => mem_takeWhile⟩
  have hleft : ∀ x ∈ (rest.dropWhile isNumeralChar).head?, isNumeralChar x = false :=
    fun _ => not_of_mem_head?_dropWhile
  have hlexeme := lexeme_numeral hrun hleft
  rw [List.takeWhile_append_dropWhile, ofNumeral] at hlexeme
  cases hd : Decimal.ofText? (c :: rest.takeWhile isNumeralChar) with
  | none =>
    rw [hd] at hlexeme
    rw [scan_cons_of_error hlexeme] at h
    cases h
  | some d =>
    rw [hd] at hlexeme
    rw [scan_cons_of_ok hlexeme] at h
    obtain ⟨more, hmore, rfl⟩ := map_cons_eq_ok_iff.mp h
    refine ⟨_, _, d, more, ?_, Decimal.ofText?_eq_some_iff.mp hd, hmore, rfl⟩
    rw [List.cons_append, List.takeWhile_append_dropWhile]

theorem scan_percents (count : Nat) (rest : Text) :
    scan (List.replicate count '%' ++ rest) =
      (scan rest).map (List.replicate count (.suffix .percent) ++ ·) := by
  induction count with
  | zero =>
    show scan rest = _
    cases scan rest <;> rfl
  | succ count ih =>
    rw [List.replicate_succ, List.cons_append, scan_symbol rfl, ih]
    cases scan rest <;> simp [Except.map, List.replicate_succ]

/-- Where no operand is due, digits, points and percent signs are percent signs only. -/
theorem exists_percents (hrun : ∀ c ∈ run, isLastNumberChar c = true) (h : scan run = .ok tokens)
    (hfirst : first.opensOperand = false) (hchain : (first :: tokens).IsChain Neighbours) :
    ∃ count, run = List.replicate count '%' ∧
      tokens = List.replicate count (.suffix .percent) := by
  induction run generalizing first tokens with
  | nil =>
    rw [scan_nil] at h
    cases h
    exact ⟨0, rfl, rfl⟩
  | cons c run ih =>
    obtain ⟨hc, hrest⟩ := List.forall_mem_cons.mp hrun
    by_cases hpercent : c = '%'
    · subst hpercent
      rw [scan_symbol rfl] at h
      obtain ⟨more, hscan, rfl⟩ := map_cons_eq_ok_iff.mp h
      obtain ⟨count, rfl, rfl⟩ := ih hrest hscan rfl hchain.tail
      exact ⟨count + 1, rfl, rfl⟩
    · have hnumeral : isNumeralChar c = true := by
        simpa [isLastNumberChar, isNumeralChar, hpercent] using hc
      -- a number would start where no operand is due
      obtain ⟨-, -, d, more, -, -, -, rfl⟩ := scan_numeral hnumeral h
      have hdue := List.rel_of_isChain_cons_cons hchain rfl
      rw [hfirst] at hdue
      cases hdue

theorem squeeze_lastNumber (hrun : ∀ c ∈ run, isLastNumberChar c = true) : squeeze run = run := by
  refine squeeze_of_no_space ?_
  intro hspace
  exact absurd (hrun ' ' hspace) (by decide)

/-- The number at the end of a line is a literal with percent signs behind it, when operands
stand where they are due and the number does not go on with digits in front of a space. -/
theorem exists_lastNumber {entry : Text} (h : tokenize entry = .ok tokens)
    (hchain : tokens.IsChain Neighbours)
    (hnumber : ∃ c, (lastNumber entry).head? = some c ∧ isNumeralChar c = true)
    (hwhole : ∀ c ∈ (squeeze (beforeLastNumber entry)).getLast?, isNumeralChar c = false) :
    ∃ pre literal d count, tokenize (beforeLastNumber entry) = .ok pre ∧
      lastNumber entry = literal ++ List.replicate count '%' ∧ Decimal.Literal literal d ∧
        tokens = pre ++ .number d.toFloat :: List.replicate count (.suffix .percent) := by
  obtain ⟨c, hhead, hc⟩ := hnumber
  obtain ⟨rest, hrest⟩ := List.head?_eq_some_iff.mp hhead
  have hrun : ∀ c ∈ lastNumber entry, isLastNumberChar c = true :=
    fun c hc => isLastNumberChar_of_mem hc
  have hsqueeze := squeeze_lastNumber hrun
  have hapart : Separable (squeeze (beforeLastNumber entry)) (squeeze (lastNumber entry)) := by
    refine separable_numeral hwhole ?_
    rw [hsqueeze, hhead]
    intro d hd
    cases hd
    exact hc
  rw [← beforeLastNumber_append entry, tokenize_append_iff hapart] at h
  obtain ⟨pre, more, hpre, hmore, rfl⟩ := h
  rw [tokenize, hsqueeze, hrest] at hmore
  obtain ⟨literal, left, d, percents, hsplit, hliteral, hleft, rfl⟩ := scan_numeral hc hmore
  rw [hrest, hsplit] at hrun
  have hback : ∀ c ∈ left, isLastNumberChar c = true :=
    fun c hc => hrun c (List.mem_append_right _ hc)
  have htail := (List.isChain_append.mp hchain).2.1
  obtain ⟨count, rfl, rfl⟩ := exists_percents hback hleft rfl htail
  exact ⟨pre, literal, d, count, hpre, by rw [hrest, hsplit], hliteral, rfl⟩

end Token

/-! ## 2. Reading what the keys write -/

namespace Token

open Text

variable {before literal : Text} {pre : List Token} {d : Decimal}

/-- A sign change is read as a group with a minus sign in it. -/
theorem tokenize_signChange (hbefore : tokenize before = .ok pre)
    (hliteral : Decimal.Literal literal d) (count : Nat) :
    tokenize (before ++ ['(', '-'] ++ (literal ++ List.replicate count '%') ++ [')']) =
      .ok (pre ++ .openParen :: minus :: .number d.toFloat ::
        (List.replicate count (.suffix .percent) ++ [.closeParen])) := by
  have hdetached : ∀ c ∈ (List.replicate count '%' ++ [')']).head?, isNumeralChar c = false := by
    intro c hc
    cases count <;> (cases hc; decide)
  have hgroup : before ++ ['(', '-'] ++ (literal ++ List.replicate count '%') ++ [')'] =
      before ++ '(' :: '-' :: (literal ++ (List.replicate count '%' ++ [')'])) := by simp
  have hsqueeze : squeeze ('(' :: '-' :: (literal ++ (List.replicate count '%' ++ [')']))) =
      '(' :: '-' :: (literal ++ (List.replicate count '%' ++ [')'])) := by
    refine squeeze_of_no_space ?_
    simp [hliteral.space_not_mem]
  rw [hgroup, tokenize_append_iff (by rw [hsqueeze]; exact separable_symbol rfl)]
  refine ⟨pre, _, hbefore, ?_, rfl⟩
  rw [tokenize, hsqueeze, scan_symbol rfl, scan_symbol rfl, scan_literal hliteral hdetached,
    scan_percents, scan_symbol rfl, scan_nil]
  rfl

theorem toFloat_one : Decimal.toFloat ⟨1, 0⟩ = 1 := by
  decide +kernel

/-- One over a number is read as a division by a group. -/
theorem tokenize_reciprocal (hbefore : tokenize before = .ok pre)
    (hwhole : ∀ c ∈ (squeeze before).getLast?, isNumeralChar c = false)
    (hliteral : Decimal.Literal literal d) :
    tokenize (before ++ ['1', '/', '('] ++ literal ++ [')']) =
      .ok (pre ++ [.number 1, .operator (.binary .divide), .openParen, .number d.toFloat,
        .closeParen]) := by
  have hquotient : before ++ ['1', '/', '('] ++ literal ++ [')'] =
      before ++ (['1'] ++ '/' :: '(' :: (literal ++ [')'])) := by simp
  have hsqueeze : squeeze (['1'] ++ '/' :: '(' :: (literal ++ [')'])) =
      ['1'] ++ '/' :: '(' :: (literal ++ [')']) := by
    refine squeeze_of_no_space ?_
    simp [hliteral.space_not_mem]
  have hone : Decimal.Literal ['1'] ⟨1, 0⟩ := .whole (by simp) (by simp)
  have hapart : Separable (squeeze before)
      (squeeze (['1'] ++ '/' :: '(' :: (literal ++ [')']))) := by
    rw [hsqueeze]
    refine separable_numeral hwhole ?_
    intro c hc
    cases hc
    rfl
  rw [hquotient, tokenize_append_iff hapart]
  refine ⟨pre, _, hbefore, ?_, rfl⟩
  rw [tokenize, hsqueeze, scan_literal hone (by simp [isNumeralChar]), scan_symbol rfl,
    scan_symbol rfl, scan_literal hliteral (by simp [isNumeralChar]), scan_symbol rfl, scan_nil,
    toFloat_one]
  rfl

end Token

/-! ## 3. The sign key -/

namespace Entry

open Expression Formula Token

variable {entry before literal : Text} {d : Decimal}

theorem toggleSign_toggleSign (h : lastNumber entry ≠ []) :
    toggleSign (toggleSign entry) = entry := by
  rw [toggleSign_number h, toggleSign_negated h fun c hc => isLastNumberChar_of_mem hc,
    beforeLastNumber_append]

/-- The number at the end is there when the last character belongs to one. -/
theorem lastNumber_ne_nil {c : Char} (hlast : entry.getLast? = some c)
    (hc : isLastNumberChar c = true) : lastNumber entry ≠ [] := by
  intro hnone
  have hsplit := beforeLastNumber_append entry
  rw [hnone, List.append_nil] at hsplit
  rw [← hsplit] at hlast
  rw [not_isLastNumberChar_of_getLast? hlast] at hc
  cases hc

/-- Pressing the sign key twice gives back every line that ends with a digit, a point or a percent
sign. When the line is a well-formed expression, its number at the end starts with a digit or a
point and goes on no number in front of a space, then the tree has a last operand, that operand
is the number with its percent signs, and pressing the key once gives a line worth the tree with the
operand negated. -/
theorem toggleSign_lastOperand (entry : Text) :
    (∀ c, entry.getLast? = some c → isLastNumberChar c = true →
      toggleSign (toggleSign entry) = entry) ∧
    ∀ x : Formula .sum, tokenize entry = .ok x.tokens →
      (∃ c, (lastNumber entry).head? = some c ∧ isNumeralChar c = true) →
      (∀ c ∈ (squeeze (beforeLastNumber entry)).getLast?, isNumeralChar c = false) →
      (∃ (front : Front .sum .suffixed) (operand : Formula .suffixed), front.fill operand = x) ∧
      ∀ (front : Front .sum .suffixed) (operand : Formula .suffixed), front.fill operand = x →
        (∃ literal d count, lastNumber entry = literal ++ List.replicate count '%' ∧
          Decimal.Literal literal d ∧
          operand = (Formula.number d.toFloat).withSuffixes (List.replicate count .percent)) ∧
        ∀ unit, evaluate unit (toggleSign entry) =
          .ok ((front.fill operand.negated).value unit) := by
  constructor
  · intro c hlast hc
    exact toggleSign_toggleSign (lastNumber_ne_nil hlast hc)
  · intro x hx hnumber hwhole
    refine ⟨exists_operand x (by decide), ?_⟩
    rintro front operand rfl
    obtain ⟨pre, literal, d, count, hpre, hlast, hliteral, htokens⟩ :=
      exists_lastNumber hx (isChain_tokensWith _ _) hnumber hwhole
    rw [tokens, Front.tokensWith_fill, ← List.map_replicate] at htokens
    obtain ⟨rfl, rfl⟩ := operand_of_tokens htokens
    refine ⟨⟨literal, d, count, hlast, hliteral, rfl⟩, ?_⟩
    intro unit
    refine evaluate_of_tokens ?_ unit
    have hne : lastNumber entry ≠ [] := by
      rw [hlast]
      simp [hliteral.ne_nil]
    rw [toggleSign_number hne, hlast, tokenize_signChange hpre hliteral]
    simp [Front.tokensWith_fill, tokensWith_withSuffixes, tokensWith]

/-- Two times a power of three whose exponent has a minus sign. -/
def timesPower : Front .sum .suffixed :=
  .ofProduct (.binary .times (ofPower (ofSigned (ofSuffixed (ofAtom (.number 2)))))
    (.binary .power (ofSuffixed (ofAtom (.number 3))) (.ofSigned (.negate (.ofSuffixed .here)))))

/-- A percentage in an exponent, behind a minus sign and a space. -/
theorem toggleSign_lastOperand_exponent :
    toggleSign "2*3^- 5%".toList = "2*3^- (-5%)".toList ∧
    toggleSign "2*3^- (-5%)".toList = "2*3^- 5%".toList ∧
    evaluate .degrees (toggleSign "2*3^- 5%".toList) = .ok (2 * Float.pow 3 (- -(5 / 100))) := by
  have htwo : Decimal.toFloat ⟨2, 0⟩ = 2 := by decide +kernel
  have hthree : Decimal.toFloat ⟨3, 0⟩ = 3 := by decide +kernel
  have hfive : Decimal.toFloat ⟨5, 0⟩ = 5 := by decide +kernel
  have htokens : tokenize "2*3^- 5%".toList =
      .ok (timesPower.fill ((Formula.number 5).withSuffixes [.percent])).tokens := by
    have hscan : tokenize "2*3^- 5%".toList = .ok [.number (Decimal.toFloat ⟨2, 0⟩),
        .operator (.binary .times), .number (Decimal.toFloat ⟨3, 0⟩), .operator (.binary .power),
        minus, .number (Decimal.toFloat ⟨5, 0⟩), .suffix .percent] := by
      with_unfolding_all rfl
    rw [hscan, htwo, hthree, hfive]
    rfl
  obtain ⟨htwice, hvalue⟩ := toggleSign_lastOperand "2*3^- 5%".toList
  have hlast : (squeeze (beforeLastNumber "2*3^- 5%".toList)).getLast? = some '-' := by decide
  have hwhole : ∀ c ∈ (squeeze (beforeLastNumber "2*3^- 5%".toList)).getLast?,
      isNumeralChar c = false := by
    rintro c hc
    cases hlast.symm.trans hc
    rfl
  obtain ⟨-, hoperand⟩ := hvalue _ htokens ⟨'5', by decide⟩ hwhole
  have htoggle : toggleSign "2*3^- 5%".toList = "2*3^- (-5%)".toList := by decide
  refine ⟨htoggle, ?_, (hoperand _ _ rfl).2 .degrees⟩
  rw [← htoggle]
  exact htwice '%' (by decide) (by decide)

/-- The evaluator takes the space out of the number, the key does not. -/
theorem toggleSign_split_number :
    tokenize "1 2".toList = .ok (toSum (Formula.number (Decimal.toFloat ⟨12, 0⟩))).tokens ∧
    lastNumber "1 2".toList = ['2'] ∧ toggleSign "1 2".toList = "1 (-2)".toList ∧
    evaluate .degrees (toggleSign "1 2".toList) = .error (.evaluation .invalidExpression) ∧
    ((ofAtom (Formula.number (Decimal.toFloat ⟨12, 0⟩))).negated.value .degrees) = -12 := by
  have htoggle : toggleSign "1 2".toList = "1 (-2)".toList := by decide
  have htokens : tokenize "1 (-2)".toList = .ok [.number (Decimal.toFloat ⟨1, 0⟩), .openParen,
      minus, .number (Decimal.toFloat ⟨2, 0⟩), .closeParen] := by
    with_unfolding_all rfl
  refine ⟨by with_unfolding_all rfl, by decide, htoggle, ?_, by decide +kernel⟩
  rw [htoggle, evaluate_of_tokenize (by decide) htokens]
  rfl

/-! ## 4. The reciprocal key -/

/-- No percent sign stands in front of a number, where operands stand where they are due. -/
theorem not_percent {tokens : List Token} (h : tokenize before = .ok tokens)
    (hdue : ∀ token ∈ tokens.getLast?, token.opensOperand = true) :
    before.getLast? ≠ some '%' := by
  intro hlast
  obtain ⟨front, rfl⟩ := List.getLast?_eq_some_iff.mp hlast
  obtain ⟨pre, more, -, hmore, rfl⟩ := (tokenize_append_iff (separable_symbol rfl)).mp h
  have hpercent : tokenize ['%'] = .ok [.suffix .percent] := by
    with_unfolding_all rfl
  rw [hpercent] at hmore
  cases hmore
  cases hdue (.suffix .percent) (by simp)

/-- A literal at the end of a well-formed expression is the number that the keys find. -/
theorem exists_lastLiteral {tokens : List Token} (h : tokenize (before ++ literal) = .ok tokens)
    (hchain : tokens.IsChain Neighbours) (hliteral : Decimal.Literal literal d)
    (hwhole : ∀ c ∈ (squeeze before).getLast?, isNumeralChar c = false) :
    ∃ pre, tokenize before = .ok pre ∧ tokens = pre ++ [.number d.toFloat] ∧
      lastNumber (before ++ literal) = literal ∧ beforeLastNumber (before ++ literal) = before := by
  have hrun : ∀ c ∈ literal, isLastNumberChar c = true := by
    intro c hc
    have hnumeral := hliteral.isNumeralChar c hc
    simp only [isNumeralChar, Bool.or_eq_true] at hnumeral
    simp only [isLastNumberChar, Bool.or_eq_true]
    exact Or.inl hnumeral
  have hsqueeze := squeeze_lastNumber hrun
  have hapart : Separable (squeeze before) (squeeze literal) := by
    rw [hsqueeze]
    exact separable_numeral hwhole fun c hc =>
      hliteral.isNumeralChar c (List.mem_of_mem_head? hc)
  obtain ⟨pre, more, hpre, hmore, rfl⟩ := (tokenize_append_iff hapart).mp h
  rw [tokenize, hsqueeze, (Means.numeral hliteral).scan] at hmore
  cases hmore
  refine ⟨pre, hpre, rfl, lastNumber_append hrun ?_⟩
  intro c hc
  refine Bool.eq_false_iff.mpr ?_
  intro hnumber
  have hpercent : c ≠ '%' := by
    rintro rfl
    refine not_percent hpre ?_ hc
    intro token htoken
    exact (List.isChain_append.mp hchain).2.2 token htoken _ rfl rfl
  have hspace : c ≠ ' ' := by
    rintro rfl
    cases hnumber
  have hlast : c ∈ (squeeze before).getLast? := by
    obtain ⟨front, rfl⟩ := List.getLast?_eq_some_iff.mp hc
    simp [squeeze, hspace]
  have hnumeral : isNumeralChar c = true := by
    simpa [isLastNumberChar, isNumeralChar, hpercent] using hnumber
  rw [hwhole c hlast] at hnumeral
  cases hnumeral

/-- When the line is a well-formed expression that ends with a literal, and the literal goes on no
number in front of a space, then the literal is the last leaf of the tree, and pressing the
reciprocal key gives a line worth the tree whose last term has one for its last leaf and is
divided by the number. That is the tree with the reciprocal for its last leaf, when nothing but
minus signs stands in front of the literal in its term. -/
theorem evaluate_invert {before literal : Text} {d : Decimal} {x : Formula .sum}
    (hx : tokenize (before ++ literal) = .ok x.tokens) (hliteral : Decimal.Literal literal d)
    (hwhole : ∀ c ∈ (squeeze before).getLast?, isNumeralChar c = false) :
    (∃ (outer : Front .sum .product) (inner : Front .product .suffixed),
      outer.fill (inner.fill (ofAtom (.number d.toFloat))) = x) ∧
    ∀ (outer : Front .sum .product) (inner : Front .product .suffixed),
      outer.fill (inner.fill (ofAtom (.number d.toFloat))) = x →
      (∀ unit, evaluate unit (invert (before ++ literal)) =
        .ok ((outer.fill ((inner.fill (ofAtom (.number 1))).dividedBy
          (toSum (.number d.toFloat)))).value unit)) ∧
      ((∀ token ∈ inner.signedTokens, token = .operator .negate) →
        ∀ unit, evaluate unit (invert (before ++ literal)) =
          .ok ((outer.fill (inner.fill (ofAtom (.number (1 / d.toFloat))))).value unit)) := by
  obtain ⟨pre, hpre, htokens, hlast, hbefore⟩ :=
    exists_lastLiteral hx (isChain_tokensWith _ _) hliteral hwhole
  constructor
  · obtain ⟨outer, term, rfl⟩ := exists_term x rfl
    obtain ⟨inner, operand, rfl⟩ := exists_operand term (by decide)
    rw [tokens, Front.tokensWith_fill, Front.tokensWith_fill, ← List.append_assoc] at htokens
    obtain ⟨rfl, -⟩ := @operand_of_tokens _ _ _ _ [] htokens
    exact ⟨outer, inner, rfl⟩
  · rintro outer inner rfl
    rw [tokens, Front.tokensWith_fill, Front.tokensWith_fill, ← List.append_assoc] at htokens
    obtain ⟨-, rfl⟩ := @operand_of_tokens _ _ _ _ [] htokens
    have hvalue : ∀ unit, evaluate unit (invert (before ++ literal)) =
        .ok ((outer.fill ((inner.fill (ofAtom (.number 1))).dividedBy
          (toSum (.number d.toFloat)))).value unit) := by
      refine evaluate_of_tokens ?_
      have hne : lastNumber (before ++ literal) ≠ [] := by
        rw [hlast]
        exact hliteral.ne_nil
      rw [invert_number hne, hlast, hbefore, tokenize_reciprocal hpre hwhole hliteral]
      simp [Front.tokensWith_fill, tokensWith]
    refine ⟨hvalue, ?_⟩
    intro hsigns unit
    have hterm : ((inner.fill (ofAtom (.number 1))).dividedBy (toSum (.number d.toFloat))).value
        unit = (inner.fill (ofAtom (.number (1 / d.toFloat)))).value unit :=
      inner.value_fill_div hsigns rfl
    rw [hvalue, outer.value_fill_congr hterm]

/-- Six halves less a term to come. -/
def sixHalvesLess : Front .sum .product :=
  .binary .minus (ofProduct (.binary .divide (ofPower (ofSigned (ofSuffixed (ofAtom (.number 6)))))
    (ofSigned (ofSuffixed (ofAtom (.number 2)))))) .here

/-- A term that is a minus sign and an operand to come. -/
def minusSigned : Front .product .suffixed :=
  .ofPower (.ofSigned (.negate (.ofSuffixed .here)))

/-- A negative number behind a quotient and a difference. -/
theorem evaluate_invert_negative :
    invert ("6/2- -".toList ++ "8".toList) = "6/2- -1/(8)".toList ∧
    evaluate .degrees (invert ("6/2- -".toList ++ "8".toList)) = .ok (6 / 2 - -(1 / 8)) := by
  have htwo : Decimal.toFloat ⟨2, 0⟩ = 2 := by decide +kernel
  have hsix : Decimal.toFloat ⟨6, 0⟩ = 6 := by decide +kernel
  have height : Decimal.toFloat ⟨8, 0⟩ = 8 := by decide +kernel
  have htokens : tokenize ("6/2- -".toList ++ "8".toList) =
      .ok (sixHalvesLess.fill
        (minusSigned.fill (ofAtom (.number (Decimal.toFloat ⟨8, 0⟩))))).tokens := by
    have hscan : tokenize ("6/2- -".toList ++ "8".toList) = .ok [.number (Decimal.toFloat ⟨6, 0⟩),
        .operator (.binary .divide), .number (Decimal.toFloat ⟨2, 0⟩), minus, minus,
        .number (Decimal.toFloat ⟨8, 0⟩)] := by
      with_unfolding_all rfl
    rw [hscan, htwo, hsix]
    rfl
  have hliteral : Decimal.Literal "8".toList ⟨8, 0⟩ := .whole (by simp) (by simp)
  have hlast : (squeeze "6/2- -".toList).getLast? = some '-' := by decide
  have hwhole : ∀ c ∈ (squeeze "6/2- -".toList).getLast?, isNumeralChar c = false := by
    rintro c hc
    cases hlast.symm.trans hc
    rfl
  obtain ⟨-, hleaf⟩ := evaluate_invert htokens hliteral hwhole
  have hsigns : ∀ token ∈ minusSigned.signedTokens, token = .operator .negate := by
    simp [minusSigned, Front.signedTokens, Front.tokensWith]
  refine ⟨by decide, ?_⟩
  rw [(hleaf sixHalvesLess minusSigned rfl).2 hsigns .degrees, height]
  rfl

/-- Eight over the last number. -/
def eightOver : Front .product .suffixed :=
  .binary .divide (ofPower (ofSigned (ofSuffixed (ofAtom (.number 8)))))
    (.ofSigned (.ofSuffixed .here))

/-- The divisor eight is divided by does not become its reciprocal. -/
theorem invert_divisor :
    tokenize ("8/".toList ++ "4".toList) =
      .ok (ofProduct (eightOver.fill (ofAtom (.number (Decimal.toFloat ⟨4, 0⟩))))).tokens ∧
    Decimal.Literal "4".toList ⟨4, 0⟩ ∧
    invert ("8/".toList ++ "4".toList) = "8/1/(4)".toList ∧
    evaluate .degrees (invert ("8/".toList ++ "4".toList)) = .ok 2 ∧
    (ofProduct (eightOver.fill (ofAtom (.number (1 / Decimal.toFloat ⟨4, 0⟩))))).value .degrees
      = 32 ∧
    (2 : Float) ≠ 32 := by
  have hinvert : invert ("8/".toList ++ "4".toList) = "8/1/(4)".toList := by decide
  have height : Decimal.toFloat ⟨8, 0⟩ = 8 := by decide +kernel
  have htokens : tokenize "8/1/(4)".toList = .ok [.number (Decimal.toFloat ⟨8, 0⟩),
      .operator (.binary .divide), .number (Decimal.toFloat ⟨1, 0⟩), .operator (.binary .divide),
      .openParen, .number (Decimal.toFloat ⟨4, 0⟩), .closeParen] := by
    with_unfolding_all rfl
  have hvalue : Decimal.toFloat ⟨8, 0⟩ / Decimal.toFloat ⟨1, 0⟩ / Decimal.toFloat ⟨4, 0⟩ = 2 := by
    decide +kernel
  refine ⟨?_, .whole (by simp) (by simp), hinvert, ?_, by decide +kernel, by decide +kernel⟩
  · have hscan : tokenize ("8/".toList ++ "4".toList) = .ok [.number (Decimal.toFloat ⟨8, 0⟩),
        .operator (.binary .divide), .number (Decimal.toFloat ⟨4, 0⟩)] := by
      with_unfolding_all rfl
    rw [hscan, height]
    rfl
  · rw [hinvert, evaluate_of_tokenize (by decide) htokens, ← hvalue]
    rfl

end Entry

end PocketCalc
