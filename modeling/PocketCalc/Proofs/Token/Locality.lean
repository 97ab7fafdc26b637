/-
PocketCalc.Proofs.Token.Locality — a text that is cut between two runs is
read part by part.

The scan looks ahead: a numeral and a word are read as far as they go, a
`p` is looked at together with the next character, and so is an `e`. But it
never looks beyond a run of digits and points or a run of letters. So a cut
that splits no run (`Separable`) changes no lexeme in front of it
(`lexeme_append`), and behind it the scan starts afresh (`scan_append`).

Main statement: `tokenize_append`.
-/
import PocketCalc.Proofs.Token.Faults

namespace PocketCalc.Token

open Text Number

variable {c : Char} {front back rest : Text} {tokens : List Token} {fault : SyntaxFault}

/-! ## 1. Cuts that split no run -/

/-- Whether two characters in a row belong to one run. -/
def joins (c d : Char) : Bool :=
  isNumeralChar c && isNumeralChar d || isAlphabetic c && isAlphabetic d

theorem joins_eq_false_iff {c d : Char} :
    joins c d = false ↔
      (isNumeralChar c = true → isNumeralChar d = false) ∧
        (isAlphabetic c = true → isAlphabetic d = false) := by
  simp [joins]

/-- The last character of one text and the first of the next belong to no common run. -/
def Separable (front back : Text) : Prop :=
  ∀ c ∈ front.getLast?, ∀ d ∈ back.head?, joins c d = false

instance (front back : Text) : Decidable (Separable front back) :=
  decidable_of_iff ((front.getLast?.all fun c => back.head?.all fun d => !joins c d) = true)
    (by simp [Separable, Option.all_eq_true])

/-- The cut stays where it is when something is taken off the front. -/
theorem Separable.of_append (h : Separable (front ++ rest) back) : Separable rest back := by
  intro c hc
  refine h c ?_
  rw [List.getLast?_append, hc]
  rfl

/-- A numeral joins with nothing that belongs to no numeral. -/
theorem separable_numeral (hfront : ∀ c ∈ front.getLast?, isNumeralChar c = false)
    (hback : ∀ d ∈ back.head?, isNumeralChar d = true) : Separable front back := by
  intro c hc d hd
  refine joins_eq_false_iff.mpr ⟨?_, ?_⟩
  · intro hnumeral
    rw [hfront c hc] at hnumeral
    cases hnumeral
  · intro _
    refine Bool.eq_false_iff.mpr ?_
    intro hletter
    have hother := isNumeralChar_of_isAlphabetic hletter
    rw [hback d hd] at hother
    cases hother

/-- A symbol joins with nothing. -/
theorem separable_symbol {token : Token} (h : ofSymbol? c = some token) :
    Separable front (c :: rest) := by
  obtain ⟨hnumeral, hletter⟩ := not_piece_of_ofSymbol? h
  rintro x - d hd
  cases hd
  simp [joins, hnumeral, hletter]

/-- A run that a text begins with ends in front of the cut. -/
theorem run_append {p : Char → Bool} (hc : p c = true)
    (hcut : ∀ x ∈ (c :: rest).getLast?, p x = true → ∀ y ∈ back.head?, p y = false) :
    (rest ++ back).takeWhile p = rest.takeWhile p ∧
      (rest ++ back).dropWhile p = rest.dropWhile p ++ back := by
  induction rest generalizing c with
  | nil =>
    have hback : ∀ y ∈ back.head?, p y = false := hcut c rfl hc
    cases back with
    | nil => simp
    | cons y back => simp [hback y rfl]
  | cons x rest ih =>
    rw [List.getLast?_cons_cons] at hcut
    by_cases hx : p x = true
    · simpa [hx] using ih hx hcut
    · simp [hx]

/-! ## 2. One reading after the other -/

/-- What two texts are read as, one after the other: all their tokens, or the first fault. -/
def inTurn (first second : Except SyntaxFault (List Token)) : Except SyntaxFault (List Token) :=
  first.bind fun tokens => second.map (tokens ++ ·)

theorem inTurn_eq_ok_iff {first second : Except SyntaxFault (List Token)} :
    inTurn first second = .ok tokens ↔
      ∃ front back, first = .ok front ∧ second = .ok back ∧ front ++ back = tokens := by
  cases first <;> cases second <;> simp [inTurn, Except.bind, Except.map]

theorem inTurn_eq_error_iff {first second : Except SyntaxFault (List Token)} :
    inTurn first second = .error fault ↔
      first = .error fault ∨ (∃ tokens, first = .ok tokens) ∧ second = .error fault := by
  cases first <;> cases second <;> simp [inTurn, Except.bind, Except.map]

theorem map_cons_eq_ok_iff {first : Token} {read : Except SyntaxFault (List Token)} :
    read.map (first :: ·) = .ok tokens ↔ ∃ more, read = .ok more ∧ first :: more = tokens := by
  cases read <;> simp [Except.map]

/-! ## 3. The scan of a text that is cut -/

/-- A cut that splits no run changes no lexeme in front of it. -/
theorem lexeme_append (h : Separable (c :: rest) back) :
    lexeme c (rest ++ back) =
      (lexeme c rest).map fun (token, left) => (token, left ++ back) := by
  -- what is asked about the character behind `c` has the same answer
  have hpi : (c = 'p' ∧ (rest ++ back).head? = some 'i') ↔ (c = 'p' ∧ rest.head? = some 'i') := by
    cases rest with
    | nil =>
      refine and_congr_right ?_
      rintro rfl
      have hback : back.head? ≠ some 'i' := by
        intro hi
        exact absurd (h 'p' rfl 'i' hi) (by decide)
      simp [hback]
    | cons x rest => rfl
  have he : (c = 'e' ∧ (rest ++ back).head?.any isAlphabetic = false) ↔
      (c = 'e' ∧ rest.head?.any isAlphabetic = false) := by
    cases rest with
    | nil =>
      refine and_congr_right ?_
      rintro rfl
      have hback : back.head?.any isAlphabetic = false := by
        cases back with
        | nil => rfl
        | cons d back => exact (joins_eq_false_iff.mp (h 'e' rfl d rfl)).2 (by decide)
      simpa using hback
    | cons x rest => rfl
  simp only [lexeme, hpi, he]
  split
  · rename_i hc
    obtain ⟨htake, hdrop⟩ := run_append hc fun x hx hnum y hy =>
      (joins_eq_false_iff.mp (h x hx y hy)).1 hnum
    rw [htake, hdrop]
    cases ofNumeral (c :: rest.takeWhile isNumeralChar) <;> rfl
  · split
    · rename_i hi
      obtain ⟨tail, rfl⟩ := List.head?_eq_some_iff.mp hi.2
      rfl
    · split
      · rfl
      · split
        · rename_i hc
          obtain ⟨htake, hdrop⟩ := run_append hc fun x hx halpha y hy =>
            (joins_eq_false_iff.mp (h x hx y hy)).2 halpha
          rw [htake, hdrop]
          cases ofWord (c :: rest.takeWhile isAlphabetic) <;> rfl
        · cases ofSymbol? c <;> rfl

/-- Behind a cut that splits no run the scan starts afresh. -/
theorem scan_append (h : Separable front back) :
    scan (front ++ back) = inTurn (scan front) (scan back) := by
  fun_induction scan front with
  | case1 =>
    rw [List.nil_append]
    cases scan back <;> rfl
  | case2 c rest token left hlex _ ih =>
    obtain ⟨piece, hpiece, -⟩ := exists_piece_of_lexeme hlex
    have hleft : Separable left back := by
      rw [hpiece] at h
      exact h.of_append
    have hback := lexeme_append h
    rw [hlex] at hback
    rw [List.cons_append, scan_cons_of_ok hback, ih hleft]
    cases scan left <;> cases scan back <;> rfl
  | case3 c rest fault hlex =>
    have hback := lexeme_append h
    rw [hlex] at hback
    rw [List.cons_append, scan_cons_of_error hback]
    rfl

/-! ## 4. Reading part by part -/

theorem squeeze_append (front back : Text) :
    squeeze (front ++ back) = squeeze front ++ squeeze back :=
  List.filter_append ..

theorem tokenize_append_iff (h : Separable (squeeze front) (squeeze back)) :
    tokenize (front ++ back) = .ok tokens ↔
      ∃ pre more, tokenize front = .ok pre ∧ tokenize back = .ok more ∧ pre ++ more = tokens := by
  rw [tokenize, squeeze_append, scan_append h]
  exact inTurn_eq_ok_iff

/-- Two texts, written one behind the other, are read one after the other when, spaces
apart, no run of digits and points and no run of letters goes on from the first to the second:
the fault of the first is the fault of the whole, then that of the second is, and without
one their tokens are joined. -/
theorem tokenize_append {front back : Text} (h : Separable (squeeze front) (squeeze back)) :
    (∀ fault, tokenize front = .error fault → tokenize (front ++ back) = .error fault) ∧
    (∀ tokens fault, tokenize front = .ok tokens → tokenize back = .error fault →
      tokenize (front ++ back) = .error fault) ∧
    (∀ tokens more, tokenize front = .ok tokens → tokenize back = .ok more →
      tokenize (front ++ back) = .ok (tokens ++ more)) := by
  have happend : tokenize (front ++ back) = inTurn (tokenize front) (tokenize back) := by
    rw [tokenize, squeeze_append, scan_append h]
    rfl
  rw [happend]
  refine ⟨?_, ?_, ?_⟩
  · intro fault hfront
    exact inTurn_eq_error_iff.mpr (Or.inl hfront)
  · intro tokens fault hfront hback
    exact inTurn_eq_error_iff.mpr (Or.inr ⟨⟨tokens, hfront⟩, hback⟩)
  · intro tokens more hfront hback
    exact inTurn_eq_ok_iff.mpr ⟨tokens, more, hfront, hback, rfl⟩

/-- A root is written in front of a number, and of two bad texts the front one is reported. -/
theorem tokenize_append_wrapped :
    tokenize ("sqrt ( ".toList ++ " 1 2.5".toList) =
      .ok ([.function .sqrt, .openParen] ++ [.number (Decimal.toFloat ⟨125, 1⟩)]) ∧
    tokenize ("2pi".toList ++ "(foo".toList) = .error (.unknownName "foo".toList) ∧
    tokenize ("1.2.3".toList ++ "(foo".toList) = .error (.badNumber "1.2.3".toList) := by
  have hwrap : Separable (squeeze "sqrt ( ".toList) (squeeze " 1 2.5".toList) := by decide
  have hname : Separable (squeeze "2pi".toList) (squeeze "(foo".toList) := by decide
  have hnumber : Separable (squeeze "1.2.3".toList) (squeeze "(foo".toList) := by decide
  have hroot : tokenize "sqrt ( ".toList = .ok [.function .sqrt, .openParen] := by
    with_unfolding_all rfl
  have hresult : tokenize " 1 2.5".toList = .ok [.number (Decimal.toFloat ⟨125, 1⟩)] := by
    with_unfolding_all rfl
  have hproduct : tokenize "2pi".toList =
      .ok [.number (Decimal.toFloat ⟨2, 0⟩), .number pi] := by
    with_unfolding_all rfl
  have hfoo : tokenize "(foo".toList = .error (.unknownName "foo".toList) := by
    with_unfolding_all rfl
  have hpoints : tokenize "1.2.3".toList = .error (.badNumber "1.2.3".toList) := by
    with_unfolding_all rfl
  exact ⟨(tokenize_append hwrap).2.2 _ _ hroot hresult,
    (tokenize_append hname).2.1 _ _ hproduct hfoo, (tokenize_append hnumber).1 _ hpoints⟩

end PocketCalc.Token
