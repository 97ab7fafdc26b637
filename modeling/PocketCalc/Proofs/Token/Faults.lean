/-
PocketCalc.Proofs.Token.Faults — where a scan fails.

A scan fails at one lexeme (`Fails`): a numeral that is none, a word that
is no name, or a character that is nothing at all. Numerals are read as
far as they go, so in front of the one that fails no part of it stands
(`scan_error`): it is a longest run of digits and points of the text.
-/
import Mathlib.Data.List.Basic
import PocketCalc.Proofs.Token.Reading

namespace PocketCalc

namespace Token

open Text Number

/-- Whether a character can be part of a lexeme. -/
def isAccepted (c : Char) : Bool :=
  isNumeralChar c || isAlphabetic c || (ofSymbol? c).isSome

/-- The fault of the lexeme at the front of a text. -/
inductive Fails (c : Char) (rest : Text) : SyntaxFault → Prop where
  | number (hc : isNumeralChar c = true)
      (hnumeral : Decimal.ofText? (c :: rest.takeWhile isNumeralChar) = none) :
      Fails c rest (.badNumber (c :: rest.takeWhile isNumeralChar))
  | name (hc : isAlphabetic c = true)
      (hword : MathFunction.ofName? ((c :: rest.takeWhile isAlphabetic).map Char.toLower) = none) :
      Fails c rest (.unknownName (c :: rest.takeWhile isAlphabetic))
  | char (hnumeral : isNumeralChar c = false) (hletter : isAlphabetic c = false)
      (hsymbol : ofSymbol? c = none) : Fails c rest (.unexpectedChar c)

theorem fails_of_lexeme {c : Char} {rest : Text} {fault : SyntaxFault}
    (h : lexeme c rest = .error fault) : Fails c rest fault := by
  unfold lexeme at h
  split at h
  · rename_i hc
    cases hd : Decimal.ofText? (c :: rest.takeWhile isNumeralChar) with
    | none =>
      simp only [ofNumeral, hd, Except.map, Except.error.injEq] at h
      exact h ▸ .number hc hd
    | some d => simp [ofNumeral, hd, Except.map] at h
  · rename_i hnumeral
    split at h
    · cases h
    · split at h
      · cases h
      · split at h
        · rename_i hc
          unfold ofWord at h
          split at h
          · cases h
          · rename_i hword
            cases h
            exact .name hc hword
        · rename_i hletter
          split at h
          · cases h
          · rename_i hsymbol
            cases h
            exact .char (by simpa using hnumeral) (by simpa using hletter) hsymbol

/-- A lexeme ends where a numeral ends: either its last character belongs to no numeral or
what is left does not go on with one. -/
theorem exists_piece_of_lexeme {c : Char} {rest left : Text} {token : Token}
    (h : lexeme c rest = .ok (token, left)) :
    ∃ piece, c :: rest = piece ++ left ∧
      ((∀ x ∈ piece.getLast?, isNumeralChar x = false) ∨
        ∀ x ∈ left.head?, isNumeralChar x = false) := by
  have run_left : ∀ {p : Char → Bool} {found : Except SyntaxFault Token},
      found.map (·, rest.dropWhile p) = .ok (token, left) →
        c :: rest = (c :: rest.takeWhile p) ++ left ∧ left = rest.dropWhile p := by
    intro p found hfound
    cases found with
    | error fault => cases hfound
    | ok t =>
      cases hfound
      rw [List.cons_append, List.takeWhile_append_dropWhile]
      exact ⟨rfl, rfl⟩
  unfold lexeme at h
  split at h
  · obtain ⟨hpiece, hleft⟩ := run_left h
    refine ⟨_, hpiece, Or.inr ?_⟩
    intro x hx
    rw [hleft] at hx
    exact not_of_mem_head?_dropWhile hx
  · rename_i hnumeral
    split at h
    · rename_i hpi
      obtain ⟨rfl, hi⟩ := hpi
      obtain ⟨tail, rfl⟩ := List.head?_eq_some_iff.mp hi
      cases h
      exact ⟨['p', 'i'], rfl, Or.inl (by simp [isNumeralChar])⟩
    · split at h
      · rename_i he
        obtain ⟨rfl, -⟩ := he
        cases h
        exact ⟨['e'], rfl, Or.inl (by simp [isNumeralChar])⟩
      · split at h
        · rename_i hc
          obtain ⟨hpiece, -⟩ := run_left h
          refine ⟨_, hpiece, Or.inl ?_⟩
          intro x hx
          rcases List.mem_cons.mp (List.mem_of_getLast? hx) with rfl | hmem
          · exact isNumeralChar_of_isAlphabetic hc
          · exact isNumeralChar_of_isAlphabetic (mem_takeWhile hmem)
        · split at h
          · cases h
            exact ⟨[c], rfl, Or.inl (by simpa using hnumeral)⟩
          · cases h

/-- A scan that fails has met a lexeme that fails. A numeral that fails is not the end of a
longer run of its characters. -/
theorem scan_error {text : Text} {fault : SyntaxFault} (h : scan text = .error fault) :
    ∃ front c rest, text = front ++ c :: rest ∧ Fails c rest fault ∧
      (isNumeralChar c = true → ∀ x ∈ front.getLast?, isNumeralChar x = false) := by
  fun_induction scan text with
  | case1 => cases h
  | case2 c rest token left hlex _ ih =>
    have hleft : scan left = .error fault := by
      cases hscan : scan left with
      | ok tokens => simp [hscan, Except.map] at h
      | error other => simpa [hscan, Except.map] using h
    obtain ⟨piece, hpiece, hends⟩ := exists_piece_of_lexeme hlex
    obtain ⟨front, d, tail, rfl, hfails, hfront⟩ := ih hleft
    refine ⟨piece ++ front, d, tail, by rw [hpiece, List.append_assoc], hfails, ?_⟩
    intro hd x hx
    rcases List.eq_nil_or_concat' front with rfl | ⟨front, last, rfl⟩
    · rw [List.append_nil] at hx
      rcases hends with hlast | hhead
      · exact hlast x hx
      · rw [hhead d rfl] at hd
        cases hd
    · rw [← List.append_assoc, List.getLast?_concat] at hx
      exact hfront hd x (by rwa [List.getLast?_concat])
  | case3 c rest other hlex =>
    cases h
    exact ⟨[], c, rest, rfl, fails_of_lexeme hlex, by simp⟩

/-- No lexeme is refused for its parentheses. -/
theorem tokenize_ne_unmatchedParens (text : Text) : tokenize text ≠ .error .unmatchedParens := by
  intro herror
  obtain ⟨front, c, rest, -, hfails, -⟩ := scan_error herror
  cases hfails

theorem squeeze_of_no_space {text : Text} (h : ' ' ∉ text) : squeeze text = text := by
  refine List.filter_eq_self.mpr ?_
  intro c hc
  have hne : c ≠ ' ' := by
    rintro rfl
    exact h hc
  simpa using hne

/-- A space is no part of a lexeme. -/
theorem space_not_mem_of_accepted {text : Text} (h : ∀ c ∈ text, isAccepted c = true) :
    ' ' ∉ text := by
  intro hmem
  exact absurd (h _ hmem) (by decide +kernel)

/-- A text of characters that can be part of a lexeme has no unexpected one. -/
theorem tokenize_ne_unexpectedChar {text : Text} (h : ∀ c ∈ text, isAccepted c = true)
    (c : Char) : tokenize text ≠ .error (.unexpectedChar c) := by
  intro herror
  rw [tokenize, squeeze_of_no_space (space_not_mem_of_accepted h)] at herror
  obtain ⟨front, first, rest, rfl, hfails, -⟩ := scan_error herror
  cases hfails with
  | char hnumeral hletter hsymbol =>
    have haccepted := h c (by simp)
    simp [isAccepted, hnumeral, hletter, hsymbol] at haccepted

end Token

end PocketCalc
