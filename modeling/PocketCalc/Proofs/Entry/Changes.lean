/-
PocketCalc.Proofs.Entry.Changes — what a key does to the line.

The keys that edit the line write at its end, replace its last character,
take something off its end, or put the last number in parentheses and take
these off again. `Change` lists the ways, each with the conditions under
which it happens, and `change_edited` says that there are no others. What
a property of lines needs from the keys is then one case for each way.

The positions of the edits are counted in bytes; section 1 turns them into
texts, and nothing after it counts bytes.
-/
import Mathlib.Data.List.Basic
import PocketCalc.Calculator
import PocketCalc.Proofs.Token.Reading

namespace PocketCalc

namespace Entry

open Number

/-! ## 1. Edited lines -/

namespace Splice

@[simp] theorem edited_unchanged (entry : Text) : (unchanged entry).edited entry = entry := by
  simp [edited, edited?_unchanged]

@[simp] theorem edited_append (entry piece : Text) :
    (append entry piece).edited entry = entry ++ piece := by
  simp [edited, edited?_append]

@[simp] theorem edited_replaceLast (entry piece : Text) :
    (replaceLast entry piece).edited entry = entry.dropLast ++ piece := by
  simp [edited, edited?_replaceLast]

/-- A line cut behind its front part. -/
theorem edited_front (front back piece : Text) :
    (Splice.mk front.byteSize piece).edited (front ++ back) = front ++ piece := by
  simp [edited, edited?_front]

/-- A line cut in front of the number at its end. -/
theorem edited_numberStart (entry piece : Text) :
    (Splice.mk (numberStart entry) piece).edited entry = beforeLastNumber entry ++ piece := by
  have h := edited_front (beforeLastNumber entry) (lastNumber entry) piece
  rwa [beforeLastNumber_append, ← numberStart_eq] at h

end Splice

/-! ## 2. The number at the end -/

/-- A number at the end is found when nothing of its kind stands in front. -/
theorem lastNumber_append {front number : Text}
    (hnumber : ∀ c ∈ number, isLastNumberChar c = true)
    (hfront : ∀ c ∈ front.getLast?, isLastNumberChar c = false) :
    lastNumber (front ++ number) = number ∧ beforeLastNumber (front ++ number) = front := by
  have hrun : ∀ c ∈ number.reverse, isLastNumberChar c = true := by
    intro c hc
    exact hnumber c (List.mem_reverse.mp hc)
  have hrest : ∀ c ∈ front.reverse.head?, isLastNumberChar c = false := by
    intro c hc
    exact hfront c (List.head?_reverse ▸ hc)
  simp only [lastNumber, beforeLastNumber, List.reverse_append, Token.takeWhile_run hrun hrest,
    Token.dropWhile_run hrun hrest, List.reverse_reverse, and_self]

/-- The number at the end, if there is one, ends with the last character. -/
theorem getLast?_lastNumber {entry : Text} (h : lastNumber entry ≠ []) :
    (lastNumber entry).getLast? = entry.getLast? := by
  have hsplit := congrArg List.getLast? (beforeLastNumber_append entry)
  rw [List.getLast?_append, List.getLast?_eq_some_getLast h] at hsplit
  rw [List.getLast?_eq_some_getLast h, ← hsplit, Option.some_or]

/-- The line ends with a zero by itself when it ends with a zero and nothing of a numeral
stands in front of it. -/
theorem endsWithLoneZero_concat (front : Text) (last : Char) :
    endsWithLoneZero (front ++ [last]) =
      (last = '0' && !front.getLast?.any isNumeralChar) := by
  by_cases hlast : last = '0'
  · rcases List.eq_nil_or_concat' front with rfl | ⟨front, before, rfl⟩
    · simp [endsWithLoneZero, hlast]
    · simp [endsWithLoneZero, hlast, isNumeralChar]
  · simp [endsWithLoneZero, hlast]

/-! ## 3. The ways a line changes -/

end Entry

/-- Whether the key writes its piece at the end of the line, whatever stands there. -/
def Key.isPlain : Key → Bool
  | .pi | .euler | .call _ | .square | .cube | .powerOfTwo | .openParen | .closeParen => true
  | _ => false

namespace Entry

/-- What a line can become when a key is pressed. -/
inductive Change (entry : Text) : Key → Text → Prop where
  /-- The key is refused. -/
  | refused {key : Key} : Change entry key entry
  | plain {key : Key} (hkey : key.isPlain = true) : Change entry key (entry ++ key.piece)
  | digit (d : Fin 10) : Change entry (.digit d) (entry ++ Key.digitText d)
  /-- A digit takes the place of a zero that is a whole number by itself. -/
  | zero {front : Text} (d : Fin 10) (hentry : entry = front ++ ['0'])
      (hfront : front.getLast?.any isNumeralChar = false) :
      Change entry (.digit d) (front ++ Key.digitText d)
  | point {c : Char} (hlast : entry.getLast? = some c) (hc : c.isDigit = true)
      (hnumber : '.' ∉ lastNumber entry) : Change entry .point (entry ++ ['.'])
  /-- A point where no number stands starts one. -/
  | newNumber (hnumber : lastNumber entry = []) : Change entry .point (entry ++ ['0', '.'])
  | percent (hvalue : endsWithValue entry = true) : Change entry .percent (entry ++ ['%'])
  | factorial (hvalue : endsWithValue entry = true) : Change entry .factorial (entry ++ ['!'])
  | operator {key : Key} {sign : Char} (hkey : key.piece = [sign]) (hsign : sign ∈ operatorSigns)
      (hopen : entry = [] ∨ entry.getLast? = some '(' → sign = '-')
      (hlast : ∀ last ∈ entry.getLast?, last ∈ operatorSigns →
        last ∈ signableOperators ∧ sign = '-') : Change entry key (entry ++ [sign])
  /-- An operator takes the place of the one before it. -/
  | replaced {key : Key} {front : Text} {last sign : Char} (hkey : key.piece = [sign])
      (hsign : sign ∈ operatorSigns) (hentry : entry = front ++ [last])
      (hlast : last ∈ operatorSigns) (hguard : ¬(last ∈ signableOperators ∧ sign = '-')) :
      Change entry key (front ++ [sign])
  | parens : Change entry .parens (entry ++ parenPiece entry)
  /-- The minus sign of a number to come. -/
  | minus (hentry : entry = []) : Change entry .sign ['-']
  | negate (hnumber : lastNumber entry ≠ []) :
      Change entry .sign (beforeLastNumber entry ++ ['(', '-'] ++ lastNumber entry ++ [')'])
  /-- The last number, which stands negated in parentheses, gets out of them. -/
  | unwrap {front number : Text} (hentry : entry = front ++ ['(', '-'] ++ number ++ [')'])
      (hne : number ≠ []) (hnumber : ∀ c ∈ number, isLastNumberChar c = true) :
      Change entry .sign (front ++ number)
  | invert (hnumber : lastNumber entry ≠ []) :
      Change entry .reciprocal
        (beforeLastNumber entry ++ ['1', '/', '('] ++ lastNumber entry ++ [')'])
  /-- A piece that was written as a whole is taken off as a whole, the longest there is. -/
  | erasePiece {front piece spaces : Text} (hentry : entry = front ++ piece ++ spaces)
      (hspaces : ∀ c ∈ spaces, c = ' ') (hpiece : piece ∈ erasedPieces)
      (hlongest : ∀ other ∈ erasedPieces, other <:+ front ++ piece →
        other.length ≤ piece.length) : Change entry .erase front
  | eraseChar {trimmed spaces : Text} (hentry : entry = trimmed ++ spaces)
      (hspaces : ∀ c ∈ spaces, c = ' ')
      (hnone : ∀ piece ∈ erasedPieces, ¬piece <:+ trimmed) :
      Change entry .erase trimmed.dropLast

variable {entry : Text}

/-! ## 4. Keys that write -/

theorem isDigit_digitText (d : Fin 10) : ∀ c ∈ Key.digitText d, c.isDigit = true := by
  have hdigit : (Char.ofNat (48 + d)).isDigit = true := by
    revert d
    decide
  simpa [Key.digitText] using hdigit

/-- What is no digit does not stand among digits. -/
theorem not_mem_of_digits {digits : Text} (h : ∀ c ∈ digits, c.isDigit = true) {c : Char}
    (hc : c.isDigit = false) : c ∉ digits := by
  intro hmem
  rw [h c hmem] at hc
  cases hc

/-- The text of an operator is that operator. -/
theorem not_mem_operator {sign : Char} (h : sign ∈ operatorSigns) {c : Char}
    (hc : c ∉ operatorSigns) : c ∉ [sign] := by
  rw [List.mem_singleton]
  rintro rfl
  exact hc h

theorem not_mem_operatorSigns {c : Char} (h : c.isDigit = true) : c ∉ operatorSigns := by
  intro hmem
  simp only [operatorSigns, List.mem_cons, List.not_mem_nil, or_false] at hmem
  rcases hmem with rfl | rfl | rfl | rfl | rfl <;> exact absurd h (by decide)

theorem change_digit (d : Fin 10) (entry : Text) :
    Change entry (.digit d) (insert (Key.digitText d) entry) := by
  have hdigit : (Char.ofNat (48 + d)).isDigit = true :=
    isDigit_digitText d _ (by simp [Key.digitText])
  simp only [insert, Key.digitText, insertion, hdigit, if_true, insertDigit]
  by_cases hzero : Char.ofNat (48 + d) = '0'
  · simp only [hzero, if_true]
    split
    · rw [Splice.edited_unchanged]
      exact .refused
    · rw [Splice.edited_append, ← hzero]
      exact .digit d
  · simp only [hzero, if_false]
    rcases List.eq_nil_or_concat' entry with rfl | ⟨front, last, rfl⟩
    · exact .digit d
    · rw [endsWithLoneZero_concat]
      split
      · rename_i hlone
        simp only [Bool.and_eq_true, decide_eq_true_eq, Bool.not_eq_true'] at hlone
        obtain ⟨rfl, hfront⟩ := hlone
        rw [Splice.edited_replaceLast, List.dropLast_concat]
        exact .zero d rfl hfront
      · rw [Splice.edited_append]
        exact .digit d

theorem change_point (entry : Text) : Change entry .point (insert ['.'] entry) := by
  have hpiece : insertion ['.'] entry = insertPoint entry := rfl
  rw [insert, hpiece, insertPoint]
  split
  · rw [Splice.edited_unchanged]
    exact .refused
  · rename_i hplain
    simp only [List.any_eq_true, Bool.or_eq_true, decide_eq_true_eq, not_exists, not_and,
      not_or] at hplain
    -- a number that does not end with a digit would hold a point or a percent sign
    have hnone : ∀ c ∈ entry.getLast?, c.isDigit = false → lastNumber entry = [] := by
      intro c hc hdigit
      refine Classical.byContradiction fun hne => ?_
      have hmem : c ∈ lastNumber entry := by
        refine List.mem_of_getLast? ?_
        rw [getLast?_lastNumber hne]
        exact hc
      have hchar := isLastNumberChar_of_mem hmem
      simp [isLastNumberChar, hdigit, hplain c hmem] at hchar
    split
    · rw [Splice.edited_unchanged]
      exact .refused
    · rename_i c hclose hlast
      split
      · rename_i hdigit
        rw [Splice.edited_append]
        refine .point hlast hdigit ?_
        intro hmem
        exact (hplain '.' hmem).1 rfl
      · rename_i hdigit
        rw [Splice.edited_append]
        exact .newNumber (hnone c hlast (by simpa using hdigit))
    · rename_i hlast
      rw [List.getLast?_eq_none_iff] at hlast
      subst hlast
      exact .newNumber rfl

theorem change_percent (entry : Text) : Change entry .percent (insert ['%'] entry) := by
  have hpiece : insertion ['%'] entry = insertPercent entry := rfl
  rw [insert, hpiece, insertPercent]
  split
  · rename_i hvalue
    rw [Splice.edited_append]
    exact .percent hvalue
  · rw [Splice.edited_unchanged]
    exact .refused

theorem insertion_operator {sign : Char} (hsign : sign ∈ operatorSigns) (entry : Text) :
    insertion [sign] entry = insertOperator sign entry := by
  simp only [operatorSigns, List.mem_cons, List.not_mem_nil, or_false] at hsign
  rcases hsign with rfl | rfl | rfl | rfl | rfl <;> rfl

/-- Where nothing stands in front only a minus sign is taken. -/
theorem insertOperator_open (hopen : entry = [] ∨ entry.getLast? = some '(') (sign : Char) :
    insertOperator sign entry =
      if sign = '-' then .append entry [sign] else .unchanged entry := by
  rcases hopen with rfl | hparen
  · rfl
  · simp [insertOperator, hparen]

/-- An operator in front is replaced, unless it takes a minus sign behind it. -/
theorem insertOperator_behind {last : Char} (hlast : last ∈ operatorSigns) (sign : Char)
    (front : Text) :
    insertOperator sign (front ++ [last]) =
      if last ∈ signableOperators ∧ sign = '-' then .append (front ++ [last]) [sign]
      else .replaceLast (front ++ [last]) [sign] := by
  rw [insertOperator, List.getLast?_concat]
  split
  · rename_i hnone
    cases hnone
  · rename_i hparen
    cases hparen
    exact absurd hlast (by decide)
  · rename_i hother
    cases hother
    rw [if_pos hlast]

theorem mem_operatorSigns_of_signable {c : Char} (h : c ∈ signableOperators) :
    c ∈ operatorSigns :=
  (List.drop_suffix 2 operatorSigns).subset h

/-- Behind anything else every operator is taken. -/
theorem insertOperator_value {last : Char} (hend : entry.getLast? = some last)
    (hparen : last ≠ '(') (hlast : last ∉ operatorSigns) (sign : Char) :
    insertOperator sign entry = .append entry [sign] := by
  have hsignable : last ∉ signableOperators := fun h => hlast (mem_operatorSigns_of_signable h)
  rw [insertOperator, hend]
  simp [hlast, hsignable]

theorem change_operator {key : Key} {sign : Char} (hkey : key.piece = [sign])
    (hsign : sign ∈ operatorSigns) (entry : Text) : Change entry key (insert key.piece entry) := by
  rw [insert, hkey, insertion_operator hsign]
  by_cases hopen : entry = [] ∨ entry.getLast? = some '('
  · rw [insertOperator_open hopen]
    split
    · rename_i hminus
      rw [Splice.edited_append]
      refine .operator hkey hsign (fun _ => hminus) ?_
      rintro last hend hlast
      rcases hopen with rfl | hparen
      · cases hend
      · obtain rfl := Option.some.inj (hparen.symm.trans hend)
        exact absurd hlast (by decide)
    · rw [Splice.edited_unchanged]
      exact .refused
  · rcases List.eq_nil_or_concat' entry with rfl | ⟨front, last, rfl⟩
    · exact absurd (Or.inl rfl) hopen
    have hend : (front ++ [last]).getLast? = some last := List.getLast?_concat
    by_cases hlast : last ∈ operatorSigns
    · rw [insertOperator_behind hlast]
      split
      · rename_i hminus
        rw [Splice.edited_append]
        refine .operator hkey hsign (fun h => absurd h hopen) ?_
        rintro other hother -
        obtain rfl := Option.some.inj (hend.symm.trans hother)
        exact hminus
      · rename_i hguard
        rw [Splice.edited_replaceLast, List.dropLast_concat]
        exact .replaced hkey hsign rfl hlast hguard
    · have hparen : last ≠ '(' := by
        rintro rfl
        exact hopen (Or.inr hend)
      rw [insertOperator_value hend hparen hlast, Splice.edited_append]
      refine .operator hkey hsign (fun h => absurd h hopen) ?_
      rintro other hother hmem
      obtain rfl := Option.some.inj (hend.symm.trans hother)
      exact absurd hmem hlast

theorem insert_plain {key : Key} (hkey : key.isPlain = true) (entry : Text) :
    insert key.piece entry = entry ++ key.piece := by
  have hpiece : insertion key.piece entry = .append entry key.piece := by
    cases key with
    | pi | euler | square | cube | powerOfTwo | openParen | closeParen => rfl
    | call f => cases f <;> rfl
    | _ => cases hkey
  rw [insert, hpiece, Splice.edited_append]

theorem change_parens (entry : Text) : Change entry .parens (toggleParen entry) := by
  have hpiece : parenthesis entry = .append entry (parenPiece entry) := by
    unfold parenthesis parenPiece
    split
    · rfl
    · split
      · rfl
      · split <;> rfl
  rw [toggleParen, hpiece, Splice.edited_append]
  exact .parens

theorem change_factorial (entry : Text) : Change entry .factorial (addFactorial entry) := by
  rw [addFactorial, factorialMark]
  split
  · rename_i hvalue
    rw [Splice.edited_append]
    exact .factorial hvalue
  · rw [Splice.edited_unchanged]
    exact .refused

/-! ## 5. Keys that rewrite the last number -/

/-- A minus sign in front is no part of the number at the end. -/
theorem lastNumber_negated {number : Text} (hnumber : ∀ c ∈ number, isLastNumberChar c = true)
    (front : Text) :
    lastNumber (front ++ ['(', '-'] ++ number) = number ∧
      beforeLastNumber (front ++ ['(', '-'] ++ number) = front ++ ['(', '-'] := by
  refine lastNumber_append hnumber ?_
  simp [isLastNumberChar]

/-- The parenthesis and the sign in front of a negated number are two bytes. -/
theorem numberStart_negated {number : Text} (hnumber : ∀ c ∈ number, isLastNumberChar c = true)
    (front : Text) : numberStart (front ++ ['(', '-'] ++ number) = front.byteSize + 2 := by
  rw [numberStart_eq, (lastNumber_negated hnumber front).2, Text.byteSize_append]
  rfl

/-- A number that stands negated in parentheses gets out of them, whatever stands in
front. -/
theorem toggleSign_negated {number : Text} (hne : number ≠ [])
    (hnumber : ∀ c ∈ number, isLastNumberChar c = true) (front : Text) :
    toggleSign (front ++ ['(', '-'] ++ number ++ [')']) = front ++ number := by
  obtain ⟨hlast, hbefore⟩ := lastNumber_negated hnumber front
  have hstart : numberStart (front ++ ['(', '-'] ++ number) - 2 = front.byteSize := by
    rw [numberStart_negated hnumber, Nat.add_sub_cancel]
  have hback : front ++ ['(', '-'] ++ number ++ [')'] =
      front ++ (['(', '-'] ++ number ++ [')']) := by simp
  have hopen : ['(', '-'].isSuffixOf (front ++ ['(', '-']) = true :=
    List.isSuffixOf_iff_suffix.mpr (List.suffix_append ..)
  rw [toggleSign, signToggle, List.getLast?_concat]
  simp only [List.dropLast_concat, positive, hlast, hbefore, hopen, hstart]
  rw [if_pos ⟨hne, trivial⟩, hback, Splice.edited_front]

/-- A number at the end is put in parentheses behind a minus sign. -/
theorem toggleSign_number (h : lastNumber entry ≠ []) :
    toggleSign entry = beforeLastNumber entry ++ ['(', '-'] ++ lastNumber entry ++ [')'] := by
  have hlast := getLast?_lastNumber h
  rw [List.getLast?_eq_some_getLast h] at hlast
  have hchar := isLastNumberChar_of_mem (List.getLast_mem h)
  rw [toggleSign, signToggle, ← hlast]
  split
  · rename_i hnone
    cases hnone
  · rename_i hclose
    rw [Option.some.inj hclose] at hchar
    cases hchar
  · rw [if_neg h, Splice.edited_numberStart, ← List.append_assoc, ← List.append_assoc]

/-- A parenthesis at the end that closes no negated number stays. -/
theorem toggleSign_closed {inner : Text}
    (h : ¬(lastNumber inner ≠ [] ∧ ['(', '-'].isSuffixOf (beforeLastNumber inner))) :
    toggleSign (inner ++ [')']) = inner ++ [')'] := by
  rw [toggleSign, signToggle, List.getLast?_concat]
  simp only [List.dropLast_concat, positive]
  rw [if_neg h, Splice.edited_unchanged]

/-- Anything else at the end has no sign. -/
theorem toggleSign_other {front : Text} {last : Char} (hclose : last ≠ ')')
    (h : lastNumber (front ++ [last]) = []) : toggleSign (front ++ [last]) = front ++ [last] := by
  rw [toggleSign, signToggle, List.getLast?_concat]
  split
  · rename_i heq
    cases heq
  · rename_i heq
    exact absurd (Option.some.inj heq) hclose
  · rw [if_pos h, Splice.edited_unchanged]

/-- A number that stands negated in parentheses at the end, split off. -/
theorem exists_negated {inner : Text}
    (h : lastNumber inner ≠ [] ∧ ['(', '-'].isSuffixOf (beforeLastNumber inner)) :
    ∃ front number, inner = front ++ ['(', '-'] ++ number ∧ number ≠ [] ∧
      ∀ c ∈ number, isLastNumberChar c = true := by
  obtain ⟨hne, hopen⟩ := h
  obtain ⟨front, hfront⟩ := List.isSuffixOf_iff_suffix.mp hopen
  refine ⟨front, lastNumber inner, ?_, hne, fun c hc => isLastNumberChar_of_mem hc⟩
  rw [hfront, beforeLastNumber_append]

theorem change_sign (entry : Text) : Change entry .sign (toggleSign entry) := by
  rcases List.eq_nil_or_concat' entry with rfl | ⟨inner, last, rfl⟩
  · exact .minus rfl
  by_cases hclose : last = ')'
  · subst hclose
    by_cases hnegated : lastNumber inner ≠ [] ∧ ['(', '-'].isSuffixOf (beforeLastNumber inner)
    · obtain ⟨front, number, rfl, hne, hnumber⟩ := exists_negated hnegated
      rw [toggleSign_negated hne hnumber]
      exact .unwrap rfl hne hnumber
    · rw [toggleSign_closed hnegated]
      exact .refused
  · by_cases hnumber : lastNumber (inner ++ [last]) = []
    · rw [toggleSign_other hclose hnumber]
      exact .refused
    · rw [toggleSign_number hnumber]
      exact .negate hnumber

/-- One is written over a number at the end. -/
theorem invert_number (h : lastNumber entry ≠ []) :
    invert entry = beforeLastNumber entry ++ ['1', '/', '('] ++ lastNumber entry ++ [')'] := by
  rw [invert, inversion, if_neg h, Splice.edited_numberStart, ← List.append_assoc,
    ← List.append_assoc]

theorem invert_other (h : lastNumber entry = []) : invert entry = entry := by
  rw [invert, inversion, if_pos h, Splice.edited_unchanged]

theorem change_reciprocal (entry : Text) : Change entry .reciprocal (invert entry) := by
  by_cases hnumber : lastNumber entry = []
  · rw [invert_other hnumber]
    exact .refused
  · rw [invert_number hnumber]
    exact .invert hnumber

/-! ## 6. The key that erases -/

/-- The spaces at the end are what is trimmed. -/
theorem exists_trimSpaces (entry : Text) :
    ∃ spaces, entry = trimSpaces entry ++ spaces ∧ ∀ c ∈ spaces, c = ' ' := by
  refine ⟨(entry.reverse.takeWhile (· = ' ')).reverse, ?_, ?_⟩
  · rw [trimSpaces, ← List.reverse_append, List.takeWhile_append_dropWhile, List.reverse_reverse]
  · intro c hc
    exact of_decide_eq_true (Token.mem_takeWhile (List.mem_reverse.mp hc))

theorem mem_erasedPieces {piece : Text} :
    piece ∈ erasedPieces ↔
      (∃ f, piece = MathFunction.name f ++ ['(']) ∨
        piece = ['p', 'i'] ∨ piece = ['^', '2'] ∨ piece = ['^', '3'] := by
  have hall : ∀ f, f ∈ functionsByLength := by
    intro f
    cases f <;> decide
  simp [erasedPieces, hall, eq_comm]

/-- No piece is searched for after a shorter one. -/
theorem pairwise_erasedPieces :
    erasedPieces.Pairwise fun piece later => later.length ≤ piece.length := by
  decide

/-- The piece that is found is the longest at the end. -/
theorem longest_erasedPiece {trimmed piece : Text}
    (h : erasedPieces.find? (·.isSuffixOf trimmed) = some piece) :
    ∀ other ∈ erasedPieces, other <:+ trimmed → other.length ≤ piece.length := by
  intro other hother hsuffix
  obtain ⟨-, before, after, hsplit, hnone⟩ := List.find?_eq_some_iff_append.mp h
  rw [hsplit] at hother
  have horder := hsplit ▸ pairwise_erasedPieces
  rcases List.mem_append.mp hother with hbefore | hafter
  · have hmissing : other.isSuffixOf trimmed = false := by simpa using hnone other hbefore
    rw [List.isSuffixOf_iff_suffix.mpr hsuffix] at hmissing
    cases hmissing
  · rcases List.mem_cons.mp hafter with rfl | hafter
    · exact Nat.le_refl _
    · exact (List.pairwise_cons.mp (List.pairwise_append.mp horder).2.1).1 other hafter

/-- A piece that ends with another has one letter more, an `a` in front. -/
theorem eq_or_eq_cons_of_suffix {piece other : Text} (hpiece : piece ∈ erasedPieces)
    (hother : other ∈ erasedPieces) (h : piece <:+ other) :
    piece = other ∨ other = 'a' :: piece := by
  have htable : ∀ piece ∈ erasedPieces, ∀ other ∈ erasedPieces, piece.isSuffixOf other = true →
      piece = other ∨ other = 'a' :: piece := by
    decide +kernel
  exact htable piece hpiece other hother (List.isSuffixOf_iff_suffix.mpr h)

/-- The piece that is found at the end of the trimmed line is taken off it. -/
theorem eraseLast_append_piece {piece : Text}
    (h : erasedPieces.find? (·.isSuffixOf (trimSpaces entry)) = some piece) :
    eraseLast entry ++ piece = trimSpaces entry := by
  have hfound := List.find?_some h
  obtain ⟨front, hfront⟩ : piece <:+ trimSpaces entry := List.isSuffixOf_iff_suffix.mp hfound
  obtain ⟨spaces, hentry, -⟩ := exists_trimSpaces entry
  have hkeep : (trimSpaces entry).byteSize - piece.byteSize = Text.byteSize front := by
    rw [← hfront, Text.byteSize_append]
    exact Nat.add_sub_cancel ..
  have hcut := Splice.edited_front front (piece ++ spaces) []
  rw [List.append_nil, ← List.append_assoc, hfront, ← hentry] at hcut
  simp only [eraseLast, erasure, h, hkeep]
  rw [hcut, hfront]

/-- Where none is found the last character of the trimmed line is taken off, if there is
one. -/
theorem eraseLast_eq_dropLast
    (h : erasedPieces.find? (·.isSuffixOf (trimSpaces entry)) = none) :
    eraseLast entry = (trimSpaces entry).dropLast := by
  obtain ⟨last, hlast⟩ := List.dropLast_prefix (trimSpaces entry)
  obtain ⟨spaces, hentry, -⟩ := exists_trimSpaces entry
  have hcut := Splice.edited_front (trimSpaces entry).dropLast (last ++ spaces) []
  rw [List.append_nil, ← List.append_assoc, hlast, ← hentry] at hcut
  simp only [eraseLast, erasure, h, Splice.replaceLast]
  exact hcut

/-- The spaces at the end go, and with them the longest piece in front of them, or else the
last character. -/
theorem eraseLast_cases (entry : Text) :
    (∃ piece ∈ erasedPieces, trimSpaces entry = eraseLast entry ++ piece ∧
      ∀ other ∈ erasedPieces, other <:+ trimSpaces entry → other.length ≤ piece.length) ∨
    ((∀ piece ∈ erasedPieces, ¬piece <:+ trimSpaces entry) ∧
      eraseLast entry = (trimSpaces entry).dropLast) := by
  cases hfind : erasedPieces.find? (·.isSuffixOf (trimSpaces entry)) with
  | some piece =>
    exact Or.inl ⟨piece, List.mem_of_find?_eq_some hfind, (eraseLast_append_piece hfind).symm,
      longest_erasedPiece hfind⟩
  | none =>
    refine Or.inr ⟨?_, eraseLast_eq_dropLast hfind⟩
    intro piece hpiece hsuffix
    have hfound := List.find?_eq_none.mp hfind piece hpiece
    exact hfound (List.isSuffixOf_iff_suffix.mpr hsuffix)

theorem change_erase (entry : Text) : Change entry .erase (eraseLast entry) := by
  obtain ⟨spaces, hentry, hspaces⟩ := exists_trimSpaces entry
  rcases eraseLast_cases entry with ⟨piece, hpiece, htrimmed, hlongest⟩ | ⟨hnone, hchar⟩
  · rw [htrimmed] at hentry hlongest
    exact .erasePiece hentry hspaces hpiece hlongest
  · rw [hchar]
    exact .eraseChar hentry hspaces hnone

/-! ## 7. Every key -/

/-- There are no other ways: a key changes a line in one of the ways listed. -/
theorem change_edited (key : Key) (entry : Text) :
    Change entry key (Calculator.edited key entry) := by
  cases key with
  | allClear | equals =>
    have hnothing : insert [] entry = entry := by simp [insert, insertion]
    rw [show Calculator.edited _ entry = insert [] entry from rfl, hnothing]
    exact .refused
  | erase => exact change_erase entry
  | parens => exact change_parens entry
  | percent => exact change_percent entry
  | divide => exact change_operator rfl (by decide) entry
  | times => exact change_operator rfl (by decide) entry
  | minus => exact change_operator rfl (by decide) entry
  | plus => exact change_operator rfl (by decide) entry
  | power => exact change_operator rfl (by decide) entry
  | point => exact change_point entry
  | sign => exact change_sign entry
  | digit d => exact change_digit d entry
  | reciprocal => exact change_reciprocal entry
  | factorial => exact change_factorial entry
  | pi | euler | call _ | square | cube | powerOfTwo | openParen | closeParen =>
    rw [show Calculator.edited _ entry = insert _ entry from rfl, insert_plain rfl]
    exact .plain rfl

end Entry

end PocketCalc
