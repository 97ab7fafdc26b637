/-
PocketCalc.Proofs.Keypad.Pieces — lines made of whole pieces.

A key writes a piece: a character that stands for something by itself
(`isMark`), `pi`, or the name of a function with its parenthesis. Every
key keeps a line made of whole pieces (`Pieced.change`), with one
exception: the sign key takes the parentheses off `(-4)` also when the
opening one belongs to the name in front of it (`StripsCall`).

The keys work at the end of the line, so the proofs look at its last
piece. Only a parenthesis and an `i` can be the end of a longer piece. The
key that erases takes off the longest piece it knows; were it to take
`sin(` for the end of `asin(`, an `a` would be left in front, and no piece
ends with one.
-/
import Mathlib.Data.List.Induction
import PocketCalc.Proofs.Entry.Changes

namespace PocketCalc

open Entry

/-! ## 1. Pieces -/

/-- Whether a character is a piece by itself: a part of a number, an operator, a suffix, a
parenthesis or the constant `e`. -/
def isMark (c : Char) : Bool :=
  isLastNumberChar c || c ∈ ['+', '-', '*', '/', '^', '!', '(', ')', 'e']

/-- What is written as a whole. -/
inductive Piece where
  | mark (c : Char) (hc : isMark c = true)
  | pi
  | call (f : MathFunction)

/-- What a piece looks like. -/
def Piece.text : Piece → Text
  | mark c _ => [c]
  | pi => ['p', 'i']
  | call f => f.name ++ ['(']

/-- A line made of whole pieces. -/
def Pieced (entry : Text) : Prop :=
  ∃ pieces : List Piece, entry = pieces.flatMap Piece.text

namespace Pieced

variable {entry front back : Text}

theorem nil : Pieced [] :=
  ⟨[], rfl⟩

theorem append (hfront : Pieced front) (hback : Pieced back) : Pieced (front ++ back) := by
  obtain ⟨pieces, rfl⟩ := hfront
  obtain ⟨more, rfl⟩ := hback
  exact ⟨pieces ++ more, List.flatMap_append.symm⟩

theorem piece (piece : Piece) : Pieced piece.text :=
  ⟨[piece], by simp⟩

theorem marks {text : Text} (h : text.all isMark = true) : Pieced text := by
  induction text with
  | nil => exact nil
  | cons c rest ih =>
    rw [List.all_cons, Bool.and_eq_true] at h
    exact append (piece (.mark c h.1)) (ih h.2)

theorem number {text : Text} (h : ∀ c ∈ text, isLastNumberChar c = true) : Pieced text := by
  refine marks (List.all_eq_true.mpr ?_)
  intro c hc
  simp [isMark, h c hc]

/-- There are no spaces in pieces. -/
theorem space_not_mem (h : Pieced entry) : ' ' ∉ entry := by
  obtain ⟨pieces, rfl⟩ := h
  intro hmem
  obtain ⟨piece, -, hpiece⟩ := List.mem_flatMap.mp hmem
  cases piece with
  | mark c hc =>
    obtain rfl := List.mem_singleton.mp hpiece
    cases hc
  | pi => exact absurd hpiece (by decide)
  | call f => cases f <;> exact absurd hpiece (by decide)

theorem eq_nil_of_spaces (h : Pieced (front ++ back)) (hback : ∀ c ∈ back, c = ' ') :
    back = [] := by
  cases back with
  | nil => rfl
  | cons c rest =>
    obtain rfl := hback c List.mem_cons_self
    exact absurd (List.mem_append_right front List.mem_cons_self) h.space_not_mem

/-! ## 2. The last piece -/

/-- The last character is a piece, or it ends `pi` or the call of a function. -/
theorem last_cases {c : Char} (h : Pieced (front ++ [c])) :
    (isMark c = true ∧ Pieced front) ∨
    (c = 'i' ∧ ∃ before, Pieced before ∧ front = before ++ ['p']) ∨
    (c = '(' ∧ ∃ before f, Pieced before ∧ front = before ++ MathFunction.name f) := by
  obtain ⟨pieces, hpieces⟩ := h
  rcases List.eq_nil_or_concat' pieces with rfl | ⟨before, piece, rfl⟩
  · exact absurd (congrArg List.length hpieces) (by simp)
  rw [List.flatMap_append, List.flatMap_singleton] at hpieces
  have hbefore : Pieced (before.flatMap Piece.text) := ⟨before, rfl⟩
  cases piece with
  | mark d hd =>
    obtain ⟨rfl, hlast⟩ := List.append_inj' hpieces rfl
    obtain rfl := List.singleton_inj.mp hlast
    exact Or.inl ⟨hd, hbefore⟩
  | pi =>
    rw [Piece.text, List.append_cons _ 'p'] at hpieces
    obtain ⟨rfl, hlast⟩ := List.append_inj' hpieces rfl
    exact Or.inr (Or.inl ⟨List.singleton_inj.mp hlast, _, hbefore, rfl⟩)
  | call f =>
    rw [Piece.text, ← List.append_assoc] at hpieces
    obtain ⟨rfl, hlast⟩ := List.append_inj' hpieces rfl
    exact Or.inr (Or.inr ⟨List.singleton_inj.mp hlast, _, f, hbefore, rfl⟩)

/-- A character that ends no longer piece can be taken off. -/
theorem of_concat {c : Char} (h : Pieced (front ++ [c])) (hopen : c ≠ '(') (hi : c ≠ 'i') :
    Pieced front := by
  rcases h.last_cases with ⟨-, hfront⟩ | ⟨hc, -⟩ | ⟨hc, -⟩
  · exact hfront
  · exact absurd hc hi
  · exact absurd hc hopen

/-- So can a number. -/
theorem of_append_number {number : Text} (h : Pieced (front ++ number))
    (hnumber : ∀ c ∈ number, isLastNumberChar c = true) : Pieced front := by
  induction number using List.reverseRecOn with
  | nil => rwa [List.append_nil] at h
  | append_singleton number c ih =>
    have hc : isLastNumberChar c = true := hnumber c (by simp)
    rw [← List.append_assoc] at h
    refine ih (h.of_concat ?_ ?_) ?_
    · rintro rfl
      cases hc
    · rintro rfl
      cases hc
    · intro d hd
      exact hnumber d (List.mem_append_left _ hd)

/-- So can an operator. -/
theorem of_append_operator {sign : Char} (h : Pieced (front ++ [sign]))
    (hsign : sign ∈ operatorSigns) : Pieced front := by
  refine h.of_concat ?_ ?_
  · rintro rfl
    exact absurd hsign (by decide)
  · rintro rfl
    exact absurd hsign (by decide)

/-- The last character is a piece by itself or the end of `pi`. -/
theorem isMark_or_eq_of_concat {c : Char} (h : Pieced (front ++ [c])) :
    isMark c = true ∨ c = 'i' := by
  rcases h.last_cases with ⟨hc, -⟩ | ⟨hc, -⟩ | ⟨rfl, -⟩
  · exact Or.inl hc
  · exact Or.inr hc
  · exact Or.inl (by decide)

end Pieced

/-! ## 3. The key that erases -/

namespace MathFunction

/-- A name ends with a letter that ends no piece. -/
theorem name_concat (f : MathFunction) :
    ∃ letters last, f.name = letters ++ [last] ∧ isMark last = false ∧ last ≠ 'i' := by
  have hends : ∀ f ∈ all, (f.name.getLast?.all fun last => !isMark last && last != 'i') = true := by
    decide +kernel
  obtain ⟨first, second, rest, hname, -⟩ := f.name_shape
  obtain ⟨letters, last, hsplit⟩ :=
    (List.eq_nil_or_concat' f.name).resolve_left (by simp [hname])
  have hlast := hends f f.mem_all
  rw [hsplit, List.getLast?_concat] at hlast
  exact ⟨letters, last, hsplit, by simpa using hlast⟩

end MathFunction

namespace Pieced

variable {front : Text}

/-- No line of pieces ends with a name. -/
theorem not_name (front : Text) (f : MathFunction) : ¬Pieced (front ++ f.name) := by
  intro h
  obtain ⟨letters, last, hlast, hmark, hi⟩ := f.name_concat
  rw [hlast, ← List.append_assoc] at h
  rcases h.isMark_or_eq_of_concat with hc | hc
  · rw [hmark] at hc
    cases hc
  · exact hi hc

/-- The longest piece at the end is the last one, or it was written character by
character. -/
theorem of_erased {piece : Text} (h : Pieced (front ++ piece)) (hpiece : piece ∈ erasedPieces)
    (hlongest : ∀ other ∈ erasedPieces, other <:+ front ++ piece →
      other.length ≤ piece.length) : Pieced front := by
  rcases mem_erasedPieces.mp hpiece with ⟨g, rfl⟩ | rfl | rfl | rfl
  · rw [← List.append_assoc] at h
    rcases h.last_cases with ⟨-, hname⟩ | ⟨hc, -⟩ | ⟨-, before, f, hbefore, hname⟩
    · exact absurd hname (not_name front g)
    · exact absurd hc (by decide)
    · have hcall : f.name ++ ['('] ∈ erasedPieces := mem_erasedPieces.mpr (Or.inl ⟨f, rfl⟩)
      have hends : f.name ++ ['('] <:+ front ++ (g.name ++ ['(']) :=
        ⟨before, by rw [← List.append_assoc, ← hname, List.append_assoc]⟩
      have hsuffix : f.name ++ ['('] <:+ g.name ++ ['('] :=
        List.suffix_of_suffix_length_le hends (List.suffix_append ..) (hlongest _ hcall hends)
      rcases eq_or_eq_cons_of_suffix hcall hpiece hsuffix with hsame | hlonger
      · rw [List.append_cancel_right hsame] at hname
        rwa [List.append_cancel_right hname]
      · have hletter : g.name = 'a' :: f.name := List.append_cancel_right hlonger
        rw [hletter, List.append_cons] at hname
        rw [← List.append_cancel_right hname] at hbefore
        rcases hbefore.isMark_or_eq_of_concat with ha | ha
        · cases ha
        · exact absurd ha (by decide)
  · rw [List.append_cons] at h
    rcases h.last_cases with ⟨hi, -⟩ | ⟨-, before, hbefore, hfront⟩ | ⟨hi, -⟩
    · cases hi
    · rwa [List.append_cancel_right hfront]
    · exact absurd hi (by decide)
  · rw [List.append_cons] at h
    exact (h.of_concat (by decide) (by decide)).of_concat (by decide) (by decide)
  · rw [List.append_cons] at h
    exact (h.of_concat (by decide) (by decide)).of_concat (by decide) (by decide)

/-- Where none of the longer pieces ends the line, the last character is a piece. -/
theorem of_dropLast {entry : Text} (h : Pieced entry)
    (hnone : ∀ piece ∈ erasedPieces, ¬piece <:+ entry) : Pieced entry.dropLast := by
  rcases List.eq_nil_or_concat' entry with rfl | ⟨front, c, rfl⟩
  · exact nil
  rw [List.dropLast_concat]
  rcases h.last_cases with ⟨-, hfront⟩ | ⟨rfl, before, -, rfl⟩ | ⟨rfl, before, f, -, rfl⟩
  · exact hfront
  · refine absurd ?_ (hnone ['p', 'i'] (by simp [mem_erasedPieces]))
    exact ⟨before, by simp⟩
  · refine absurd ?_ (hnone (f.name ++ ['(']) (by simp [mem_erasedPieces]))
    exact ⟨before, by simp⟩

end Pieced

/-! ## 4. Every key -/

/-- A number stands in parentheses behind a minus sign, and the parentheses are those of a
function. -/
def StripsCall (entry : Text) : Prop :=
  ∃ front f number, entry = front ++ MathFunction.name f ++ ['(', '-'] ++ number ++ [')'] ∧
    number ≠ [] ∧ ∀ c ∈ number, isLastNumberChar c = true

/-- Behind a closing parenthesis alone there is something to strip. -/
theorem not_stripsCall_of_getLast? {entry : Text} (h : entry.getLast? ≠ some ')') :
    ¬StripsCall entry := by
  rintro ⟨front, f, number, rfl, -, -⟩
  exact h List.getLast?_concat

/-- A negated number behind a mark stands in its own parentheses. -/
theorem not_stripsCall_of_isMark {front number : Text} {c : Char} (hc : isMark c = true)
    (hnumber : ∀ x ∈ number, isLastNumberChar x = true) :
    ¬StripsCall (front ++ [c] ++ ['(', '-'] ++ number ++ [')']) := by
  rintro ⟨before, f, other, hentry, -, hother⟩
  have minus : ∀ text : Text, ∀ x ∈ (text ++ ['(', '-']).getLast?, isLastNumberChar x = false := by
    simp [isLastNumberChar]
  have hline := List.append_cancel_right hentry
  have hsame := congrArg beforeLastNumber hline
  rw [(lastNumber_append hnumber (minus _)).2, (lastNumber_append hother (minus _)).2] at hsame
  obtain ⟨letters, last, hname, hlast, -⟩ := f.name_concat
  have hends := congrArg List.getLast? (List.append_cancel_right hsame)
  rw [List.getLast?_concat, hname, ← List.append_assoc, List.getLast?_concat] at hends
  rw [← Option.some.inj hends, hc] at hlast
  cases hlast

theorem isMark_of_mem_operatorSigns {sign : Char} (h : sign ∈ operatorSigns) :
    isMark sign = true := by
  have hsigns : operatorSigns.all isMark = true := by decide
  exact List.all_eq_true.mp hsigns sign h

namespace Pieced

variable {entry : Text}

theorem digitText (d : Fin 10) : Pieced (Key.digitText d) := by
  refine number ?_
  intro c hc
  simp [isLastNumberChar, isDigit_digitText d c hc]

theorem keyPiece {key : Key} (hkey : key.isPlain = true) : Pieced key.piece := by
  cases key with
  | pi => exact piece .pi
  | call f => exact piece (.call f)
  | euler | square | cube | powerOfTwo | openParen | closeParen => exact marks (by decide)
  | _ => cases hkey

theorem parenPiece (entry : Text) : Pieced (parenPiece entry) := by
  unfold Entry.parenPiece
  split
  · exact marks (by decide)
  · split
    · exact marks (by decide)
    · split <;> exact marks (by decide)

/-- An operator is written as a whole. -/
theorem append_operator {sign : Char} (h : Pieced entry) (hsign : sign ∈ operatorSigns) :
    Pieced (entry ++ [sign]) :=
  h.append (piece (.mark sign (isMark_of_mem_operatorSigns hsign)))

/-- What stands in front of a negated number, with the parenthesis of the number. -/
theorem of_negated {front number : Text} (h : Pieced (front ++ ['(', '-'] ++ number ++ [')']))
    (hnumber : ∀ c ∈ number, isLastNumberChar c = true) : Pieced (front ++ ['(']) := by
  have hnegated : Pieced (front ++ ['(', '-']) :=
    (h.of_concat (by decide) (by decide)).of_append_number hnumber
  rw [List.append_cons] at hnegated
  exact hnegated.of_concat (by decide) (by decide)

/-- A negated number right behind a name stands in the parentheses of a call. -/
theorem exists_call {front number : Text} {f : MathFunction}
    (h : Pieced (front ++ f.name ++ ['(', '-'] ++ number ++ [')']))
    (hnumber : ∀ c ∈ number, isLastNumberChar c = true) :
    ∃ before g, Pieced before ∧ front ++ f.name = before ++ MathFunction.name g := by
  rcases (h.of_negated hnumber).last_cases with ⟨-, hname⟩ | ⟨hi, -⟩ | ⟨-, hcall⟩
  · exact absurd hname (not_name front f)
  · exact absurd hi (by decide)
  · exact hcall

/-- A number gets out of parentheses that belong to no function. -/
theorem unwrap {front number : Text} (h : Pieced (front ++ ['(', '-'] ++ number ++ [')']))
    (hne : number ≠ []) (hnumber : ∀ c ∈ number, isLastNumberChar c = true)
    (hstrips : ¬StripsCall (front ++ ['(', '-'] ++ number ++ [')'])) :
    Pieced (front ++ number) := by
  rcases (h.of_negated hnumber).last_cases with ⟨-, hfront⟩ | ⟨hi, -⟩ | ⟨-, before, f, -, rfl⟩
  · exact hfront.append (Pieced.number hnumber)
  · exact absurd hi (by decide)
  · exact absurd ⟨before, f, number, rfl, hne, hnumber⟩ hstrips

/-- Every key keeps a line made of whole pieces, unless it is the sign key and strips a
call of its parentheses. -/
theorem change {key : Key} {next : Text} (h : Pieced entry)
    (hsign : key = .sign → ¬StripsCall entry) (hchange : Change entry key next) : Pieced next := by
  have hnumber : Pieced (lastNumber entry) := number fun c hc => isLastNumberChar_of_mem hc
  have hbefore : Pieced (beforeLastNumber entry) := by
    rw [← beforeLastNumber_append entry] at h
    exact h.of_append_number fun c hc => isLastNumberChar_of_mem hc
  cases hchange with
  | refused => exact h
  | plain hkey => exact h.append (keyPiece hkey)
  | digit d => exact h.append (digitText d)
  | zero d hentry hfront =>
    rw [hentry] at h
    exact (h.of_concat (by decide) (by decide)).append (digitText d)
  | point hlast hc hnone => exact h.append (marks (by decide))
  | newNumber hnone => exact h.append (marks (by decide))
  | percent hvalue => exact h.append (marks (by decide))
  | factorial hvalue => exact h.append (marks (by decide))
  | operator hkey hmem hopen hlast => exact h.append_operator hmem
  | replaced hkey hmem hentry hlast hguard =>
    rw [hentry] at h
    have hfront := h.of_append_operator hlast
    exact hfront.append_operator hmem
  | parens => exact h.append (parenPiece entry)
  | minus hentry => exact marks (by decide)
  | negate hne =>
    exact ((hbefore.append (marks (by decide))).append hnumber).append (marks (by decide))
  | unwrap hentry hne hchars =>
    subst hentry
    exact h.unwrap hne hchars (hsign rfl)
  | invert hne =>
    exact ((hbefore.append (marks (by decide))).append hnumber).append (marks (by decide))
  | erasePiece hentry hspaces hpiece hlongest =>
    rw [hentry] at h
    obtain rfl := h.eq_nil_of_spaces hspaces
    rw [List.append_nil] at h
    exact h.of_erased hpiece hlongest
  | eraseChar hentry hspaces hnone =>
    rw [hentry] at h
    obtain rfl := h.eq_nil_of_spaces hspaces
    rw [List.append_nil] at h
    exact h.of_dropLast hnone

end Pieced

end PocketCalc
