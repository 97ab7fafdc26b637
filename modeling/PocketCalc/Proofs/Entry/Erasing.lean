/-
PocketCalc.Proofs.Entry.Erasing — erasing takes back what a key wrote.

A function, `pi`, a square and a cube are written as a whole and erased as
a whole. The pieces overlap: `sin(`, `asin(` and `asinh(` may all end the
same line, and what is taken off is the longest of them. So erasing takes
back a piece just written unless the line in front of it makes a longer
piece of it, and only an `a` in front can do that
(`eq_or_eq_cons_of_suffix`).

Whatever the line holds, something is taken off as long as there is
something, so pressing the key often enough empties it.

Main statement: `eraseLast_undoes`.
-/
import Mathlib.Logic.Function.Iterate
import PocketCalc.Proofs.Entry.Changes

namespace PocketCalc

/-- Whether what the key writes is erased as a whole. -/
def Key.writesWhole : Key → Bool
  | .call _ | .pi | .square | .cube => true
  | _ => false

namespace Entry

variable {entry : Text} {key : Key}

/-! ## 1. The keys and their pieces -/

/-- The pieces erased as a whole are those that these keys write. -/
theorem writesWhole_iff : key.writesWhole = true ↔ key.piece ∈ erasedPieces := by
  cases key with
  | call f => simp [Key.writesWhole, Key.piece, mem_erasedPieces]
  | digit d =>
    revert d
    decide
  | _ => decide

theorem isPlain_of_writesWhole (h : key.writesWhole = true) : key.isPlain = true := by
  cases key <;> first | rfl | cases h

/-! ## 2. The line without the spaces at its end -/

theorem trimSpaces_prefix_self (entry : Text) : trimSpaces entry <+: entry := by
  obtain ⟨spaces, hentry, -⟩ := exists_trimSpaces entry
  exact ⟨spaces, hentry.symm⟩

theorem getLast?_trimSpaces (entry : Text) : (trimSpaces entry).getLast? ≠ some ' ' := by
  rw [trimSpaces, List.getLast?_reverse]
  intro hspace
  have hstop := List.head?_dropWhile_not (fun c : Char => decide (c = ' ')) entry.reverse
  rw [hspace] at hstop
  cases hstop

/-- A line that does not end with a space stays as it is. -/
theorem trimSpaces_eq_self (h : entry.getLast? ≠ some ' ') : trimSpaces entry = entry := by
  obtain ⟨spaces, hentry, hspaces⟩ := exists_trimSpaces entry
  rcases List.eq_nil_or_concat' spaces with rfl | ⟨front, last, rfl⟩
  · rw [List.append_nil] at hentry
    exact hentry.symm
  · rw [hentry, ← List.append_assoc, List.getLast?_concat, hspaces last (by simp)] at h
    exact absurd rfl h

/-- No piece ends with a space, so nothing is trimmed behind one. -/
theorem trimSpaces_append_piece {piece : Text} (h : piece ∈ erasedPieces) (entry : Text) :
    trimSpaces (entry ++ piece) = entry ++ piece := by
  have hends : ∀ piece ∈ erasedPieces, piece ≠ [] ∧ piece.getLast? ≠ some ' ' := by
    decide +kernel
  obtain ⟨hne, hlast⟩ := hends piece h
  refine trimSpaces_eq_self ?_
  rwa [List.getLast?_append_of_ne_nil _ hne]

/-! ## 3. What is taken off -/

/-- A piece at the end is taken off as it was written, unless the line in front of it makes
a longer piece of it. -/
theorem eraseLast_append {piece : Text} (h : piece ∈ erasedPieces)
    (hfront : entry.getLast? = some 'a' → 'a' :: piece ∉ erasedPieces) :
    eraseLast (entry ++ piece) = entry := by
  have hends : piece <:+ entry ++ piece := List.suffix_append ..
  have hcases := eraseLast_cases (entry ++ piece)
  rw [trimSpaces_append_piece h] at hcases
  rcases hcases with ⟨longest, hmem, htrimmed, hlongest⟩ | ⟨hnone, -⟩
  · have hsuffix : piece <:+ longest :=
      List.suffix_of_suffix_length_le hends ⟨_, htrimmed.symm⟩ (hlongest piece h hends)
    rcases eq_or_eq_cons_of_suffix h hmem hsuffix with rfl | rfl
    · exact (List.append_cancel_right htrimmed).symm
    · rw [List.append_cons] at htrimmed
      have hentry := List.append_cancel_right htrimmed
      have hlast : entry.getLast? = some 'a' := by rw [hentry, List.getLast?_concat]
      exact absurd hmem (hfront hlast)
  · exact absurd hends (hnone piece h)

-- Behind an `a` the sine is taken for the end of the arc sine, and the `a` goes with it.
example : eraseLast (insert (Key.call .sin).piece ['a']) = [] := by decide

/-- What is left is the front of the line. -/
theorem eraseLast_prefix_trimSpaces (entry : Text) : eraseLast entry <+: trimSpaces entry := by
  rcases eraseLast_cases entry with ⟨piece, -, htrimmed, -⟩ | ⟨-, hchar⟩
  · exact ⟨piece, htrimmed.symm⟩
  · rw [hchar]
    exact List.dropLast_prefix _

/-- Something is taken off a line that holds something. -/
theorem length_eraseLast_lt (h : entry ≠ []) : (eraseLast entry).length < entry.length := by
  have hle := (trimSpaces_prefix_self entry).length_le
  rcases eraseLast_cases entry with ⟨piece, hpiece, htrimmed, -⟩ | ⟨-, hchar⟩
  · have hne : ∀ piece ∈ erasedPieces, 0 < piece.length := by decide
    have hpos := hne piece hpiece
    rw [htrimmed, List.length_append] at hle
    omega
  · have hpos := List.length_pos_of_ne_nil h
    rw [hchar, List.length_dropLast]
    omega

theorem eraseLast_nil : eraseLast [] = [] := by decide

/-- As many presses as the line has characters leave nothing. -/
theorem iterate_eraseLast {n : Nat} (h : entry.length ≤ n) : eraseLast^[n] entry = [] := by
  induction n generalizing entry with
  | zero => exact List.length_eq_zero_iff.mp (Nat.le_zero.mp h)
  | succ n ih =>
    rw [Function.iterate_succ_apply]
    refine ih ?_
    by_cases hentry : entry = []
    · subst hentry
      rw [eraseLast_nil]
      exact Nat.zero_le n
    · have hlt := length_eraseLast_lt hentry
      omega

end Entry

/-! ## 4. The key -/

namespace Calculator

open Entry

/-- The key erases in a result as in any other line. -/
theorem entry_press_erase (state : Calculator) :
    (state.press .erase).entry = eraseLast state.entry := by
  unfold press
  cases state.resultShown <;> rfl

theorem entry_iterate_erase (n : Nat) (state : Calculator) :
    ((press .erase)^[n] state).entry = eraseLast^[n] state.entry := by
  induction n generalizing state with
  | zero => rfl
  | succ n ih =>
    rw [Function.iterate_succ_apply, Function.iterate_succ_apply, ih, entry_press_erase]

end Calculator

/-- Erasing takes back a function, `pi`, a square or a cube just written, behind any line that
does not end with an `a`. Of any other line that holds something it leaves a shorter front
part: the spaces at the end go, and with them the longest piece in front of them, or the last
character where no piece stands there. So pressing the key again and again empties the
line. -/
theorem Entry.eraseLast_undoes (entry : Text) :
    (∀ key : Key, key.writesWhole = true → entry.getLast? ≠ some 'a' →
      eraseLast (insert key.piece entry) = entry) ∧
    (entry ≠ [] →
      eraseLast entry <+: entry ∧ (eraseLast entry).length < entry.length ∧
      ∃ trimmed spaces, entry = trimmed ++ spaces ∧ (∀ c ∈ spaces, c = ' ') ∧
        trimmed.getLast? ≠ some ' ' ∧
        ((∃ piece ∈ erasedPieces, trimmed = eraseLast entry ++ piece ∧
            ∀ other ∈ erasedPieces, other <:+ trimmed → other.length ≤ piece.length) ∨
          ((∀ piece ∈ erasedPieces, ¬piece <:+ trimmed) ∧
            eraseLast entry = trimmed.dropLast))) ∧
    (∀ n, entry.length ≤ n → eraseLast^[n] entry = [] ∧
      ∀ state : Calculator, state.entry = entry →
        ((Calculator.press .erase)^[n] state).entry = []) := by
  refine ⟨?_, ?_, ?_⟩
  · intro key hkey hlast
    rw [insert_plain (isPlain_of_writesWhole hkey)]
    exact eraseLast_append (writesWhole_iff.mp hkey) fun ha => absurd ha hlast
  · intro hentry
    obtain ⟨spaces, hspaces⟩ := exists_trimSpaces entry
    exact ⟨(eraseLast_prefix_trimSpaces entry).trans (trimSpaces_prefix_self entry),
      length_eraseLast_lt hentry, trimSpaces entry, spaces, hspaces.1, hspaces.2,
      getLast?_trimSpaces entry, eraseLast_cases entry⟩
  · intro n hn
    refine ⟨iterate_eraseLast hn, ?_⟩
    rintro state rfl
    rw [Calculator.entry_iterate_erase, iterate_eraseLast hn]

/-- Behind an `a` and a space the sine is taken back and the space stays. Of `asinh(` with
spaces behind it the whole goes, and a second press leaves nothing. -/
theorem Entry.eraseLast_undoes_spaced :
    "a ".toList.getLast? ≠ some 'a' ∧
    eraseLast (insert (Key.call .sin).piece "a ".toList) = "a ".toList ∧
    "2asinh(  ".toList ≠ [] ∧ eraseLast "2asinh(  ".toList <+: "2asinh(  ".toList ∧
    eraseLast "2asinh(  ".toList = ['2'] ∧
    eraseLast^[9] "2asinh(  ".toList = [] := by
  have hlast : "a ".toList.getLast? ≠ some 'a' := by decide
  have hne : "2asinh(  ".toList ≠ [] := by decide
  obtain ⟨hwrites, -, -⟩ := eraseLast_undoes "a ".toList
  obtain ⟨-, hleaves, hempties⟩ := eraseLast_undoes "2asinh(  ".toList
  exact ⟨hlast, hwrites (.call .sin) rfl hlast, hne, (hleaves hne).1, by decide,
    (hempties 9 (by decide)).1⟩

end PocketCalc
