/-
PocketCalc.Entry.LastNumber — the number at the end of the entry line.

It is the longest run of digits, points and percent signs that ends the
line, and may be empty. Its position is counted in bytes; `cutAt?_numberStart`
says that the position is a boundary between characters and that the cut
there returns the number.
-/
import PocketCalc.Text

namespace PocketCalc.Entry

/-- Whether a character belongs to the number at the end of a line. -/
def isLastNumberChar (c : Char) : Bool :=
  c.isDigit || c = '.' || c = '%'

/-- The number at the end of the line. -/
def lastNumber (entry : Text) : Text :=
  (entry.reverse.takeWhile isLastNumberChar).reverse

/-- What stands in front of the number at the end of the line. -/
def beforeLastNumber (entry : Text) : Text :=
  (entry.reverse.dropWhile isLastNumberChar).reverse

/-- The position of the number at the end of the line, in bytes. -/
def numberStart (entry : Text) : Nat :=
  entry.byteSize - (lastNumber entry).byteSize

/-! ## The number ends the line and is as long as possible -/

theorem beforeLastNumber_append (entry : Text) :
    beforeLastNumber entry ++ lastNumber entry = entry := by
  rw [beforeLastNumber, lastNumber, ← List.reverse_append, List.takeWhile_append_dropWhile,
    List.reverse_reverse]

theorem isLastNumberChar_of_mem {entry : Text} {c : Char} (h : c ∈ lastNumber entry) :
    isLastNumberChar c = true :=
  List.all_eq_true.mp List.all_takeWhile c (List.mem_reverse.mp h)

/-- The character in front of the number does not belong to it. -/
theorem not_isLastNumberChar_of_getLast? {entry : Text} {c : Char}
    (h : (beforeLastNumber entry).getLast? = some c) : isLastNumberChar c = false := by
  rw [beforeLastNumber, List.getLast?_reverse] at h
  have := List.head?_dropWhile_not isLastNumberChar entry.reverse
  rw [h] at this
  simpa using this

theorem numberStart_eq (entry : Text) : numberStart entry = (beforeLastNumber entry).byteSize := by
  have := congrArg Text.byteSize (beforeLastNumber_append entry)
  rw [Text.byteSize_append] at this
  simp only [numberStart]
  omega

/-- The position of the number is a boundary between characters. -/
theorem cutAt?_numberStart (entry : Text) :
    Text.cutAt? (numberStart entry) entry = some (beforeLastNumber entry, lastNumber entry) := by
  have := Text.cutAt?_append (beforeLastNumber entry) (lastNumber entry)
  rwa [beforeLastNumber_append, ← numberStart_eq] at this

end PocketCalc.Entry
