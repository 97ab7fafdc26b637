/-
PocketCalc.Entry.Splice — edits of the entry line.

Every edit keeps the front of the line, up to a position in bytes, and
writes a piece of text after it. The position must not fall inside a
character. `edited?` says so by having no answer; the edits of this library
never meet that case, whatever the line holds, and `edited` leaves the line
alone there.
-/
import PocketCalc.Text

namespace PocketCalc.Entry

/-- Keep the first `keep` bytes of the line and write `insert` after them. -/
structure Splice where
  keep : Nat
  insert : Text
deriving DecidableEq

namespace Splice

/-- The edit that changes nothing. -/
def unchanged (entry : Text) : Splice :=
  ⟨entry.byteSize, []⟩

/-- Writes a piece at the end of the line. -/
def append (entry piece : Text) : Splice :=
  ⟨entry.byteSize, piece⟩

/-- Writes a piece in place of the last character. -/
def replaceLast (entry piece : Text) : Splice :=
  ⟨Text.byteSize entry.dropLast, piece⟩

/-- The edited line, if the position is a boundary between characters. -/
def edited? (splice : Splice) (entry : Text) : Option Text :=
  (entry.cutAt? splice.keep).map fun (front, _) => front ++ splice.insert

/-- The edited line. -/
def edited (splice : Splice) (entry : Text) : Text :=
  (splice.edited? entry).getD entry

/-! ## What an edit does to the line -/

/-- A position given as the size of a front part is a boundary. -/
theorem edited?_front (front back piece : Text) :
    (Splice.mk front.byteSize piece).edited? (front ++ back) = some (front ++ piece) := by
  simp [edited?, Text.cutAt?_append]

theorem edited?_append (entry piece : Text) :
    (append entry piece).edited? entry = some (entry ++ piece) := by
  have h := edited?_front entry [] piece
  rwa [List.append_nil] at h

theorem edited?_unchanged (entry : Text) : (unchanged entry).edited? entry = some entry := by
  have h := edited?_append entry []
  rwa [List.append_nil] at h

theorem edited?_replaceLast (entry piece : Text) :
    (replaceLast entry piece).edited? entry = some (entry.dropLast ++ piece) := by
  rcases List.eq_nil_or_concat entry with rfl | ⟨front, c, rfl⟩
  · rfl
  · have h := edited?_front front [c] piece
    simpa [replaceLast] using h

end Splice

end PocketCalc.Entry
