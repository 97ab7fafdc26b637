/-
PocketCalc.Number.Grouping — thousands separators.

A comma stands before a character when a multiple of three bytes follows
the characters already passed. On digits, where a character is a byte,
this cuts off groups of three from the right.
-/
import PocketCalc.Text

namespace PocketCalc.Number

/-- The character between groups. -/
def groupSeparator : Char := ','

/-- Groups the rest of a text of `size` bytes of which `passed` characters
stand in front. -/
def groupFrom (size passed : Nat) : Text → Text
  | [] => []
  | c :: rest =>
    if 0 < passed ∧ (size - passed) % 3 = 0 then
      groupSeparator :: c :: groupFrom size (passed + 1) rest
    else
      c :: groupFrom size (passed + 1) rest

/-- A text with thousands separators. -/
def group (text : Text) : Text :=
  groupFrom text.byteSize 0 text

/-- Without the separators the text is what it was, if it had none. -/
theorem filter_groupFrom (size passed : Nat) {text : Text} (h : groupSeparator ∉ text) :
    (groupFrom size passed text).filter (· != groupSeparator) = text := by
  induction text generalizing passed with
  | nil => rfl
  | cons c rest ih =>
    obtain ⟨hc, hrest⟩ := not_or.mp (mt List.mem_cons.mpr h)
    have hc' : c ≠ groupSeparator := fun heq => hc heq.symm
    rw [groupFrom]
    split <;> simp [hc', ih _ hrest]

end PocketCalc.Number
