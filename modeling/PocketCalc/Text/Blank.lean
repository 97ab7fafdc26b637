/-
PocketCalc.Text.Blank — which characters are white space.

The set is the Unicode property `White_Space`: twenty-five characters, of
which only six are ASCII. A text is blank when it holds nothing else; the
empty text is blank.
-/
import PocketCalc.Text

namespace PocketCalc.Text

/-- The characters with the Unicode property `White_Space`, as closed
ranges of code points in increasing order. -/
def whiteSpaceRanges : List (Nat × Nat) :=
  [(0x0009, 0x000D), (0x0020, 0x0020), (0x0085, 0x0085), (0x00A0, 0x00A0), (0x1680, 0x1680),
   (0x2000, 0x200A), (0x2028, 0x2029), (0x202F, 0x202F), (0x205F, 0x205F), (0x3000, 0x3000)]

-- The set has twenty-five members.
example : (whiteSpaceRanges.map fun (low, high) => high + 1 - low).sum = 25 := rfl

/-- Whether a character is white space. -/
def isWhiteSpace (c : Char) : Bool :=
  whiteSpaceRanges.any fun (low, high) => low ≤ c.toNat && c.toNat ≤ high

/-- Whether a text shows nothing: it is empty or all white space. -/
def isBlank (text : Text) : Bool :=
  text.all isWhiteSpace

@[simp] theorem isBlank_nil : isBlank [] = true := rfl

end PocketCalc.Text
