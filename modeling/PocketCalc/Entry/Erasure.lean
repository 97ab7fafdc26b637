/-
PocketCalc.Entry.Erasure — taking the last symbol off the entry line.

Spaces at the end go first. Then what one key wrote goes as a whole: the
name of a function with its parenthesis, `pi`, `^2` or `^3`; anything else
goes a character at a time. The table is searched from the longest piece
to the shortest, so `asinh(` is not taken for `sinh(`.
-/
import PocketCalc.Entry.Splice
import PocketCalc.MathFunction

namespace PocketCalc.Entry

/-- The functions by length of name, longest first. -/
def functionsByLength : List MathFunction :=
  [.asinh, .acosh, .atanh, .sqrt, .cbrt, .asin, .acos, .atan, .sinh, .cosh, .tanh,
   .abs, .sin, .cos, .tan, .log, .exp, .ln]

/-- The pieces that are erased as a whole, longest first. -/
def erasedPieces : List Text :=
  functionsByLength.map (fun f => f.name ++ ['(']) ++ [['p', 'i'], ['^', '2'], ['^', '3']]

/-- The line without the spaces at its end. -/
def trimSpaces (entry : Text) : Text :=
  (entry.reverse.dropWhile (· = ' ')).reverse

/-- The edit that erases the last symbol. -/
def erasure (entry : Text) : Splice :=
  let trimmed := trimSpaces entry
  match erasedPieces.find? (·.isSuffixOf trimmed) with
  | some piece => ⟨trimmed.byteSize - piece.byteSize, []⟩
  | none => .replaceLast trimmed []

/-- The line without its last symbol. -/
def eraseLast (entry : Text) : Text :=
  (erasure entry).edited entry

end PocketCalc.Entry
