/-
PocketCalc.Entry.Pretty — the entry line as mathematicians write it.

Numbers get thousands separators before their point, called functions
their usual sign, `pi` becomes π, a square or a cube an exponent, and the
signs of multiplication and division their own. The line that is evaluated
stays as typed.
-/
import PocketCalc.Number.Grouping
import PocketCalc.Number.Digits
import PocketCalc.MathFunction

namespace PocketCalc.Entry

open Number

/-! ## 1. Pieces -/

/-- A numeral with separators before its first point. -/
def prettyNumeral (numeral : Text) : Text :=
  group (numeral.takeWhile (· ≠ '.')) ++ numeral.dropWhile (· ≠ '.')

/-- A word with every `pi` in it replaced, from left to right. -/
def prettyPi : Text → Text
  | 'p' :: 'i' :: rest => 'π' :: prettyPi rest
  | c :: rest => c :: prettyPi rest
  | [] => []

/-- A word. A function has its sign only where it is called. -/
def prettyWord (word : Text) (called : Bool) : Text :=
  match MathFunction.ofName? word with
  | some f => if called then f.glyph else word
  | none => prettyPi word

/-- An exponent two or three at the front of a text, and what follows it.
The exponent must not go on with a digit or a point. -/
def exponent? : Text → Option (Char × Text)
  | '^' :: '2' :: rest => if rest.head?.any isNumeralChar then none else some ('²', rest)
  | '^' :: '3' :: rest => if rest.head?.any isNumeralChar then none else some ('³', rest)
  | _ => none

/-- A character by itself. -/
def prettyChar : Char → Char
  | '/' => '÷'
  | '*' => '×'
  | c => c

theorem length_of_exponent? {text rest : Text} {glyph : Char}
    (h : exponent? text = some (glyph, rest)) : rest.length < text.length := by
  unfold exponent? at h
  split at h
  · split at h
    · cases h
    · cases h
      simp only [List.length_cons]
      omega
  · split at h
    · cases h
    · cases h
      simp only [List.length_cons]
      omega
  · cases h

/-! ## 2. The line -/

/-- The line as it is shown. -/
def pretty : Text → Text
  | [] => []
  | c :: rest =>
    if isNumeralChar c then
      prettyNumeral (c :: rest.takeWhile isNumeralChar) ++ pretty (rest.dropWhile isNumeralChar)
    else if c.isAlpha then
      let left := rest.dropWhile Char.isAlpha
      prettyWord (c :: rest.takeWhile Char.isAlpha) (left.head? = some '(') ++ pretty left
    else
      match h : exponent? (c :: rest) with
      | some (glyph, left) =>
        have : left.length < (c :: rest).length := length_of_exponent? h
        glyph :: pretty left
      | none => prettyChar c :: pretty rest
termination_by text => text.length
decreasing_by
  · exact Nat.lt_succ_of_le (List.dropWhile_suffix _).length_le
  · exact Nat.lt_succ_of_le (List.dropWhile_suffix _).length_le
  · assumption
  · exact Nat.lt_succ_self _

end PocketCalc.Entry
