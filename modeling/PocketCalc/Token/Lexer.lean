/-
PocketCalc.Token.Lexer — cutting an expression into tokens.

Spaces are taken out first, so `2 3` is the number 23; any other blank is
an unexpected character. `lexeme` then reads one token from the front:

* a numeral is the longest run of digits and points;
* `pi`, in lower case, is a number also when letters follow it;
* `e` is a number unless a letter follows it;
* any other letter starts a word, the longest run of letters, which must
  name a function in some mixture of cases;
* every other token is a single character.

Only ASCII letters change case: the function names are ASCII, and no other
letter has a lower case made of letters of those names.
-/
import PocketCalc.Text.Alphabetic
import PocketCalc.Token
import PocketCalc.Fault

namespace PocketCalc.Token

open Text Number

/-! ## 1. One token -/

/-- The token that a single character stands for. -/
def ofSymbol? : Char → Option Token
  | '(' => some .openParen
  | ')' => some .closeParen
  | '+' => some (.operator (.binary .plus))
  | '-' | '−' => some .minus
  | '*' | '×' => some (.operator (.binary .times))
  | '/' | '÷' => some (.operator (.binary .divide))
  | '^' => some (.operator (.binary .power))
  | '!' => some (.suffix .factorial)
  | '%' => some (.suffix .percent)
  | _ => none

/-- The number that a numeral stands for. -/
def ofNumeral (numeral : Text) : Except SyntaxFault Token :=
  match Decimal.ofText? numeral with
  | some d => .ok (.number d.toFloat)
  | none => .error (.badNumber numeral)

/-- The function that a word names. -/
def ofWord (word : Text) : Except SyntaxFault Token :=
  match MathFunction.ofName? (word.map Char.toLower) with
  | some f => .ok (.function f)
  | none => .error (.unknownName word)

/-- The first token of a text without spaces that starts with `c`, and what
follows it. -/
def lexeme (c : Char) (rest : Text) : Except SyntaxFault (Token × Text) :=
  if isNumeralChar c then
    (ofNumeral (c :: rest.takeWhile isNumeralChar)).map (·, rest.dropWhile isNumeralChar)
  else if c = 'p' ∧ rest.head? = some 'i' then
    .ok (.number pi, rest.drop 1)
  else if c = 'e' ∧ rest.head?.any isAlphabetic = false then
    .ok (.number euler, rest)
  else if isAlphabetic c then
    (ofWord (c :: rest.takeWhile isAlphabetic)).map (·, rest.dropWhile isAlphabetic)
  else
    match ofSymbol? c with
    | some token => .ok (token, rest)
    | none => .error (.unexpectedChar c)

theorem length_dropWhile_le (p : Char → Bool) (text : Text) :
    (text.dropWhile p).length ≤ text.length :=
  (List.dropWhile_suffix p).length_le

/-- A token takes at least the first character. -/
theorem length_of_lexeme {c : Char} {rest left : Text} {token : Token}
    (h : lexeme c rest = .ok (token, left)) : left.length ≤ rest.length := by
  have map_ok : ∀ {found : Except SyntaxFault Token} {after : Text},
      found.map (·, after) = .ok (token, left) → after = left := by
    intro found after hmap
    cases found with
    | error fault => cases hmap
    | ok t => cases hmap; rfl
  unfold lexeme at h
  split at h
  · exact map_ok h ▸ length_dropWhile_le ..
  · split at h
    · cases h
      simp
    · split at h
      · cases h
        exact Nat.le_refl _
      · split at h
        · exact map_ok h ▸ length_dropWhile_le ..
        · split at h
          · cases h
            exact Nat.le_refl _
          · cases h

/-! ## 2. All tokens -/

/-- The tokens of a text without spaces. -/
def scan : Text → Except SyntaxFault (List Token)
  | [] => .ok []
  | c :: rest =>
    match h : lexeme c rest with
    | .ok (token, left) =>
      have : left.length < (c :: rest).length := Nat.lt_succ_of_le (length_of_lexeme h)
      (scan left).map (token :: ·)
    | .error fault => .error fault
termination_by text => text.length
decreasing_by assumption

/-- A text without its spaces. Other blanks stay. -/
def squeeze (text : Text) : Text :=
  text.filter (· != ' ')

/-- The tokens of an expression, or the first piece of it that is none. -/
def tokenize (expression : Text) : Except SyntaxFault (List Token) :=
  scan (squeeze expression)

/-! ## 3. One step of the scan -/

@[simp] theorem scan_nil : scan [] = .ok [] := by
  rw [scan]

theorem scan_cons_of_ok {c : Char} {rest left : Text} {token : Token}
    (h : lexeme c rest = .ok (token, left)) :
    scan (c :: rest) = (scan left).map (token :: ·) := by
  rw [scan]
  split
  · rename_i heq
    rw [h] at heq
    cases heq
    rfl
  · rename_i heq
    rw [h] at heq
    cases heq

theorem scan_cons_of_error {c : Char} {rest : Text} {fault : SyntaxFault}
    (h : lexeme c rest = .error fault) : scan (c :: rest) = .error fault := by
  rw [scan]
  split
  · rename_i heq
    rw [h] at heq
    cases heq
  · rename_i heq
    rw [h] at heq
    cases heq
    rfl

end PocketCalc.Token
