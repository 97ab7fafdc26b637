/-
PocketCalc.Proofs.Token.Lexemes — what one step of the scan reads.

Each kind of lexeme has one statement: where it starts, it is read whole
and nothing else with it. A numeral and a word need a side condition on
what follows, because both are read as far as they go. The conditions that
keep the kinds apart are facts about characters and come first.
-/
import PocketCalc.Token.Lexer

namespace PocketCalc

/-! ## 1. Kinds of characters -/

namespace Text

open Number

theorem isNumeralChar_of_isDigit {c : Char} (h : c.isDigit = true) : isNumeralChar c = true := by
  simp [isNumeralChar, h]

/-- The code points of a numeral. -/
theorem toNat_of_isNumeralChar {c : Char} (h : isNumeralChar c = true) :
    46 ≤ c.toNat ∧ c.toNat ≤ 57 := by
  simp only [isNumeralChar, Bool.or_eq_true, decide_eq_true_eq] at h
  rcases h with h | rfl
  · have hd := Char.isDigit_iff_toNat.mp h
    simp only [Char.reduceToNat] at hd
    omega
  · decide

/-- No letter belongs to a numeral. -/
theorem isNumeralChar_of_isAlphabetic {c : Char} (h : isAlphabetic c = true) :
    isNumeralChar c = false := by
  refine Bool.eq_false_iff.mpr ?_
  intro hnum
  have hc := toNat_of_isNumeralChar hnum
  have hascii : c.toNat < 0x80 := by omega
  simp only [isAlphabetic, hascii, if_true] at h
  have := toNat_of_isAlpha h
  omega

theorem isAlpha_of_isLower {c : Char} (h : c.isLower = true) : c.isAlpha = true :=
  Bool.or_eq_true_iff.mpr (Or.inr h)

/-- Only a letter has a letter as its lower case. -/
theorem isAlpha_of_isLower_toLower {c : Char} (h : c.toLower.isLower = true) :
    c.isAlpha = true := by
  by_cases hc : c.val ≥ 'A'.val ∧ c.val ≤ 'Z'.val
  · exact Bool.or_eq_true_iff.mpr (Or.inl (decide_eq_true hc))
  · have hsame : c.toLower = c := dif_neg hc
    rw [hsame] at h
    exact isAlpha_of_isLower h

end Text

namespace MathFunction

/-- A name has at least two letters, all lower case, and does not start with a `p`. -/
theorem name_shape (f : MathFunction) :
    ∃ c d rest, f.name = c :: d :: rest ∧ c ≠ 'p' ∧ (c :: d :: rest).all Char.isLower = true := by
  cases f <;> exact ⟨_, _, _, rfl, by decide, by decide⟩

/-- Names are written in lower case. -/
theorem map_toLower_name (f : MathFunction) : f.name.map Char.toLower = f.name := by
  cases f <;> decide

end MathFunction

namespace Token

open Text Number

/-- A character that is a token by itself belongs to no numeral and no word. -/
theorem not_piece_of_ofSymbol? {c : Char} {token : Token} (h : ofSymbol? c = some token) :
    isNumeralChar c = false ∧ isAlphabetic c = false := by
  unfold ofSymbol? at h
  split at h
  case h_13 => cases h
  all_goals decide +kernel

/-! ## 2. Runs of characters -/

theorem takeWhile_run {α : Type} {p : α → Bool} {run rest : List α}
    (hrun : ∀ c ∈ run, p c = true)
    (hrest : ∀ c ∈ rest.head?, p c = false) : (run ++ rest).takeWhile p = run := by
  rw [List.takeWhile_append_of_pos hrun]
  cases rest with
  | nil => simp
  | cons c rest => simp [hrest c rfl]

theorem dropWhile_run {p : Char → Bool} {run rest : Text} (hrun : ∀ c ∈ run, p c = true)
    (hrest : ∀ c ∈ rest.head?, p c = false) : (run ++ rest).dropWhile p = rest := by
  rw [List.dropWhile_append_of_pos hrun]
  cases rest with
  | nil => simp
  | cons c rest => simp [hrest c rfl]

/-! ## 3. One lexeme of each kind -/

/-- A character of no numeral and no word is looked up alone. -/
theorem lexeme_single {c : Char} (hnum : isNumeralChar c = false) (halpha : isAlphabetic c = false)
    (rest : Text) :
    lexeme c rest =
      (ofSymbol? c).elim (.error (.unexpectedChar c)) fun token => .ok (token, rest) := by
  have hp : c ≠ 'p' := by
    intro hc
    subst hc
    exact absurd halpha (by decide)
  have he : c ≠ 'e' := by
    intro hc
    subst hc
    exact absurd halpha (by decide)
  simp only [lexeme, hnum, halpha, hp, he, false_and, Bool.false_eq_true, if_false]
  cases ofSymbol? c <;> rfl

theorem lexeme_symbol {c : Char} {token : Token} (h : ofSymbol? c = some token) (rest : Text) :
    lexeme c rest = .ok (token, rest) := by
  obtain ⟨hnum, halpha⟩ := not_piece_of_ofSymbol? h
  rw [lexeme_single hnum halpha, h, Option.elim_some]

theorem lexeme_numeral {c : Char} {run rest : Text} (hrun : ∀ x ∈ c :: run, isNumeralChar x = true)
    (hrest : ∀ x ∈ rest.head?, isNumeralChar x = false) :
    lexeme c (run ++ rest) = (ofNumeral (c :: run)).map (·, rest) := by
  obtain ⟨hc, hrun'⟩ := List.forall_mem_cons.mp hrun
  rw [lexeme, if_pos hc, takeWhile_run hrun' hrest, dropWhile_run hrun' hrest]

theorem lexeme_pi (rest : Text) : lexeme 'p' ('i' :: rest) = .ok (.number pi, rest) := by
  have hnum : isNumeralChar 'p' = false := by decide
  simp [lexeme, hnum]

theorem lexeme_euler {rest : Text} (hrest : ∀ x ∈ rest.head?, isAlphabetic x = false) :
    lexeme 'e' rest = .ok (.number euler, rest) := by
  have hnum : isNumeralChar 'e' = false := by decide
  have hnext : rest.head?.any isAlphabetic = false := by
    cases rest with
    | nil => rfl
    | cons c rest => simpa using hrest c rfl
  simp [lexeme, hnum, hnext]

/-- A word is read as a name unless it starts with `pi` or is an `e` alone. -/
theorem lexeme_word {c : Char} {run rest : Text} (hrun : ∀ x ∈ c :: run, isAlphabetic x = true)
    (hrest : ∀ x ∈ rest.head?, isAlphabetic x = false)
    (hpi : ¬(c = 'p' ∧ (run ++ rest).head? = some 'i')) (he : c = 'e' → run ≠ []) :
    lexeme c (run ++ rest) = (ofWord (c :: run)).map (·, rest) := by
  obtain ⟨hc, hrun'⟩ := List.forall_mem_cons.mp hrun
  have hnum : isNumeralChar c = false := isNumeralChar_of_isAlphabetic hc
  have hlone : ¬(c = 'e' ∧ (run ++ rest).head?.any isAlphabetic = false) := by
    rintro ⟨hce, hnext⟩
    cases run with
    | nil => exact he hce rfl
    | cons d run => simp [hrun' d (by simp)] at hnext
  rw [lexeme, if_neg (by simp [hnum]), if_neg hpi, if_neg hlone, if_pos hc,
    takeWhile_run hrun' hrest, dropWhile_run hrun' hrest]

/-! ## 4. Names of functions -/

/-- A word that is a name in some mixture of cases calls that function. -/
theorem ofWord_name {word : Text} {f : MathFunction} (h : word.map Char.toLower = f.name) :
    ofWord word = .ok (.function f) := by
  simp [ofWord, h]

/-- The characters of such a word are letters. -/
theorem isAlpha_of_mem_name {word : Text} {f : MathFunction} (h : word.map Char.toLower = f.name)
    {c : Char} (hc : c ∈ word) : c.isAlpha = true := by
  obtain ⟨first, second, tail, hname, -, hlower⟩ := f.name_shape
  have hmem : c.toLower ∈ first :: second :: tail := by
    rw [← hname, ← h]
    exact List.mem_map_of_mem hc
  exact isAlpha_of_isLower_toLower (List.all_eq_true.mp hlower _ hmem)

/-- A name in some mixture of cases is read whole. -/
theorem lexeme_name {c : Char} {run rest : Text} {f : MathFunction}
    (h : (c :: run).map Char.toLower = f.name) (hrest : ∀ x ∈ rest.head?, isAlphabetic x = false) :
    lexeme c (run ++ rest) = .ok (.function f, rest) := by
  obtain ⟨first, second, tail, hname, hp, -⟩ := f.name_shape
  have hletters : ∀ x ∈ c :: run, isAlphabetic x = true := by
    intro x hx
    exact isAlphabetic_of_isAlpha (isAlpha_of_mem_name h hx)
  have hchars := h
  rw [hname] at hchars
  simp only [List.map_cons, List.cons.injEq] at hchars
  have hcp : c ≠ 'p' := by
    intro hc
    subst hc
    exact hp (hchars.1 ▸ by decide)
  have hne : run ≠ [] := by
    intro hrun
    subst hrun
    simp at hchars
  rw [lexeme_word hletters hrest (fun hpi => hcp hpi.1) (fun _ => hne), ofWord_name h]
  rfl

end Token

end PocketCalc
