/-
PocketCalc.Proofs.Token.ReadBack — the text of a token list is read as that
list.

The text has a space between two tokens, and reading it starts by taking
the spaces out. So the spaces keep nothing apart: two numbers in a row are
read as one, and two names in a row as one word (`merges`). Any other two
neighbours end and start with characters of no common run, so the texts of
the tokens are the segments of the whole text (`isCut_texts`), and each
stands for its token (`spells_text`). The list need not be a well-formed
expression.

The conditions on the tokens are what the text does not keep: a sign in
front of a number is read as an operator, and infinity, what is not a
number and a negation are written as words that name no function.

Main statement: `tokenize_listText`.
-/
import PocketCalc.Proofs.Number.Reentry
import PocketCalc.Proofs.Token.Language

namespace PocketCalc.Token

open Text Number

variable {text : Text} {token : Token} {c : Char}

/-! ## 1. The text of one token -/

/-- Whether the texts of two tokens in a row belong to one run. -/
def merges : Token → Token → Bool
  | number _, number _ | function _, function _ => true
  | _, _ => false

/-- The text that stands for one token and is one segment. -/
inductive Spells : Text → Token → Prop where
  | number {text : Text} {d : Decimal} {x : Float} (h : Decimal.Literal text d)
      (hx : d.toFloat = x) : Spells text (.number x)
  | function (f : MathFunction) : Spells f.name (.function f)
  | sign {c : Char} {token : Token} (h : ofSymbol? c = some token) : Spells [c] token

/-- A number without a sign is written as a literal that has its value. -/
theorem spells_number {x : Float} (hfinite : x.isFinite = true) (hx : 0 ≤ x) (hzero : x ≠ -0) :
    Spells (floatText x) (.number x) := by
  obtain ⟨rank, h⟩ := exists_rank_of_nonneg hfinite hx hzero
  have hrank : rank < infinityRank := (ofFloat_eq_finite_iff.mp h).2
  have htext : floatText x = (shortest rank).text := by
    rw [floatText, h]
    rfl
  have hvalue : (shortest rank).toFloat = x := by
    rw [toFloat_shortest hrank]
    exact (eq_of_ofFloat_finite h).symm
  rw [htext]
  exact .number (Decimal.literal_text _) hvalue

/-- The text of a token spells it, unless the token is a negation or a number that has a sign,
is infinite or is not a number. -/
theorem spells_text (hnegate : token ≠ .operator .negate)
    (hnumber : ∀ x, token = .number x → x.isFinite = true ∧ 0 ≤ x ∧ x ≠ -0) :
    Spells token.text token := by
  cases token with
  | number x =>
    obtain ⟨hfinite, hx, hzero⟩ := hnumber x rfl
    exact spells_number hfinite hx hzero
  | operator op =>
    cases op with
    | binary op => cases op <;> exact .sign rfl
    | negate => exact absurd rfl hnegate
  | function f => exact .function f
  | suffix s => cases s <;> exact .sign rfl
  | openParen | closeParen => exact .sign rfl

theorem isAlphabetic_of_mem_name {f : MathFunction} (hc : c ∈ f.name) : isAlphabetic c = true :=
  isAlphabetic_of_isAlpha (isAlpha_of_mem_name f.map_toLower_name hc)

theorem Spells.means (h : Spells text token) : Means text [token] := by
  cases h with
  | number hliteral hx =>
    subst hx
    exact .numeral hliteral
  | function f => exact .letters 0 (.name f.map_toLower_name)
  | sign hsymbol => exact .sign (ofSymbol?_eq_some_iff.mp hsymbol)

theorem Spells.isSegment (h : Spells text token) : IsSegment text := by
  cases h with
  | number hliteral _ => exact .numeral hliteral.ne_nil hliteral.isNumeralChar
  | function f =>
    obtain ⟨first, second, rest, hname, -⟩ := f.name_shape
    exact .letters (by simp [hname]) fun c hc => isAlphabetic_of_mem_name hc
  | sign hsymbol =>
    obtain ⟨hnumeral, hletter⟩ := not_piece_of_ofSymbol? hsymbol
    exact .single hnumeral hletter

/-- Only the text of a number has characters of a numeral. -/
theorem Spells.exists_number (h : Spells text token) (hc : c ∈ text)
    (hnumeral : isNumeralChar c = true) : ∃ x, token = .number x := by
  cases h with
  | number _ _ => exact ⟨_, rfl⟩
  | function f =>
    have hother := isNumeralChar_of_isAlphabetic (isAlphabetic_of_mem_name hc)
    rw [hnumeral] at hother
    cases hother
  | sign hsymbol =>
    obtain rfl := List.mem_singleton.mp hc
    have hother := (not_piece_of_ofSymbol? hsymbol).1
    rw [hnumeral] at hother
    cases hother

/-- Only the text of a function has letters. -/
theorem Spells.exists_function (h : Spells text token) (hc : c ∈ text)
    (hletter : isAlphabetic c = true) : ∃ f, token = .function f := by
  cases h with
  | number hliteral _ =>
    have hother := isNumeralChar_of_isAlphabetic hletter
    rw [hliteral.isNumeralChar c hc] at hother
    cases hother
  | function f => exact ⟨f, rfl⟩
  | sign hsymbol =>
    obtain rfl := List.mem_singleton.mp hc
    have hother := (not_piece_of_ofSymbol? hsymbol).2
    rw [hletter] at hother
    cases hother

/-- Two tokens whose texts belong to one run are two numbers or two functions. -/
theorem Spells.separable {front back : Text} {first second : Token} (hfirst : Spells front first)
    (hsecond : Spells back second) (h : merges first second = false) : Separable front back := by
  intro c hc d hd
  have hcmem : c ∈ front := List.mem_of_getLast? hc
  have hdmem : d ∈ back := List.mem_of_mem_head? hd
  refine joins_eq_false_iff.mpr ⟨?_, ?_⟩
  · intro hcnum
    refine Bool.eq_false_iff.mpr ?_
    intro hdnum
    obtain ⟨x, rfl⟩ := hfirst.exists_number hcmem hcnum
    obtain ⟨y, rfl⟩ := hsecond.exists_number hdmem hdnum
    cases h
  · intro hcletter
    refine Bool.eq_false_iff.mpr ?_
    intro hdletter
    obtain ⟨f, rfl⟩ := hfirst.exists_function hcmem hcletter
    obtain ⟨g, rfl⟩ := hsecond.exists_function hdmem hdletter
    cases h

theorem Spells.space_not_mem (h : Spells text token) : ' ' ∉ text := by
  intro hspace
  cases h with
  | number hliteral _ => exact absurd (hliteral.isNumeralChar ' ' hspace) (by decide)
  | function f => exact absurd (isAlphabetic_of_mem_name hspace) (by decide)
  | sign hsymbol =>
    obtain rfl := List.mem_singleton.mp hspace
    cases hsymbol

/-! ## 2. The text of a list -/

/-- Without its spaces, the text of a list is the texts of its tokens in a row. -/
theorem squeeze_listText {tokens : List Token} (h : ∀ token ∈ tokens, ' ' ∉ token.text) :
    squeeze (listText tokens) = (tokens.map Token.text).flatten := by
  induction tokens with
  | nil => rfl
  | cons first tokens ih =>
    obtain ⟨hfirst, htokens⟩ := List.forall_mem_cons.mp h
    have hrest := ih htokens
    cases tokens with
    | nil => simp [listText, squeeze_of_no_space hfirst]
    | cons second tokens =>
      have hlist : listText (first :: second :: tokens) =
          first.text ++ ' ' :: listText (second :: tokens) := by
        simp [listText]
      rw [hlist, squeeze_append, squeeze_of_no_space hfirst, List.map_cons, List.flatten_cons,
        ← hrest]
      rfl

/-- The texts of the tokens are the segments of the text. -/
theorem isCut_texts {tokens : List Token} (h : ∀ token ∈ tokens, Spells token.text token)
    (hapart : tokens.IsChain fun first second => merges first second = false) :
    IsCut (tokens.map Token.text).flatten (tokens.map Token.text) where
  flatten := rfl
  segment := by
    intro part hpart
    obtain ⟨token, htoken, rfl⟩ := List.mem_map.mp hpart
    exact (h token htoken).isSegment
  maximal := by
    refine (List.isChain_map _).mpr (hapart.imp_of_mem_imp ?_)
    intro first second hfirst hsecond
    exact (h first hfirst).separable (h second hsecond)

/-- The text of a token list is read as that list, when no number in it has a sign, is infinite
or is not a number, there is no negation in it, and no two numbers and no two functions are
neighbours. -/
theorem tokenize_listText {tokens : List Token}
    (hnumbers : ∀ x, .number x ∈ tokens → x.isFinite = true ∧ 0 ≤ x ∧ x ≠ -0)
    (hnegate : .operator .negate ∉ tokens)
    (hapart : tokens.IsChain fun first second => merges first second = false) :
    tokenize (listText tokens) = .ok tokens := by
  have hspells : ∀ token ∈ tokens, Spells token.text token := by
    intro token htoken
    refine spells_text ?_ ?_
    · rintro rfl
      exact hnegate htoken
    · rintro x rfl
      exact hnumbers x htoken
  have hsqueeze := squeeze_listText fun token htoken => (hspells token htoken).space_not_mem
  rw [tokenize, hsqueeze, (isCut_texts hspells hapart).scan_eq_ok_iff]
  refine ⟨tokens.map fun token => [token], ?_, List.flatMap_singleton' tokens⟩
  rw [List.forall₂_map_left_iff, List.forall₂_map_right_iff, List.forall₂_same]
  intro token htoken
  exact (hspells token htoken).means.scan

/-- The list need not be an expression: here names and operators have no operands, and a
parenthesis is closed that was never opened. -/
theorem tokenize_listText_misplaced :
    tokenize (listText [.function .sin, .number 3, .function .exp, .closeParen, .number 0.5,
      .suffix .factorial, minus]) =
        .ok [.function .sin, .number 3, .function .exp, .closeParen, .number 0.5,
          .suffix .factorial, minus] := by
  refine tokenize_listText ?_ (by decide) (by decide)
  intro x hx
  obtain rfl | rfl : x = 3 ∨ x = 0.5 := by simpa using hx
  · decide +kernel
  · decide +kernel

end PocketCalc.Token
