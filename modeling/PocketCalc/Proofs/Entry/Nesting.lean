/-
PocketCalc.Proofs.Entry.Nesting — lines that close what they open.

Parentheses match by their order, so a count of all of them does not tell
whether each closing one has a partner: that is a fact on every prefix of
the line (`Nested`). The lemmas of section 1 say what can be written
behind a nested line. A nested line that is closed is closed for good:
its tokens, if it has any, match (`balanced_iff_of_tokenize`) and can be
reordered.

Main statement: `evaluate_ne_unmatchedParens`.
-/
import PocketCalc.Entry.Parens
import PocketCalc.Proofs.Rpn.Matching
import PocketCalc.Proofs.Token.Faults

namespace PocketCalc

namespace Entry

/-! ## 1. Lines that close what they open -/

/-- No prefix of the line has more closing parentheses than opening ones. -/
def Nested (entry : Text) : Prop :=
  ∀ front, front <+: entry → front.count ')' ≤ front.count '('

variable {entry back : Text}

theorem Nested.count_le (h : Nested entry) : entry.count ')' ≤ entry.count '(' :=
  h entry List.prefix_rfl

theorem Nested.of_append (h : Nested (entry ++ back)) : Nested entry := by
  intro front hfront
  exact h front (hfront.trans (List.prefix_append entry back))

/-- What closes nothing is nested. -/
theorem nested_of_not_mem (h : ')' ∉ entry) : Nested entry := by
  intro front hfront
  rw [List.count_eq_zero.mpr fun hmem => h (hfront.subset hmem)]
  exact Nat.zero_le _

/-- A text can be written behind a nested line when it closes no more at any point than is
open there. -/
theorem Nested.append (h : Nested entry)
    (hback : ∀ front, front <+: back →
      entry.count ')' + front.count ')' ≤ entry.count '(' + front.count '(') :
    Nested (entry ++ back) := by
  rintro front ⟨rest, hrest⟩
  rcases List.append_eq_append_iff.mp hrest with ⟨left, hentry, -⟩ | ⟨piece, rfl, hpiece⟩
  · exact h front ⟨left, hentry.symm⟩
  · simpa only [List.count_append] using hback piece ⟨rest, hpiece.symm⟩

theorem Nested.append_nested (h : Nested entry) (hback : Nested back) : Nested (entry ++ back) := by
  refine h.append ?_
  intro front hfront
  have hentry := h.count_le
  have hpiece := hback front hfront
  omega

theorem Nested.append_of_not_mem (h : Nested entry) (hback : ')' ∉ back) :
    Nested (entry ++ back) :=
  h.append_nested (nested_of_not_mem hback)

/-- As many parentheses can be closed as are open. -/
theorem Nested.close {n : Nat} (h : Nested entry)
    (hopen : entry.count ')' + n ≤ entry.count '(') : Nested (entry ++ List.replicate n ')') := by
  refine h.append ?_
  intro front hfront
  have hcount := hfront.count_le ')'
  rw [List.count_replicate_self] at hcount
  omega

/-- A text in parentheses of its own can be written behind a nested line. -/
theorem Nested.group {opening inner : Text} (h : Nested entry) (hopening : '(' ∈ opening)
    (hclose : ')' ∉ opening ++ inner) : Nested (entry ++ opening ++ inner ++ [')']) := by
  rw [List.append_assoc entry]
  refine (h.append_of_not_mem hclose).close (n := 1) ?_
  have hentry := h.count_le
  have hopened := List.count_pos_iff.mpr hopening
  have hnone := List.count_eq_zero.mpr hclose
  simp only [List.count_append] at hnone ⊢
  omega

/-- The closed line is nested, and has as many closing parentheses as opening ones. -/
theorem Nested.closeParens (h : Nested entry) :
    Nested (closeParens entry) ∧
      (Entry.closeParens entry).count '(' = (Entry.closeParens entry).count ')' := by
  have hentry := h.count_le
  constructor
  · refine h.close ?_
    unfold unclosed
    omega
  · rw [count_open_closeParens, count_close_closeParens, unclosed]
    omega

/-! ## 2. Reading them -/

open Token in
/-- The parentheses of a text match when it is nested and closes all that it opens. -/
theorem balanced_parens_iff (text : Text) :
    Token.Balanced (text.filterMap parenOf?) ↔ Nested text ∧ text.count '(' = text.count ')' := by
  have hopen := count_filterMap_parenOf? parenOf?_eq_openParen_iff
  have hclose := count_filterMap_parenOf? parenOf?_eq_closeParen_iff
  have hfronts : (∀ front, front <+: text.filterMap parenOf? →
      front.count .closeParen ≤ front.count .openParen) ↔ Nested text := by
    constructor
    · intro h front hfront
      rw [← hopen, ← hclose]
      exact h _ (hfront.filterMap parenOf?)
    · intro h front hfront
      obtain ⟨start, hstart, rfl⟩ := List.prefix_filterMap_iff.mp hfront
      rw [hopen, hclose]
      exact h start hstart
  rw [Token.Balanced, hfronts, hopen, hclose]

/-- The parentheses of a text match when those of its tokens do. -/
theorem balanced_iff_of_tokenize {text : Text} {tokens : List Token}
    (h : Token.tokenize text = .ok tokens) :
    Token.Balanced tokens ↔ Nested text ∧ text.count '(' = text.count ')' := by
  rw [← balanced_parens_iff, ← Token.tokenize_parens h, Token.balanced_filter_isParen]

end Entry

namespace Expression

/-- What is nested and closes all that it opens is never refused for its parentheses. -/
theorem evaluate_ne_unmatchedParens {text : Text} (h : Entry.Nested text)
    (htotal : text.count '(' = text.count ')') (unit : AngleUnit) :
    evaluate unit text ≠ .error (.reading .unmatchedParens) := by
  intro herror
  cases hblank : Text.isBlank text with
  | true =>
    rw [evaluate, if_pos hblank] at herror
    cases herror
  | false =>
    cases htokens : Token.tokenize text with
    | error fault =>
      rw [evaluate_of_tokenize_error hblank htokens] at herror
      cases herror
      exact Token.tokenize_ne_unmatchedParens text htokens
    | ok tokens =>
      have hbalanced := (Entry.balanced_iff_of_tokenize htokens).mpr ⟨h, htotal⟩
      obtain ⟨rpn, hrpn⟩ := Rpn.exists_ofTokens_iff.mpr (Token.balanced_markSigns.mpr hbalanced)
      rw [evaluate_of_tokenize hblank htokens, evaluateTokens, hrpn] at herror
      cases hvalue : Rpn.eval unit rpn <;> simp [hvalue] at herror

end Expression

end PocketCalc
