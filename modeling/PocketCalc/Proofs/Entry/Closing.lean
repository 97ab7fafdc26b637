/-
PocketCalc.Proofs.Entry.Closing — what closing the open parentheses
repairs.

How many closing parentheses are missing is read off two totals, and the
totals say nothing of the order. Whether the closed line can be reordered
is a matter of the order alone: in `)(` nothing is missing, and it is wrong
all the same. What closing adds stands behind everything else, so it brings
no prefix back into order and puts none out of it
(`nested_closeParens_iff`), and it is read as closing parentheses and
nothing else, whatever the line ends with (`tokenize_closeParens`).

Main statement: `closeParens_repairs`.
-/
import PocketCalc.Proofs.Entry.Nesting
import PocketCalc.Proofs.Token.Locality

namespace PocketCalc

/-! ## 1. Which expressions have a working -/

namespace Expression

variable {text : Text} {tokens : List Token}

/-- An expression that is cut into tokens has a working when its parentheses match. -/
theorem exists_working_iff (h : Token.tokenize text = .ok tokens) :
    (∃ found, working text = .ok found) ↔ Token.Balanced tokens := by
  rw [← Token.balanced_markSigns, ← Rpn.exists_ofTokens_iff, working_of_tokenize h]
  cases Rpn.ofTokens (Token.markSigns tokens) <;> simp [Except.map]

/-- Otherwise its parentheses are all that is wrong. -/
theorem working_eq_unmatchedParens_iff (h : Token.tokenize text = .ok tokens) :
    working text = .error .unmatchedParens ↔ ¬Token.Balanced tokens := by
  constructor
  · intro herror hbalanced
    obtain ⟨found, hfound⟩ := (exists_working_iff h).mpr hbalanced
    rw [herror] at hfound
    cases hfound
  · intro hbalanced
    rw [← Token.balanced_markSigns] at hbalanced
    rw [working_of_tokenize h, Rpn.ofTokens_of_not_balanced hbalanced]
    rfl

end Expression

/-! ## 2. The closed line -/

namespace Token

theorem separable_replicate {c : Char} {token : Token} (h : ofSymbol? c = some token)
    (front : Text) (n : Nat) : Separable front (List.replicate n c) := by
  cases n with
  | zero =>
    intro last hlast d hd
    cases hd
  | succ n => exact separable_symbol h

theorem squeeze_replicate_close (n : Nat) :
    squeeze (List.replicate n ')') = List.replicate n ')' := by
  simp [squeeze]

/-- Closing parentheses in a row are read one by one. -/
theorem scan_replicate_close (n : Nat) :
    scan (List.replicate n ')') = .ok (List.replicate n .closeParen) := by
  induction n with
  | zero => simp
  | succ n ih =>
    rw [List.replicate_succ, scan_cons_of_ok (lexeme_symbol rfl _), ih]
    rfl

end Token

namespace Entry

variable {entry : Text} {tokens : List Token}

/-- The closed line is read as the line is, with the closing parentheses behind it. -/
theorem tokenize_closeParens_iff :
    Token.tokenize (closeParens entry) = .ok tokens ↔
      ∃ read, Token.tokenize entry = .ok read ∧
        read ++ List.replicate (unclosed entry) .closeParen = tokens := by
  have hsqueeze := Token.squeeze_replicate_close (unclosed entry)
  have hclose : Token.tokenize (List.replicate (unclosed entry) ')') =
      .ok (List.replicate (unclosed entry) .closeParen) := by
    rw [Token.tokenize, hsqueeze, Token.scan_replicate_close]
  have hcut : Token.Separable (Token.squeeze entry)
      (Token.squeeze (List.replicate (unclosed entry) ')')) := by
    rw [hsqueeze]
    exact Token.separable_replicate rfl _ _
  rw [closeParens, Token.tokenize_append_iff hcut]
  simp [hclose]

theorem tokenize_closeParens (h : Token.tokenize entry = .ok tokens) :
    Token.tokenize (closeParens entry) =
      .ok (tokens ++ List.replicate (unclosed entry) .closeParen) :=
  tokenize_closeParens_iff.mpr ⟨tokens, h, rfl⟩

theorem nested_closeParens_iff : Nested (closeParens entry) ↔ Nested entry :=
  ⟨fun h => h.of_append, fun h => h.closeParens.1⟩

/-- The parentheses of the closed line match when those of the line close nothing that was not
opened. -/
theorem balanced_closeParens_iff (h : Token.tokenize (closeParens entry) = .ok tokens) :
    Token.Balanced tokens ↔ Nested entry := by
  rw [balanced_iff_of_tokenize h, nested_closeParens_iff]
  constructor
  · intro hbalanced
    exact hbalanced.1
  · intro hnested
    exact ⟨hnested, hnested.closeParens.2⟩

theorem not_nested_iff :
    ¬Nested entry ↔ ∃ front, front <+: entry ∧ front.count '(' < front.count ')' := by
  simp [Nested]

/-- An expression that has a working is closed. -/
theorem closeParens_of_working {found : Expression.Working}
    (h : Expression.working entry = .ok found) : closeParens entry = entry := by
  cases htokens : Token.tokenize entry with
  | error fault =>
    rw [Expression.working_of_tokenize_error htokens] at h
    cases h
  | ok tokens =>
    have hbalanced := (Expression.exists_working_iff htokens).mp ⟨found, h⟩
    obtain ⟨-, htotal⟩ := (balanced_iff_of_tokenize htokens).mp hbalanced
    exact closeParens_eq_self (Nat.le_of_eq htotal)

/-- Closing adds to the tokens of a line the closing parentheses that are missing. The closed
line is refused for its parentheses when some prefix of the line closes more than it opens,
and has a working otherwise. Closing twice closes no more than closing once, and leaves every
line alone that has a working. -/
theorem closeParens_repairs (entry : Text) :
    (∀ tokens, Token.tokenize entry = .ok tokens →
      Token.tokenize (closeParens entry) =
        .ok (tokens ++ List.replicate (entry.count '(' - entry.count ')') .closeParen) ∧
      (Expression.working (closeParens entry) = .error .unmatchedParens ↔
        ∃ front, front <+: entry ∧ front.count '(' < front.count ')') ∧
      ((¬∃ front, front <+: entry ∧ front.count '(' < front.count ')') →
        ∃ found, Expression.working (closeParens entry) = .ok found)) ∧
    closeParens (closeParens entry) = closeParens entry ∧
    (∀ found, Expression.working entry = .ok found → closeParens entry = entry) := by
  refine ⟨?_, closeParens_closeParens entry, fun found => closeParens_of_working⟩
  intro tokens htokens
  have hclosed := tokenize_closeParens htokens
  rw [← not_nested_iff, not_not, Expression.working_eq_unmatchedParens_iff hclosed,
    Expression.exists_working_iff hclosed, balanced_closeParens_iff hclosed]
  exact ⟨hclosed, Iff.rfl, id⟩

/-- Two parentheses are missing, and an operand with them; then none is missing, but the order
is wrong. -/
theorem closeParens_repairs_misplaced :
    Token.tokenize (closeParens "sqrt( 2*(pi+".toList) =
      .ok ([.function .sqrt, .openParen, .number (Number.Decimal.toFloat ⟨2, 0⟩),
        .operator (.binary .times), .openParen, .number pi, .operator (.binary .plus)] ++
          [.closeParen, .closeParen]) ∧
    (∃ found, Expression.working (closeParens "sqrt( 2*(pi+".toList) = .ok found) ∧
    Expression.working (closeParens "pi)+(e".toList) = .error .unmatchedParens := by
  have hopen : Token.tokenize "sqrt( 2*(pi+".toList =
      .ok [.function .sqrt, .openParen, .number (Number.Decimal.toFloat ⟨2, 0⟩),
        .operator (.binary .times), .openParen, .number pi, .operator (.binary .plus)] := by
    with_unfolding_all rfl
  have hwrong : Token.tokenize "pi)+(e".toList =
      .ok [.number pi, .closeParen, .operator (.binary .plus), .openParen, .number euler] := by
    with_unfolding_all rfl
  obtain ⟨hread, -, hfound⟩ := (closeParens_repairs "sqrt( 2*(pi+".toList).1 _ hopen
  obtain ⟨-, hrefused, -⟩ := (closeParens_repairs "pi)+(e".toList).1 _ hwrong
  refine ⟨hread, hfound ?_, hrefused.mpr ⟨"pi)".toList, by decide, by decide⟩⟩
  rw [← not_nested_iff, not_not]
  exact nested_of_not_mem (by decide)

end Entry

end PocketCalc
