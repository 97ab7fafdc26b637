/-
PocketCalc.Proofs.Formula.Value — a text that is read as a formula is worth
what the formula is worth.

The pipeline answers a blank text before it reads it, so of a text that was
read one must know that it is not blank: a lexeme shows something
(`Reads.shows`). Spellings of formulas have their value by construction; here
the text is any whose tokens are those of a formula.
-/
import PocketCalc.Proofs.Formula.Reordering
import PocketCalc.Proofs.Number.Literal

namespace PocketCalc

namespace Token

open Text Number

theorem isWhiteSpace_of_ofSymbol? {c : Char} {token : Token} (h : ofSymbol? c = some token) :
    isWhiteSpace c = false := by
  unfold ofSymbol? at h
  split at h
  case h_13 => cases h
  all_goals decide

/-- A lexeme shows something. -/
theorem Reads.shows {text left : Text} {token : Token} (h : Reads text token left) :
    ∃ c ∈ text, isWhiteSpace c = false := by
  cases h with
  | @numeral run left d hrun hd =>
    obtain ⟨c, hc⟩ := List.exists_mem_of_ne_nil run (Decimal.ofText?_eq_some_iff.mp hd).ne_nil
    exact ⟨c, List.mem_append_left _ hc, isWhiteSpace_of_isNumeralChar (hrun c hc)⟩
  | pi => exact ⟨'p', by simp, by decide⟩
  | euler => exact ⟨'e', by simp, by decide⟩
  | @name run left f hrun hname =>
    have hne : run ≠ [] := by
      rintro rfl
      obtain ⟨first, second, rest, hshape, -⟩ := f.name_shape
      rw [hshape] at hname
      cases hname
    obtain ⟨c, hc⟩ := List.exists_mem_of_ne_nil run hne
    exact ⟨c, List.mem_append_left _ hc, isWhiteSpace_of_isAlpha (isAlpha_of_mem_name hname hc)⟩
  | @symbol c left token hsymbol =>
    exact ⟨c, List.mem_cons_self, isWhiteSpace_of_ofSymbol? hsymbol⟩

/-- A text that has tokens is not blank. -/
theorem isBlank_of_tokenize {text : Text} {tokens : List Token} (h : tokenize text = .ok tokens)
    (hne : tokens ≠ []) : isBlank text = false := by
  have hshows : tokens ≠ [] → ∃ c ∈ squeeze text, isWhiteSpace c = false := by
    refine scan_induction (motive := fun text tokens =>
      tokens ≠ [] → ∃ c ∈ text, isWhiteSpace c = false) (fun hnil => absurd rfl hnil) ?_ h
    intro text left token tokens hreads _ _
    exact hreads.shows
  obtain ⟨c, hc, hshown⟩ := hshows hne
  rw [isBlank, List.all_eq_false]
  exact ⟨c, (List.mem_filter.mp hc).1, by simp [hshown]⟩

end Token

theorem Formula.tokensWith_ne_nil (sign : Operator) {level : Level} (x : Formula level) :
    x.tokensWith sign ≠ [] := by
  induction x with
  | lift h x ih => exact ih
  | _ => simp [tokensWith]

/-- A text that is read as the tokens of a formula has the value of the formula. -/
theorem Expression.evaluate_of_tokens {text : Text} {x : Formula .sum}
    (h : Token.tokenize text = .ok x.tokens) (unit : AngleUnit) :
    evaluate unit text = .ok (x.value unit) := by
  have hblank := Token.isBlank_of_tokenize h (x.tokensWith_ne_nil _)
  rw [evaluate_of_tokenize hblank h, evaluateTokens_tokens]

end PocketCalc
