/-
PocketCalc.Proofs.Token.Reading — what a successful scan has read.

A token that was read came from a lexeme of one of five kinds (`Reads`):
a numeral, `pi`, an `e` alone, the name of a function, or a single
character. What is shown of each kind of lexeme is shown of every text
that can be scanned (`scan_induction`).

Main statements: `tokenize_parens`, the parentheses among the tokens are
those of the text, in the same order, and `tokenize_counts`, so there are as
many of each kind.
-/
import PocketCalc.Proofs.Token.Lexemes

namespace PocketCalc

namespace Token

open Text Number

/-! ## 1. The kinds of lexemes -/

/-- A token read off the front of a text, and what is left of the text. -/
inductive Reads : Text → Token → Text → Prop where
  | numeral {run left : Text} {d : Decimal} (hrun : ∀ c ∈ run, isNumeralChar c = true)
      (hd : Decimal.ofText? run = some d) : Reads (run ++ left) (.number d.toFloat) left
  | pi {left : Text} : Reads ('p' :: 'i' :: left) (.number pi) left
  | euler {left : Text} : Reads ('e' :: left) (.number euler) left
  | name {run left : Text} {f : MathFunction} (hrun : ∀ c ∈ run, isAlphabetic c = true)
      (hname : run.map Char.toLower = f.name) : Reads (run ++ left) (.function f) left
  | symbol {c : Char} {left : Text} {token : Token} (h : ofSymbol? c = some token) :
      Reads (c :: left) token left

theorem mem_takeWhile {p : Char → Bool} {text : Text} {c : Char} (h : c ∈ text.takeWhile p) :
    p c = true :=
  List.all_eq_true.mp List.all_takeWhile c h

/-- What is left of a text does not go on with the run that was dropped. -/
theorem not_of_mem_head?_dropWhile {p : Char → Bool} {text : Text} {c : Char}
    (h : c ∈ (text.dropWhile p).head?) : p c = false := by
  have hhead := List.head?_dropWhile_not p text
  rw [h] at hhead
  simpa using hhead

theorem reads_of_lexeme {c : Char} {rest left : Text} {token : Token}
    (h : lexeme c rest = .ok (token, left)) : Reads (c :: rest) token left := by
  unfold lexeme at h
  split at h
  · rename_i hc
    have hrun : ∀ x ∈ c :: rest.takeWhile isNumeralChar, isNumeralChar x = true :=
      List.forall_mem_cons.mpr ⟨hc, fun _ => mem_takeWhile⟩
    cases hd : Decimal.ofText? (c :: rest.takeWhile isNumeralChar) with
    | none => simp [ofNumeral, hd, Except.map] at h
    | some d =>
      simp only [ofNumeral, hd, Except.map, Except.ok.injEq, Prod.mk.injEq] at h
      obtain ⟨rfl, rfl⟩ := h
      have hreads : Reads (_ ++ rest.dropWhile isNumeralChar) (.number d.toFloat) _ :=
        .numeral hrun hd
      rwa [List.cons_append, List.takeWhile_append_dropWhile] at hreads
  · split at h
    · rename_i hpi
      obtain ⟨rfl, hi⟩ := hpi
      obtain ⟨tail, rfl⟩ := List.head?_eq_some_iff.mp hi
      cases h
      exact .pi
    · split at h
      · rename_i he
        obtain ⟨rfl, -⟩ := he
        cases h
        exact .euler
      · split at h
        · rename_i hc
          have hrun : ∀ x ∈ c :: rest.takeWhile isAlphabetic, isAlphabetic x = true :=
            List.forall_mem_cons.mpr ⟨hc, fun _ => mem_takeWhile⟩
          cases hf : MathFunction.ofName? ((c :: rest.takeWhile isAlphabetic).map Char.toLower) with
          | none =>
            rw [ofWord, hf] at h
            cases h
          | some f =>
            simp only [ofWord, hf, Except.map, Except.ok.injEq, Prod.mk.injEq] at h
            obtain ⟨rfl, rfl⟩ := h
            have hname := MathFunction.name_of_ofName? hf
            have hreads : Reads (_ ++ rest.dropWhile isAlphabetic) (.function f) _ :=
              .name hrun hname.symm
            rwa [List.cons_append, List.takeWhile_append_dropWhile] at hreads
        · split at h
          · rename_i hsymbol
            cases h
            exact .symbol hsymbol
          · cases h

/-- What holds of the empty text, and of a text when it holds of what a lexeme leaves,
holds of every text that can be scanned. -/
theorem scan_induction {motive : Text → List Token → Prop} (hnil : motive [] [])
    (hreads : ∀ {text left : Text} {token : Token} {tokens : List Token},
      Reads text token left → motive left tokens → motive text (token :: tokens))
    {text : Text} {tokens : List Token} (h : scan text = .ok tokens) : motive text tokens := by
  fun_induction scan text generalizing tokens with
  | case1 =>
    cases h
    exact hnil
  | case2 c rest token left hlex _ ih =>
    cases hleft : scan left with
    | error fault => simp [hleft, Except.map] at h
    | ok more =>
      simp only [hleft, Except.map, Except.ok.injEq] at h
      subst h
      exact hreads (reads_of_lexeme hlex) (ih hleft)
  | case3 c rest fault hlex => cases h

/-! ## 2. Parentheses -/

/-- The parenthesis that a character is. -/
def parenOf? : Char → Option Token
  | '(' => some .openParen
  | ')' => some .closeParen
  | _ => none

/-- Only a parenthesis is read as one. -/
theorem parenOf?_of_ofSymbol? {c : Char} {token : Token} (h : ofSymbol? c = some token) :
    parenOf? c = if token.isParen then some token else none := by
  unfold ofSymbol? at h
  split at h
  case h_13 => cases h
  all_goals cases h; rfl

/-- A run of characters of a kind that has no parentheses holds none. -/
theorem filterMap_parenOf?_run {p : Char → Bool} (hopen : p '(' = false) (hclose : p ')' = false)
    {run : Text} (hrun : ∀ c ∈ run, p c = true) : run.filterMap parenOf? = [] := by
  rw [List.filterMap_eq_nil_iff]
  intro c hc
  have hp := hrun c hc
  unfold parenOf?
  split
  · rw [hopen] at hp
    cases hp
  · rw [hclose] at hp
    cases hp
  · rfl

/-- What is read is a parenthesis, or holds none. -/
theorem Reads.parens {text left : Text} {token : Token} (h : Reads text token left) :
    text.filterMap parenOf? = [token].filter isParen ++ left.filterMap parenOf? := by
  cases h with
  | numeral hrun hd =>
    rw [List.filterMap_append, filterMap_parenOf?_run (by decide) (by decide) hrun]
    rfl
  | pi => rfl
  | euler => rfl
  | name hrun hname =>
    rw [List.filterMap_append, filterMap_parenOf?_run (by decide) (by decide) hrun]
    rfl
  | symbol hsymbol =>
    rw [List.filterMap_cons, parenOf?_of_ofSymbol? hsymbol, List.filter_cons]
    cases token.isParen <;> rfl

theorem squeeze_parens (text : Text) :
    (squeeze text).filterMap parenOf? = text.filterMap parenOf? := by
  induction text with
  | nil => rfl
  | cons c text ih =>
    rw [squeeze] at ih ⊢
    by_cases hc : c = ' '
    · subst hc
      exact ih
    · rw [List.filter_cons_of_pos (by simpa using hc), List.filterMap_cons, List.filterMap_cons, ih]

/-- The parentheses among the tokens are those of the text, in the same order. -/
theorem tokenize_parens {text : Text} {tokens : List Token} (h : tokenize text = .ok tokens) :
    tokens.filter isParen = text.filterMap parenOf? := by
  rw [← squeeze_parens]
  refine scan_induction (motive := fun text tokens =>
    tokens.filter isParen = text.filterMap parenOf?) rfl ?_ h
  intro text left token tokens hreads ih
  rw [hreads.parens, ← ih, ← List.filter_append, List.singleton_append]

theorem parenOf?_eq_openParen_iff {c : Char} : parenOf? c = some .openParen ↔ c = '(' := by
  unfold parenOf?
  split <;> simp_all

theorem parenOf?_eq_closeParen_iff {c : Char} : parenOf? c = some .closeParen ↔ c = ')' := by
  unfold parenOf?
  split <;> simp_all

/-- Counting a parenthesis among those of a text is counting its character. -/
theorem count_filterMap_parenOf? {paren : Token} {sign : Char}
    (h : ∀ {c}, parenOf? c = some paren ↔ c = sign) (text : Text) :
    (text.filterMap parenOf?).count paren = text.count sign := by
  rw [List.count, List.countP_filterMap, List.count]
  refine List.countP_congr ?_
  intro c _
  cases hc : parenOf? c <;> simp [← h, hc]

/-- A text that is cut into tokens has as many parentheses of each kind as its tokens. -/
theorem tokenize_counts {text : Text} {tokens : List Token} (h : tokenize text = .ok tokens) :
    tokens.count .openParen = text.count '(' ∧ tokens.count .closeParen = text.count ')' := by
  have hparens := tokenize_parens h
  constructor
  · rw [← count_filterMap_parenOf? parenOf?_eq_openParen_iff, ← hparens]
    exact (List.count_filter rfl).symm
  · rw [← count_filterMap_parenOf? parenOf?_eq_closeParen_iff, ← hparens]
    exact (List.count_filter rfl).symm

end Token

end PocketCalc
