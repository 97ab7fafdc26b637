/-
PocketCalc.Proofs.History.Kind — the kind of a calculation and what the
evaluator reads.

The history searches the text as it was typed for words in lower case. The
evaluator takes the spaces out first and reads names in any mixture of
cases. A word that is found is always part of a function, a power or `pi`,
because the only other lexeme with a letter in it is `e`
(`exists_scientific_of_kind`). The converse fails for a lexeme with a
capital letter or a space in it: the search does not find `SIN(0)` or `p i`
(`ofExpression_capitals`). It holds for a lexeme that the text shows as the
names are written, and a text without capital letters and without a space
between two letters shows all of them so (`infix_of_squeeze`).

Main statement: `ofExpression_lexemes`.
-/
import PocketCalc.History
import PocketCalc.Proofs.Token.Language

namespace PocketCalc

namespace Token

open Text Number

variable {c : Char} {text rest left piece s : Text} {token : Token} {tokens : List Token}

/-! ## 1. The lexemes of a text -/

/-- A piece of a text and the token it is read as. -/
structure Lexeme where
  piece : Text
  token : Token

/-- The kinds of lexemes. -/
inductive Lexeme.Kind : Lexeme → Prop where
  | numeral {run : Text} {d : Decimal} (hrun : ∀ c ∈ run, isNumeralChar c = true) :
      Kind ⟨run, .number d.toFloat⟩
  | pi : Kind ⟨['p', 'i'], .number pi⟩
  | euler : Kind ⟨['e'], .number euler⟩
  | name {run : Text} {f : MathFunction} (hname : run.map Char.toLower = f.name) :
      Kind ⟨run, .function f⟩
  | symbol {c : Char} {token : Token} (h : ofSymbol? c = some token) : Kind ⟨[c], token⟩

/-- The lexemes of a text without spaces, from left to right. -/
inductive Lexed : Text → List Lexeme → Prop where
  | nil : Lexed [] []
  | cons {c : Char} {rest left piece : Text} {token : Token} {more : List Lexeme}
      (hlex : lexeme c rest = .ok (token, left)) (hpiece : c :: rest = piece ++ left)
      (hmore : Lexed left more) : Lexed (c :: rest) (⟨piece, token⟩ :: more)

/-- A text that can be scanned has lexemes, and their tokens are those of the scan. -/
theorem exists_lexed (h : scan text = .ok tokens) :
    ∃ lexemes, Lexed text lexemes ∧ lexemes.map Lexeme.token = tokens := by
  fun_induction scan text generalizing tokens with
  | case1 =>
    cases h
    exact ⟨[], .nil, rfl⟩
  | case2 c rest token left hlex _ ih =>
    obtain ⟨tail, hleft, rfl⟩ := map_cons_eq_ok_iff.mp h
    obtain ⟨more, hmore, rfl⟩ := ih hleft
    obtain ⟨piece, hpiece, -⟩ := exists_piece_of_lexeme hlex
    exact ⟨⟨piece, token⟩ :: more, .cons hlex hpiece hmore, rfl⟩
  | case3 c rest fault hlex => cases h

namespace Lexed

variable {lexemes other : List Lexeme}

theorem unique (h : Lexed text lexemes) (hother : Lexed text other) : other = lexemes := by
  induction h generalizing other with
  | nil => cases hother; rfl
  | cons hlex hpiece hmore ih =>
    cases hother with
    | cons hlex' hpiece' hmore' =>
      cases hlex.symm.trans hlex'
      cases List.append_cancel_right (hpiece.symm.trans hpiece')
      rw [ih hmore']

/-- The pieces make up the text. -/
theorem flatMap_piece (h : Lexed text lexemes) : lexemes.flatMap Lexeme.piece = text := by
  induction h with
  | nil => rfl
  | cons hlex hpiece hmore ih => rw [List.flatMap_cons, ih, ← hpiece]

end Lexed

theorem Reads.kind (h : Reads (piece ++ left) token left) : Lexeme.Kind ⟨piece, token⟩ := by
  generalize htext : piece ++ left = text at h
  cases h with
  | @numeral run _ d hrun hd =>
    obtain rfl : piece = run := List.append_cancel_right htext
    exact .numeral hrun
  | pi =>
    obtain rfl : piece = ['p', 'i'] := List.append_cancel_right htext
    exact .pi
  | euler =>
    obtain rfl : piece = ['e'] := List.append_cancel_right htext
    exact .euler
  | @name run _ f hrun hname =>
    obtain rfl : piece = run := List.append_cancel_right htext
    exact .name hname
  | @symbol c _ _ hsymbol =>
    obtain rfl : piece = [c] := List.append_cancel_right htext
    exact .symbol hsymbol

theorem Lexed.kind {lexemes : List Lexeme} (h : Lexed text lexemes) : ∀ l ∈ lexemes, l.Kind := by
  induction h with
  | nil => simp
  | cons hlex hpiece hmore ih =>
    have hreads := reads_of_lexeme hlex
    rw [hpiece] at hreads
    exact List.forall_mem_cons.mpr ⟨hreads.kind, ih⟩

/-! ## 2. Scientific lexemes -/

theorem toLower_of_isUpper (h : c.isUpper = false) : c.toLower = c := by
  have hcapital : ¬(c.val ≥ 'A'.val ∧ c.val ≤ 'Z'.val) := of_decide_eq_false h
  exact dif_neg hcapital

namespace Lexeme

variable {l : Lexeme}

/-- Whether a lexeme is a function, a power or the constant `pi`. -/
def isScientific (l : Lexeme) : Bool :=
  match l.token with
  | .function _ | .operator (.binary .power) => true
  | _ => l.piece = ['p', 'i']

/-- Whether a character can only be in a scientific lexeme: the sign of a power, or a letter. An
`e` may stand alone. -/
def tells (c : Char) : Bool :=
  c = '^' || c.isAlpha && c ≠ 'e'

theorem Kind.isScientific_of_mem (h : l.Kind) (hc : c ∈ l.piece) (htell : tells c = true) :
    l.isScientific = true := by
  have htell : c = '^' ∨ c.isAlpha = true ∧ c ≠ 'e' := by
    simpa [tells] using htell
  cases h with
  | numeral hrun =>
    have hnumeral := hrun c hc
    rcases htell with rfl | ⟨halpha, -⟩
    · cases hnumeral
    · rw [isNumeralChar_of_isAlphabetic (isAlphabetic_of_isAlpha halpha)] at hnumeral
      cases hnumeral
  | pi => rfl
  | euler =>
    obtain rfl := List.mem_singleton.mp hc
    revert htell
    decide
  | name hname => rfl
  | symbol hsymbol =>
    obtain rfl := List.mem_singleton.mp hc
    rcases htell with rfl | ⟨halpha, -⟩
    · cases hsymbol
      rfl
    · have hletter := (not_piece_of_ofSymbol? hsymbol).2
      rw [isAlphabetic_of_isAlpha halpha] at hletter
      cases hletter

/-- A scientific lexeme without capital letters is one of the words the history looks for. -/
theorem Kind.mem_scientificWords (h : l.Kind) (hscientific : l.isScientific = true)
    (hlower : l.piece.any Char.isUpper = false) :
    l.piece ∈ CalculationKind.scientificWords := by
  have hpi : ['p', 'i'] ∈ CalculationKind.scientificWords := by decide
  have hpower : ['^'] ∈ CalculationKind.scientificWords := by decide
  cases h with
  | numeral hrun =>
    obtain rfl := of_decide_eq_true hscientific
    exact hpi
  | pi => exact hpi
  | euler => cases hscientific
  | @name run f hname =>
    have hsame : run = f.name := by
      have hkept : ∀ c ∈ run, c.toLower = c := by
        intro c hc
        exact toLower_of_isUpper (Bool.eq_false_iff.mpr (List.any_eq_false.mp hlower c hc))
      rw [← hname, List.map_congr_left hkept, List.map_id']
    exact List.mem_append_left _ (List.mem_map.mpr ⟨f, f.mem_all, hsame.symm⟩)
  | @symbol c token hsymbol =>
    have hc : c = '^' := by
      unfold ofSymbol? at hsymbol
      split at hsymbol <;> cases hsymbol <;> first | rfl | cases hscientific
    subst hc
    exact hpower

end Lexeme

end Token

/-! ## 3. Words whole in the text -/

namespace CalculationKind

open Token Text Number

variable {s text word : Text} {tokens : List Token}

/-- Whether no space stands between two letters. -/
def wordsWhole : Text → Bool
  | [] => true
  | c :: rest =>
    !(c.isAlpha && rest.head? = some ' ' && (squeeze rest).head?.any Char.isAlpha) &&
      wordsWhole rest

theorem mentions_iff : mentions word text = true ↔ word <:+: text := by
  induction text with
  | nil => simp [mentions]
  | cons c text ih =>
    rw [mentions, Bool.or_eq_true, ih, List.isPrefixOf_iff_prefix, List.infix_cons_iff]

theorem ofExpression_eq_scientific_iff :
    ofExpression s = .scientific ↔ ∃ word ∈ scientificWords, word <:+: s := by
  rw [ofExpression]
  split
  · rename_i h
    simpa [mentions_iff] using h
  · rename_i h
    simpa [mentions_iff] using h

/-- Behind a letter no space is taken out in front of letters. -/
theorem prefix_of_squeeze {c : Char} (hc : c.isAlpha = true)
    (hwhole : wordsWhole (c :: text) = true) (hword : ∀ c ∈ word, c.isAlpha = true)
    (h : word <+: squeeze text) : word <+: text := by
  induction word generalizing c text with
  | nil => exact List.nil_prefix
  | cons d word ih =>
    obtain ⟨hd, hword⟩ := List.forall_mem_cons.mp hword
    have hhead : (squeeze text).head? = some d := by
      obtain ⟨back, hback⟩ := h
      rw [← hback]
      rfl
    obtain ⟨hapart, hrest⟩ := Bool.and_eq_true_iff.mp hwhole
    cases text with
    | nil => cases hhead
    | cons x text =>
      by_cases hx : x = ' '
      · subst hx
        simp [hc, hhead, hd] at hapart
      · have hsqueeze : squeeze (x :: text) = x :: squeeze text := by
          simp [squeeze, hx]
        rw [hsqueeze, List.cons_prefix_cons] at h
        obtain ⟨rfl, h⟩ := h
        exact List.cons_prefix_cons.mpr ⟨rfl, ih hd hrest hword h⟩

/-- Letters that follow each other when the spaces are out follow each other in the text. -/
theorem infix_of_squeeze (hwhole : wordsWhole s = true) (hword : ∀ c ∈ word, c.isAlpha = true)
    (h : word <:+: squeeze s) : word <:+: s := by
  induction s with
  | nil => exact h
  | cons c s ih =>
    have hrest := (Bool.and_eq_true_iff.mp hwhole).2
    by_cases hc : c = ' '
    · subst hc
      exact List.infix_cons (ih hrest h)
    · have hsqueeze : squeeze (c :: s) = c :: squeeze s := by
        simp [squeeze, hc]
      rw [hsqueeze, List.infix_cons_iff] at h
      rcases h with h | h
      · cases word with
        | nil => exact List.nil_infix
        | cons d word =>
          obtain ⟨rfl, htail⟩ := List.cons_prefix_cons.mp h
          obtain ⟨hd, hword⟩ := List.forall_mem_cons.mp hword
          have hfront := prefix_of_squeeze hd hwhole hword htail
          exact (List.cons_prefix_cons.mpr ⟨rfl, hfront⟩).isInfix
      · exact List.infix_cons (ih hrest h)

/-! ## 4. The kind of a calculation -/

/-- A word of those the history looks for shows which lexeme it is in. -/
theorem exists_telling {word : Text} (h : word ∈ scientificWords) :
    ∃ c ∈ word, Lexeme.tells c = true := by
  have hall : (scientificWords.all fun word => word.any Lexeme.tells) = true := by decide
  exact List.any_eq_true.mp (List.all_eq_true.mp hall word h)

/-- Where the history finds a word, the evaluator reads a function, a power or `pi`. -/
theorem exists_scientific_of_kind {lexemes : List Lexeme} (hlexed : Lexed (squeeze s) lexemes)
    (h : ofExpression s = .scientific) : ∃ l ∈ lexemes, l.isScientific = true := by
  obtain ⟨word, hword, hwithin⟩ := ofExpression_eq_scientific_iff.mp h
  obtain ⟨c, hc, htell⟩ := exists_telling hword
  -- the telling character is no space, so it is in a lexeme
  have hspace : c ≠ ' ' := by
    rintro rfl
    cases htell
  have hsqueezed : c ∈ squeeze s := by
    simp [squeeze, hspace, hwithin.subset hc]
  rw [← hlexed.flatMap_piece] at hsqueezed
  obtain ⟨l, hl, hpiece⟩ := List.mem_flatMap.mp hsqueezed
  exact ⟨l, hl, (hlexed.kind l hl).isScientific_of_mem hpiece htell⟩

/-- In a text without capital letters and without a space between two letters, the pieces of
scientific lexemes stand as they are read. -/
theorem piece_within {lexemes : List Lexeme} (hlexed : Lexed (squeeze s) lexemes)
    (hwhole : wordsWhole s = true) {l : Lexeme} (hl : l ∈ lexemes)
    (hword : l.piece ∈ scientificWords) : l.piece <:+: s := by
  have hwithin : l.piece <:+: squeeze s := by
    rw [← hlexed.flatMap_piece]
    exact List.infix_of_mem_flatten (List.mem_map_of_mem hl)
  have hall : (scientificWords.all fun word => word = ['^'] || word.all Char.isAlpha) = true := by
    decide
  have hshape : l.piece = ['^'] ∨ ∀ c ∈ l.piece, c.isAlpha = true := by
    simpa using List.all_eq_true.mp hall _ hword
  rcases hshape with hpower | hletters
  · rw [hpower] at hwithin ⊢
    have hmem : '^' ∈ s := (List.mem_filter.mp (hwithin.subset List.mem_cons_self)).1
    obtain ⟨front, back, rfl⟩ := List.append_of_mem hmem
    exact ⟨front, back, by simp⟩
  · exact infix_of_squeeze hwhole hletters hwithin

/-- The lexemes of an expression that can be read are determined by its text. A calculation is
scientific only when one of them is a function, a power or `pi`, and it is scientific when one of
these stands in the text without capital letters and in one piece. So in a text without capital
letters and without a space between two letters it is scientific just when one of them is there. -/
theorem ofExpression_lexemes (h : tokenize s = .ok tokens) :
    ∃ lexemes, (∀ other, Lexed (squeeze s) other ↔ other = lexemes) ∧
      lexemes.map Lexeme.token = tokens ∧
      (ofExpression s = .scientific → ∃ l ∈ lexemes, l.isScientific = true) ∧
      (∀ l ∈ lexemes, l.isScientific = true → l.piece.any Char.isUpper = false →
        l.piece <:+: s → ofExpression s = .scientific) ∧
      (s.any Char.isUpper = false → wordsWhole s = true →
        (ofExpression s = .scientific ↔ ∃ l ∈ lexemes, l.isScientific = true)) := by
  obtain ⟨lexemes, hlexed, htokens⟩ := exists_lexed h
  have hshown : ∀ l ∈ lexemes, l.isScientific = true → l.piece.any Char.isUpper = false →
      l.piece <:+: s → ofExpression s = .scientific := by
    intro l hl hscientific hlower hwithin
    have hword := (hlexed.kind l hl).mem_scientificWords hscientific hlower
    exact ofExpression_eq_scientific_iff.mpr ⟨l.piece, hword, hwithin⟩
  refine ⟨lexemes, ?_, htokens, exists_scientific_of_kind hlexed, hshown, ?_⟩
  · intro other
    refine ⟨hlexed.unique, ?_⟩
    rintro rfl
    exact hlexed
  · intro hlower hwhole
    refine ⟨exists_scientific_of_kind hlexed, ?_⟩
    rintro ⟨l, hl, hscientific⟩
    have hpiece : l.piece.any Char.isUpper = false := by
      refine List.any_eq_false.mpr ?_
      intro c hc
      have hsqueezed : c ∈ squeeze s := by
        rw [← hlexed.flatMap_piece]
        exact List.mem_flatMap.mpr ⟨l, hl, hc⟩
      exact List.any_eq_false.mp hlower c (List.mem_filter.mp hsqueezed).1
    have hword := (hlexed.kind l hl).mem_scientificWords hscientific hpiece
    exact hshown l hl hscientific hpiece (piece_within hlexed hwhole hl hword)

/-- A call that is typed with spaces around it. -/
theorem ofExpression_lexemes_spaced :
    tokenize "2 * sin (1)".toList = .ok [.number (Decimal.toFloat ⟨2, 0⟩),
      .operator (.binary .times), .function .sin, .openParen, .number (Decimal.toFloat ⟨1, 0⟩),
      .closeParen] ∧
    ofExpression "2 * sin (1)".toList = .scientific := by
  have htokens : tokenize "2 * sin (1)".toList = .ok [.number (Decimal.toFloat ⟨2, 0⟩),
      .operator (.binary .times), .function .sin, .openParen, .number (Decimal.toFloat ⟨1, 0⟩),
      .closeParen] := by
    with_unfolding_all rfl
  refine ⟨htokens, ?_⟩
  obtain ⟨lexemes, -, hmap, -, -, hiff⟩ := ofExpression_lexemes htokens
  refine (hiff (by decide) (by decide)).mpr ?_
  have hsin : Token.function .sin ∈ lexemes.map Lexeme.token := by
    rw [hmap]
    simp
  obtain ⟨l, hl, hfunction⟩ := List.mem_map.mp hsin
  exact ⟨l, hl, by rw [Lexeme.isScientific, hfunction]⟩

/-- A function in capital letters and a constant with a space in it are not found. -/
theorem ofExpression_capitals :
    tokenize "SIN(0)".toList = .ok [.function .sin, .openParen,
      .number (Decimal.toFloat ⟨0, 0⟩), .closeParen] ∧
    ofExpression "SIN(0)".toList = .basic ∧
    Lexed (squeeze "p i".toList) [⟨['p', 'i'], .number pi⟩] ∧
    ofExpression "p i".toList = .basic := by
  refine ⟨by with_unfolding_all rfl, by decide, .cons (lexeme_pi []) rfl .nil, by decide⟩

end CalculationKind

end PocketCalc
