/-
PocketCalc.Proofs.Formula.Spelling — every way of writing a formula is
read as that formula.

`Spelling x text` holds of the texts without spaces that write the tree
`x`: numbers are decimal literals, `pi` or `e`, the signs `-`, `*` and `/`
have a typographic twin, and a function name may mix upper and lower case.
`Spaced` then adds spaces anywhere, also inside a number or a name.

The scan reads a spelling token by token whatever follows it, as long as
what follows does not lengthen its last lexeme (`scan_spelling`). With the
reordering of formulas this gives the main statement
`evaluate_spelling`: a well-formed expression has a value, and it is the
value of its tree.
-/
import PocketCalc.Proofs.Formula.Reordering
import PocketCalc.Proofs.Token.Lexemes

namespace PocketCalc

/-! ## 1. Literals -/

namespace Number.Decimal

/-- The decimal literals and what they stand for: digits, or a point with
digits on at least one side of it. -/
inductive Literal : Text → Decimal → Prop where
  | whole {digits : Text} (hne : digits ≠ []) (hdigits : ∀ c ∈ digits, c.isDigit = true) :
      Literal digits ⟨valueOf digits, 0⟩
  | pointed {whole fraction : Text} (hne : whole ++ fraction ≠ [])
      (hdigits : ∀ c ∈ whole ++ fraction, c.isDigit = true) :
      Literal (whole ++ '.' :: fraction) ⟨valueOf (whole ++ fraction), fraction.length⟩

theorem ne_point_of_isDigit {c : Char} (h : c.isDigit = true) : decide (c ≠ '.') = true := by
  refine decide_eq_true ?_
  intro hc
  subst hc
  exact absurd h (by decide)

theorem Literal.ofText? {text : Text} {d : Decimal} (h : Literal text d) :
    Decimal.ofText? text = some d := by
  cases h with
  | whole hne hdigits =>
    have hpoint : ∀ c ∈ text, decide (c ≠ '.') = true := by
      intro c hc
      exact ne_point_of_isDigit (hdigits c hc)
    have htake : (text ++ []).takeWhile (· ≠ '.') = text := Token.takeWhile_run hpoint (by simp)
    have hdrop : (text ++ []).dropWhile (· ≠ '.') = [] := Token.dropWhile_run hpoint (by simp)
    rw [List.append_nil] at htake hdrop
    simp only [Decimal.ofText?, htake, hdrop, List.drop_nil, List.append_nil]
    rw [if_pos ⟨hne, List.all_eq_true.mpr hdigits⟩]
    rfl
  | @pointed whole fraction hne hdigits =>
    have hpoint : ∀ c ∈ whole, decide (c ≠ '.') = true := by
      intro c hc
      exact ne_point_of_isDigit (hdigits c (List.mem_append_left _ hc))
    have htake : (whole ++ '.' :: fraction).takeWhile (· ≠ '.') = whole :=
      Token.takeWhile_run hpoint (by simp)
    have hdrop : (whole ++ '.' :: fraction).dropWhile (· ≠ '.') = '.' :: fraction :=
      Token.dropWhile_run hpoint (by simp)
    simp only [Decimal.ofText?, htake, hdrop, List.drop_one, List.tail_cons]
    rw [if_pos ⟨hne, List.all_eq_true.mpr hdigits⟩]

theorem Literal.isNumeralChar {text : Text} {d : Decimal} (h : Literal text d) :
    ∀ c ∈ text, isNumeralChar c = true := by
  intro c hc
  cases h with
  | whole _ hdigits => exact Text.isNumeralChar_of_isDigit (hdigits c hc)
  | pointed _ hdigits =>
    rcases List.mem_append.mp hc with hc | hc
    · exact Text.isNumeralChar_of_isDigit (hdigits c (List.mem_append_left _ hc))
    · rcases List.mem_cons.mp hc with rfl | hc
      · rfl
      · exact Text.isNumeralChar_of_isDigit (hdigits c (List.mem_append_right _ hc))

theorem Literal.ne_nil {text : Text} {d : Decimal} (h : Literal text d) : text ≠ [] := by
  cases h with
  | whole hne _ => exact hne
  | pointed _ _ => simp

end Number.Decimal

/-! ## 2. Spellings -/

/-- The characters an operator is written with. -/
def BinaryOperator.signs : BinaryOperator → List Char
  | plus => ['+']
  | minus => ['-', '−']
  | times => ['*', '×']
  | divide => ['/', '÷']
  | power => ['^']

namespace Formula

/-- The texts without spaces that write a tree. -/
inductive Spelling : {level : Level} → Formula level → Text → Prop where
  | lift {level tight : Level} {h : level.tighter? = some tight} {x : Formula tight} {s : Text}
      (hx : Spelling x s) : Spelling (lift h x) s
  | binary {op : BinaryOperator} {x : Formula op.leftLevel} {y : Formula op.rightLevel}
      {s t : Text} {sign : Char} (hx : Spelling x s) (hsign : sign ∈ op.signs)
      (hy : Spelling y t) : Spelling (binary op x y) (s ++ sign :: t)
  | negate {x : Formula .signed} {s : Text} {sign : Char}
      (hsign : sign ∈ BinaryOperator.minus.signs) (hx : Spelling x s) :
      Spelling (negate x) (sign :: s)
  | suffix {x : Formula .suffixed} {sfx : Suffix} {s : Text} (hx : Spelling x s) :
      Spelling (suffix x sfx) (s ++ sfx.symbol)
  | literal {s : Text} {d : Number.Decimal} (hs : Number.Decimal.Literal s d) :
      Spelling (number d.toFloat) s
  | pi : Spelling (number PocketCalc.pi) ['p', 'i']
  | euler : Spelling (number PocketCalc.euler) ['e']
  | group {x : Formula .sum} {s : Text} (hx : Spelling x s) :
      Spelling (group x) ('(' :: (s ++ [')']))
  | call {f : MathFunction} {x : Formula .sum} {name s : Text}
      (hname : name.map Char.toLower = f.name) (hx : Spelling x s) :
      Spelling (call f x) (name ++ '(' :: (s ++ [')']))

end Formula

/-- The texts that differ from a text by spaces added anywhere. -/
inductive Text.Spaced : Text → Text → Prop where
  | nil : Spaced [] []
  | space {s t : Text} (h : Spaced s t) : Spaced s (' ' :: t)
  | char {s t : Text} (c : Char) (h : Spaced s t) : Spaced (c :: s) (c :: t)

/-! ## 3. The scan reads a spelling -/

namespace Token

open Text Number Formula

/-- A text that does not go on with the numeral or the word before it. -/
def Detached (rest : Text) : Prop :=
  ∀ c ∈ rest.head?, isNumeralChar c = false ∧ isAlphabetic c = false

theorem detached_nil : Detached [] := by
  simp [Detached]

theorem detached_symbol {c : Char} {token : Token} (h : ofSymbol? c = some token) (rest : Text) :
    Detached (c :: rest) := by
  intro x hx
  obtain rfl : c = x := by simpa using hx
  exact not_piece_of_ofSymbol? h

theorem scan_symbol {c : Char} {token : Token} (h : ofSymbol? c = some token) (rest : Text) :
    scan (c :: rest) = (scan rest).map (token :: ·) :=
  scan_cons_of_ok (lexeme_symbol h rest)

theorem ofSymbol?_of_mem_signs {op : BinaryOperator} {sign : Char} (h : sign ∈ op.signs) :
    ofSymbol? sign = some (.operator (.binary op)) := by
  cases op <;> simp only [BinaryOperator.signs, List.mem_cons, List.not_mem_nil, or_false] at h
  case plus | power => subst h; rfl
  all_goals rcases h with rfl | rfl <;> rfl

theorem scan_literal {s rest : Text} {d : Decimal} (hs : Decimal.Literal s d)
    (hrest : ∀ c ∈ rest.head?, isNumeralChar c = false) :
    scan (s ++ rest) = (scan rest).map (.number d.toFloat :: ·) := by
  obtain ⟨c, run, rfl⟩ := List.exists_cons_of_ne_nil hs.ne_nil
  have hlex : lexeme c (run ++ rest) = .ok (.number d.toFloat, rest) := by
    rw [lexeme_numeral hs.isNumeralChar hrest, ofNumeral, hs.ofText?]
    rfl
  exact scan_cons_of_ok hlex

theorem scan_name {name rest : Text} {f : MathFunction} (h : name.map Char.toLower = f.name)
    (hrest : ∀ c ∈ rest.head?, isAlphabetic c = false) :
    scan (name ++ rest) = (scan rest).map (.function f :: ·) := by
  have hne : name ≠ [] := by
    intro hname
    subst hname
    obtain ⟨c, d, tail, hname, -⟩ := f.name_shape
    simp [hname] at h
  obtain ⟨c, run, rfl⟩ := List.exists_cons_of_ne_nil hne
  exact scan_cons_of_ok (lexeme_name h hrest)

/-- A spelling is read as the tokens of its tree, and nothing else with it. -/
theorem scan_spelling {level : Level} {x : Formula level} {s : Text} (hx : Spelling x s)
    {rest : Text} (hrest : Detached rest) :
    scan (s ++ rest) = (scan rest).map (x.tokens ++ ·) := by
  induction hx generalizing rest with
  | lift hx ih => exact ih hrest
  | @binary op x y s t sign hx hsign hy ihx ihy =>
    have hop := ofSymbol?_of_mem_signs hsign
    rw [List.append_assoc, List.cons_append, ihx (detached_symbol hop _), scan_symbol hop,
      ihy hrest]
    cases scan rest <;> simp [Except.map, Formula.tokensWith]
  | negate hsign hx ih =>
    rw [List.cons_append, scan_symbol (ofSymbol?_of_mem_signs hsign), ih hrest]
    cases scan rest <;> rfl
  | @suffix x sfx s hx ih =>
    obtain ⟨c, hc, hsymbol⟩ : ∃ c, sfx.symbol = [c] ∧ ofSymbol? c = some (.suffix sfx) := by
      cases sfx <;> exact ⟨_, rfl, rfl⟩
    rw [hc, List.append_assoc, List.singleton_append, ih (detached_symbol hsymbol _),
      scan_symbol hsymbol]
    cases scan rest <;> simp [Except.map, Formula.tokensWith]
  | literal hs => exact scan_literal hs fun c hc => (hrest c hc).1
  | pi => exact scan_cons_of_ok (lexeme_pi rest)
  | euler => exact scan_cons_of_ok (lexeme_euler fun c hc => (hrest c hc).2)
  | group hx ih =>
    rw [List.cons_append, List.append_assoc, List.singleton_append, scan_symbol rfl,
      ih (detached_symbol rfl _), scan_symbol rfl]
    cases scan rest <;> simp [Except.map, Formula.tokensWith]
  | @call f x name s hname hx ih =>
    rw [List.append_assoc, List.cons_append, List.append_assoc, List.singleton_append,
      scan_name hname (fun c hc => (detached_symbol rfl _ c hc).2), scan_symbol rfl,
      ih (detached_symbol rfl _), scan_symbol rfl]
    cases scan rest <;> simp [Except.map, Formula.tokensWith]

end Token

/-! ## 4. Spaces -/

namespace Text

/-- The printable ASCII characters other than the space show something. -/
theorem isWhiteSpace_of_printable {c : Char} (hlow : 33 ≤ c.toNat) (hhigh : c.toNat ≤ 126) :
    isWhiteSpace c = false := by
  simp only [isWhiteSpace, whiteSpaceRanges, List.any_cons, List.any_nil, Bool.or_eq_false_iff,
    Bool.and_eq_false_iff, decide_eq_false_iff_not, and_true]
  omega

theorem isWhiteSpace_of_isNumeralChar {c : Char} (h : Number.isNumeralChar c = true) :
    isWhiteSpace c = false := by
  have := toNat_of_isNumeralChar h
  exact isWhiteSpace_of_printable (by omega) (by omega)

theorem isWhiteSpace_of_isAlpha {c : Char} (h : c.isAlpha = true) : isWhiteSpace c = false := by
  have := toNat_of_isAlpha h
  exact isWhiteSpace_of_printable (by omega) (by omega)

theorem isWhiteSpace_of_mem_signs {op : BinaryOperator} {sign : Char} (h : sign ∈ op.signs) :
    isWhiteSpace sign = false := by
  have hall : op.signs.all (fun sign => !isWhiteSpace sign) = true := by cases op <;> decide
  simpa using List.all_eq_true.mp hall sign h

/-- Taking out the spaces undoes adding them. -/
theorem squeeze_of_spaced {s t : Text} (h : Spaced s t)
    (hs : ∀ c ∈ s, isWhiteSpace c = false) : Token.squeeze t = s := by
  induction h with
  | nil => rfl
  | space h ih => exact ih hs
  | char c h ih =>
    have hc : c ≠ ' ' := by
      intro hc
      subst hc
      exact absurd (hs ' ' (by simp)) (by decide)
    have ht := ih (List.forall_mem_cons.mp hs).2
    rw [Token.squeeze] at ht ⊢
    simp [hc, ht]

/-- A text is spaced out from what is left without its spaces. -/
theorem spaced_squeeze (text : Text) : Spaced (Token.squeeze text) text := by
  induction text with
  | nil => exact .nil
  | cons c text ih =>
    by_cases hc : c = ' '
    · subst hc
      exact .space ih
    · have hkeep : Token.squeeze (c :: text) = c :: Token.squeeze text := by
        simp [Token.squeeze, hc]
      rw [hkeep]
      exact .char c ih

/-- Adding spaces hides nothing. -/
theorem isBlank_of_spaced {s t : Text} (h : Spaced s t) (hne : s ≠ [])
    (hs : ∀ c ∈ s, isWhiteSpace c = false) : isBlank t = false := by
  induction h with
  | nil => exact absurd rfl hne
  | space h ih =>
    have ht := ih hne hs
    rw [isBlank] at ht ⊢
    simp only [List.all_cons, ht, Bool.and_false]
  | char c h ih =>
    have hc := hs c (by simp)
    simp [isBlank, hc]

end Text

namespace Formula

theorem Spelling.ne_nil {level : Level} {x : Formula level} {s : Text} (hx : Spelling x s) :
    s ≠ [] := by
  induction hx with
  | lift _ ih => exact ih
  | literal hs => exact hs.ne_nil
  | suffix _ ih => simp [ih]
  | _ => simp

/-- Every character of a spelling shows something. -/
theorem Spelling.isWhiteSpace {level : Level} {x : Formula level} {s : Text} (hx : Spelling x s) :
    ∀ c ∈ s, Text.isWhiteSpace c = false := by
  induction hx with
  | lift _ ih => exact ih
  | binary _ hsign _ ihx ihy =>
    intro c hc
    rcases List.mem_append.mp hc with hc | hc
    · exact ihx c hc
    · rcases List.mem_cons.mp hc with rfl | hc
      · exact Text.isWhiteSpace_of_mem_signs hsign
      · exact ihy c hc
  | negate hsign _ ih =>
    intro c hc
    rcases List.mem_cons.mp hc with rfl | hc
    · exact Text.isWhiteSpace_of_mem_signs hsign
    · exact ih c hc
  | @suffix x sfx s _ ih =>
    intro c hc
    rcases List.mem_append.mp hc with hc | hc
    · exact ih c hc
    · cases sfx with
      | factorial =>
        obtain rfl := List.mem_singleton.mp hc
        decide
      | percent =>
        obtain rfl := List.mem_singleton.mp hc
        decide
  | literal hs =>
    intro c hc
    exact Text.isWhiteSpace_of_isNumeralChar (hs.isNumeralChar c hc)
  | pi =>
    intro c hc
    simp only [List.mem_cons, List.not_mem_nil, or_false] at hc
    rcases hc with rfl | rfl
    · decide
    · decide
  | euler =>
    intro c hc
    obtain rfl := List.mem_singleton.mp hc
    decide
  | group _ ih =>
    intro c hc
    simp only [List.mem_cons, List.mem_append, List.not_mem_nil, or_false] at hc
    rcases hc with rfl | hc | rfl
    · decide
    · exact ih c hc
    · decide
  | @call f x name s hname _ ih =>
    intro c hc
    simp only [List.mem_cons, List.mem_append, List.not_mem_nil, or_false] at hc
    rcases hc with hc | rfl | hc | rfl
    · exact Text.isWhiteSpace_of_isAlpha (Token.isAlpha_of_mem_name hname hc)
    · decide
    · exact ih c hc
    · decide

end Formula

/-! ## 5. The value of a well-formed expression -/

namespace Expression

/-- A formula that is written in any of its spellings, with spaces anywhere, has a
value, and it is the value of its tree. -/
theorem evaluate_spelling {x : Formula .sum} {s text : Text} (hx : x.Spelling s)
    (hs : Text.Spaced s text) (unit : AngleUnit) :
    evaluate unit text = .ok (x.value unit) := by
  have hblank : Text.isBlank text = false := Text.isBlank_of_spaced hs hx.ne_nil hx.isWhiteSpace
  have htokens : Token.tokenize text = .ok x.tokens := by
    have hscan := Token.scan_spelling hx Token.detached_nil
    rw [List.append_nil, Token.scan_nil] at hscan
    rw [Token.tokenize, Text.squeeze_of_spaced hs hx.isWhiteSpace, hscan]
    simp [Except.map]
  rw [evaluate_of_tokenize hblank htokens, evaluateTokens_tokens]

open Formula Number in
/-- The square of minus six, over a sine, in mixed signs, cases and spaces. -/
theorem evaluate_spelling_mixed :
    (∃ x : Formula .sum, x.Spelling "−6^2!÷Sin(pi)".toList ∧
      Text.Spaced "−6^2!÷Sin(pi)".toList " − 6^2! ÷ Si n(p i)".toList) ∧
    evaluate .radians " − 6^2! ÷ Si n(p i)".toList =
      .ok ((-(Decimal.toFloat ⟨6, 0⟩)).pow (factorial (Decimal.toFloat ⟨2, 0⟩)) /
        PocketCalc.pi.sin) := by
  have hsix : Decimal.Literal ['6'] ⟨6, 0⟩ := .whole (by simp) (by simp)
  have htwo : Decimal.Literal ['2'] ⟨2, 0⟩ := .whole (by simp) (by simp)
  have hbase : Spelling (negate (ofSuffixed (ofAtom (number _)))) ['−', '6'] :=
    .negate (by decide) (.lift (.lift (.literal hsix)))
  have hexponent : Spelling (ofSigned (ofSuffixed (suffix (ofAtom (number _)) .factorial)))
      ['2', '!'] :=
    .lift (.lift (.suffix (.lift (.literal htwo))))
  have hpower : Spelling (binary .power _ _) (['−', '6'] ++ '^' :: ['2', '!']) :=
    .binary hbase (by decide) hexponent
  have hangle : Spelling
      (ofProduct (ofPower (ofSigned (ofSuffixed (ofAtom (number PocketCalc.pi)))))) ['p', 'i'] :=
    .lift (.lift (.lift (.lift (.lift .pi))))
  have hsine : Spelling (ofSigned (ofSuffixed (ofAtom (call .sin _))))
      (['S', 'i', 'n'] ++ '(' :: (['p', 'i'] ++ [')'])) :=
    .lift (.lift (.lift (.call (by decide) hangle)))
  have hsum : Spelling (ofProduct (binary .divide (ofPower _) _)) "−6^2!÷Sin(pi)".toList :=
    .lift (.binary (.lift hpower) (by decide) hsine)
  have hspaced := Text.spaced_squeeze " − 6^2! ÷ Si n(p i)".toList
  exact ⟨⟨_, hsum, hspaced⟩, evaluate_spelling hsum hspaced .radians⟩

end Expression

end PocketCalc
