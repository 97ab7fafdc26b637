/-
PocketCalc.Proofs.Entry.Pretty — no two calculations look the same.

A shown line is read back glyph by glyph (`unpretty`). Most glyphs are
recognised by their first character. Two are not:

* the glyphs of `exp` and of the inverse functions start with letters, and
  only a mark behind the letters tells them from a word. No line that can be
  typed has such a mark in it (`Unmarked`);
* the three of a cube is also the first sign of a cube root. A cube in front
  of a called square root would look like one, and in a well-formed expression
  no function stands behind a number (`not_cube_root`).

So a line is found again from what is shown (`unpretty_pretty`), but for the
two spellings of a multiplication and of a division, which are shown alike and
read alike (`tokenize_plainSign`).

Main statement: `tokens_eq_of_pretty_eq`.
-/
import PocketCalc.Entry.Pretty
import PocketCalc.Proofs.Number.Display
import PocketCalc.Proofs.Formula.LastOperand
import PocketCalc.Proofs.Formula.Value
import PocketCalc.Proofs.Token.Locality

namespace PocketCalc.Entry

open Number Token Text

variable {s t shown word glyph rest run : Text} {c : Char} {tokens : List Token}

/-! ## 1. Reading a shown line -/

/-- The glyphs of called functions, each with what it is shown for. -/
def callGlyphs : List (Text × Text) :=
  (MathFunction.all.filter fun f => f.glyph ≠ f.name).map fun f => (f.glyph, f.name)

/-- The glyphs of a shown line. The root sign with a three comes before the three. -/
def glyphs : List (Text × Text) :=
  callGlyphs ++ [(['³'], ['^', '3']), (['²'], ['^', '2']), (['π'], ['p', 'i']), (['×'], ['*']),
    (['÷'], ['/']), ([groupSeparator], [])]

/-- The glyph that a text starts with. -/
def glyph? (text : Text) : Option (Text × Text) :=
  glyphs.find? fun entry => entry.1.isPrefixOf text

/-- The line that a shown line stands for. -/
def unpretty : Text → Text
  | [] => []
  | c :: rest =>
    match glyph? (c :: rest) with
    | some (glyph, word) => word ++ unpretty (rest.drop (glyph.length - 1))
    | none => c :: unpretty rest
termination_by shown => shown.length
decreasing_by
  · simp only [List.length_drop, List.length_cons]
    omega
  · exact Nat.lt_succ_self _

theorem ne_nil_of_mem_glyphs {entry : Text × Text} (h : entry ∈ glyphs) : entry.1 ≠ [] := by
  have hall : ∀ entry ∈ glyphs, entry.1 ≠ [] := by decide
  exact hall entry h

theorem unpretty_glyph (h : glyph? (glyph ++ shown) = some (glyph, word)) :
    unpretty (glyph ++ shown) = word ++ unpretty shown := by
  obtain ⟨c, more, rfl⟩ := List.exists_cons_of_ne_nil
    (ne_nil_of_mem_glyphs (List.mem_of_find?_eq_some h))
  rw [List.cons_append] at h ⊢
  rw [unpretty, h]
  simp

@[simp] theorem unpretty_nil : unpretty [] = [] := by
  rw [unpretty]

theorem unpretty_plain (h : glyph? (c :: shown) = none) :
    unpretty (c :: shown) = c :: unpretty shown := by
  rw [unpretty, h]

theorem head?_of_glyph {entry : Text × Text} (hentry : entry ∈ glyphs)
    (h : entry.1.isPrefixOf (c :: shown) = true) : entry.1.head? = some c := by
  obtain ⟨d, more, hglyph⟩ := List.exists_cons_of_ne_nil (ne_nil_of_mem_glyphs hentry)
  rw [hglyph] at h ⊢
  rw [(List.cons_prefix_cons.mp (List.isPrefixOf_iff_prefix.mp h)).1]
  rfl

theorem glyph?_eq_none (h : ∀ entry ∈ glyphs, entry.1.head? = some c → ¬entry.1 <+: c :: shown) :
    glyph? (c :: shown) = none := by
  refine List.find?_eq_none.mpr ?_
  intro entry hentry hfront
  exact h entry hentry (head?_of_glyph hentry hfront) (List.isPrefixOf_iff_prefix.mp hfront)

/-! ## 2. Numbers -/

/-- Digits and points are shown as they are, and separators stand for nothing. -/
theorem unpretty_numeral {text : Text}
    (h : ∀ c ∈ text, isNumeralChar c = true ∨ c = groupSeparator) :
    unpretty (text ++ shown) = text.filter (· != groupSeparator) ++ unpretty shown := by
  induction text with
  | nil => rfl
  | cons c text ih =>
    obtain ⟨hc, htext⟩ := List.forall_mem_cons.mp h
    rcases hc with hc | rfl
    · have hplain : glyph? (c :: (text ++ shown)) = none := by
        refine glyph?_eq_none ?_
        intro entry hentry hhead
        have hall : ∀ entry ∈ glyphs, entry.1.head?.any isNumeralChar = false := by decide
        have hother := hall entry hentry
        rw [hhead, Option.any_some, hc] at hother
        cases hother
      have hne : c ≠ groupSeparator := by
        rintro rfl
        cases hc
      rw [List.cons_append, unpretty_plain hplain, ih htext]
      simp [hne]
    · have hcomma : unpretty ([groupSeparator] ++ (text ++ shown)) =
          [] ++ unpretty (text ++ shown) := unpretty_glyph rfl
      rw [List.cons_append, ← List.singleton_append, hcomma, ih htext]
      simp

theorem filter_prettyNumeral (h : ∀ c ∈ run, isNumeralChar c = true) :
    (prettyNumeral run).filter (· != groupSeparator) = run := by
  have hcomma : ∀ c ∈ run, c ≠ groupSeparator := by
    rintro c hc rfl
    cases h _ hc
  have hwhole : groupSeparator ∉ run.takeWhile (· ≠ '.') := by
    intro hmem
    exact hcomma _ ((List.takeWhile_sublist _).subset hmem) rfl
  have hrest : (run.dropWhile (· ≠ '.')).filter (· != groupSeparator) =
      run.dropWhile (· ≠ '.') := by
    refine List.filter_eq_self.mpr ?_
    intro c hc
    simpa using hcomma c ((List.dropWhile_sublist _).subset hc)
  rw [prettyNumeral, List.filter_append, group, filter_groupFrom _ _ hwhole, hrest,
    List.takeWhile_append_dropWhile]

theorem unpretty_prettyNumeral (h : ∀ c ∈ run, isNumeralChar c = true) :
    unpretty (prettyNumeral run ++ shown) = run ++ unpretty shown := by
  have hchars : ∀ c ∈ prettyNumeral run, isNumeralChar c = true ∨ c = groupSeparator := by
    intro c hc
    by_cases hcomma : c = groupSeparator
    · exact Or.inr hcomma
    · refine Or.inl (h c ?_)
      rw [← filter_prettyNumeral h]
      simp [hc, hcomma]
  rw [unpretty_numeral hchars, filter_prettyNumeral h]

/-! ## 3. Words -/

/-- The marks that make a glyph of the letters in front of them. -/
def isMark (c : Char) : Bool :=
  c = 'ˣ' || c = '⁻'

/-- The letters that a text begins with are followed by no mark. -/
def Unmarked (shown : Text) : Prop :=
  (shown.dropWhile Char.isAlpha).head?.any isMark = false

theorem unmarked_cons (hletter : c.isAlpha = false) (hmark : isMark c = false) :
    Unmarked (c :: shown) := by
  simp [Unmarked, hletter, hmark]

theorem Unmarked.cons_letter (hc : c.isAlpha = true) (h : Unmarked shown) :
    Unmarked (c :: shown) := by
  simpa [Unmarked, hc] using h

/-- A letter is shown as it is, unless the letters end in a mark. -/
theorem unpretty_letter (hc : c.isAlpha = true) (h : Unmarked (c :: shown)) :
    unpretty (c :: shown) = c :: unpretty shown := by
  refine unpretty_plain (glyph?_eq_none ?_)
  rintro entry hentry hhead ⟨back, hback⟩
  have hall : ∀ entry ∈ glyphs,
      entry.1.head?.any Char.isAlpha = (entry.1.dropWhile Char.isAlpha).head?.any isMark := by
    decide
  have hmark := hall entry hentry
  rw [hhead, Option.any_some, hc] at hmark
  rw [Unmarked, ← hback, List.dropWhile_append] at h
  cases hdrop : entry.1.dropWhile Char.isAlpha with
  | nil =>
    rw [hdrop] at hmark
    cases hmark
  | cons d more =>
    rw [hdrop] at h hmark
    rw [List.isEmpty_cons, if_neg Bool.false_ne_true, List.cons_append, List.head?_cons] at h
    rw [List.head?_cons] at hmark
    rw [← hmark] at h
    cases h

theorem unpretty_prettyPi (hletters : ∀ c ∈ word, c.isAlpha = true) (h : Unmarked shown) :
    Unmarked (prettyPi word ++ shown) ∧
      unpretty (prettyPi word ++ shown) = word ++ unpretty shown := by
  fun_induction prettyPi word with
  | case1 rest ih =>
    obtain ⟨-, hback⟩ := ih fun c hc => hletters c (by simp [hc])
    have hpi : unpretty (['π'] ++ (prettyPi rest ++ shown)) =
        ['p', 'i'] ++ unpretty (prettyPi rest ++ shown) := unpretty_glyph rfl
    refine ⟨unmarked_cons (by decide) (by decide), ?_⟩
    rw [List.cons_append, ← List.singleton_append, hpi, hback]
    rfl
  | case2 c rest _ ih =>
    obtain ⟨hc, hrest⟩ := List.forall_mem_cons.mp hletters
    obtain ⟨hunmarked, hback⟩ := ih hrest
    refine ⟨hunmarked.cons_letter hc, ?_⟩
    rw [List.cons_append, unpretty_letter hc (hunmarked.cons_letter hc), hback]
    rfl
  | case3 => exact ⟨h, rfl⟩

/-- A word is shown as the glyph of a function, or letter by letter apart from `pi`. -/
theorem prettyWord_cases (word : Text) (called : Bool) :
    (∃ f : MathFunction, f.name = word ∧ f.glyph ≠ f.name ∧ called = true ∧
      prettyWord word called = f.glyph) ∨
    prettyWord word called = prettyPi word := by
  have hnames : ∀ f : MathFunction, prettyPi f.name = f.name := by
    intro f
    cases f <;> rfl
  rw [prettyWord]
  cases hf : MathFunction.ofName? word with
  | none => exact Or.inr rfl
  | some f =>
    obtain rfl := MathFunction.name_of_ofName? hf
    cases called with
    | false => exact Or.inr (hnames f).symm
    | true =>
      by_cases hplain : f.glyph = f.name
      · exact Or.inr (hplain.trans (hnames f).symm)
      · exact Or.inl ⟨f, rfl, hplain, rfl, rfl⟩

theorem glyph?_glyph {f : MathFunction} (h : f.glyph ≠ f.name) :
    glyph? (f.glyph ++ shown) = some (f.glyph, f.name) := by
  cases f <;> first | rfl | exact absurd rfl h

theorem unpretty_prettyWord (hletters : ∀ c ∈ word, c.isAlpha = true) (h : Unmarked shown)
    (called : Bool) : unpretty (prettyWord word called ++ shown) = word ++ unpretty shown := by
  rcases prettyWord_cases word called with ⟨f, rfl, hglyph, -, hword⟩ | hword
  · rw [hword, unpretty_glyph (glyph?_glyph hglyph)]
  · rw [hword, (unpretty_prettyPi hletters h).2]

/-! ## 4. What a shown line starts with -/

theorem cons_span (p : Char → Bool) (c : Char) (rest : Text) :
    (c :: rest.takeWhile p) ++ rest.dropWhile p = c :: rest := by
  rw [List.cons_append, List.takeWhile_append_dropWhile]

/-- Whether a character is a space or can be part of a lexeme of ASCII letters. -/
def isTypable (c : Char) : Bool :=
  c = ' ' || isNumeralChar c || c.isAlpha || (ofSymbol? c).isSome

theorem prettyChar_eq (c : Char) : prettyChar c = '÷' ∨ prettyChar c = '×' ∨ prettyChar c = c := by
  unfold prettyChar
  split
  · exact Or.inl rfl
  · exact Or.inr (Or.inl rfl)
  · exact Or.inr (Or.inr rfl)

theorem head?_prettyNumeral (c : Char) (run : Text) :
    (prettyNumeral (c :: run)).head? = some c := by
  rw [prettyNumeral]
  by_cases hc : c = '.'
  · subst hc
    rfl
  · rw [List.head?_append, head?_group, List.takeWhile_cons_of_pos (by simpa using hc)]
    rfl

theorem exponent?_cases {text left : Text} {sign : Char} (h : exponent? text = some (sign, left)) :
    (text = '^' :: '2' :: left ∧ sign = '²') ∨ (text = '^' :: '3' :: left ∧ sign = '³') := by
  unfold exponent? at h
  split at h
  · split at h
    · cases h
    · cases h
      exact Or.inl ⟨rfl, rfl⟩
  · split at h
    · cases h
    · cases h
      exact Or.inr ⟨rfl, rfl⟩
  · cases h

theorem pretty_word (hc : c.isAlpha = true) (rest : Text) :
    pretty (c :: rest) = prettyWord (c :: rest.takeWhile Char.isAlpha)
      ((rest.dropWhile Char.isAlpha).head? = some '(') ++ pretty (rest.dropWhile Char.isAlpha) := by
  have hnumeral : isNumeralChar c = false :=
    isNumeralChar_of_isAlphabetic (isAlphabetic_of_isAlpha hc)
  rw [pretty, if_neg (by simp [hnumeral]), if_pos hc]

/-- A line that starts with no letter is shown as one that starts with an exponent or a
character that can be typed and is no letter. -/
theorem exists_head_pretty (hletter : c.isAlpha = false) (hc : isTypable c = true) (rest : Text) :
    ∃ d more, pretty (c :: rest) = d :: more ∧ d.isAlpha = false ∧
      (d = '²' ∨ d = '³' ∨ isTypable d = true) := by
  rw [pretty]
  split
  · obtain ⟨more, hmore⟩ := List.head?_eq_some_iff.mp
      (head?_prettyNumeral c (rest.takeWhile isNumeralChar))
    rw [hmore]
    exact ⟨c, _, rfl, hletter, Or.inr (Or.inr hc)⟩
  · rw [if_neg (by simp [hletter])]
    split
    · rename_i glyph left hexponent
      rcases exponent?_cases hexponent with ⟨-, rfl⟩ | ⟨-, rfl⟩
      · exact ⟨_, _, rfl, by decide, Or.inl rfl⟩
      · exact ⟨_, _, rfl, by decide, Or.inr (Or.inl rfl)⟩
    · refine ⟨_, _, rfl, ?_⟩
      rcases prettyChar_eq c with hsign | hsign | hsign
      · rw [hsign]
        decide
      · rw [hsign]
        decide
      · rw [hsign]
        exact ⟨hletter, Or.inr (Or.inr hc)⟩

/-- Only a letter is shown as something that starts with a letter or a mark. -/
theorem unmarked_pretty (h : ∀ c ∈ s, isTypable c = true)
    (hletter : ∀ c ∈ s.head?, c.isAlpha = false) : Unmarked (pretty s) := by
  cases s with
  | nil => rw [pretty]; rfl
  | cons c rest =>
    obtain ⟨d, more, hshown, hd, hkind⟩ := exists_head_pretty (hletter c rfl) (h c (by simp)) rest
    rw [hshown]
    refine unmarked_cons hd (Bool.eq_false_iff.mpr ?_)
    intro hmark
    simp only [isMark, Bool.or_eq_true, decide_eq_true_eq] at hmark
    rcases hmark with rfl | rfl <;> revert hkind <;> decide

/-- Only a called square root is shown as something that starts with a root sign. -/
theorem root_of_head_pretty (h : ∀ c ∈ s, isTypable c = true)
    (hroot : (pretty s).head? = some '√') : "sqrt(".toList <+: s := by
  cases s with
  | nil =>
    rw [pretty] at hroot
    cases hroot
  | cons c rest =>
    by_cases hletter : c.isAlpha = true
    · rw [pretty_word hletter] at hroot
      rcases prettyWord_cases (c :: rest.takeWhile Char.isAlpha)
        ((rest.dropWhile Char.isAlpha).head? = some '(') with ⟨f, hname, -, hcalled, hword⟩ | hword
      · rw [hword] at hroot
        have hsqrt : f = .sqrt := by
          cases f <;> first | rfl | cases hroot
        subst hsqrt
        obtain ⟨left, hleft⟩ := List.head?_eq_some_iff.mp (of_decide_eq_true hcalled)
        refine ⟨left, ?_⟩
        rw [← cons_span Char.isAlpha c rest, ← hname, hleft]
        rfl
      · rw [hword, prettyPi.eq_def] at hroot
        split at hroot
        · cases hroot
        · rename_i hcons
          cases hcons
          cases hroot
          cases hletter
        · rename_i hnil
          cases hnil
    · obtain ⟨d, more, hshown, -, hkind⟩ :=
        exists_head_pretty (Bool.not_eq_true _ ▸ hletter) (h c (by simp)) rest
      rw [hshown] at hroot
      cases hroot
      have hother : ¬('√' = '²' ∨ '√' = '³' ∨ isTypable '√' = true) := by decide
      exact absurd hkind hother

/-! ## 5. Reading back -/

/-- The key for a sign of multiplication or division. -/
def plainSign : Char → Char
  | '×' => '*'
  | '÷' => '/'
  | c => c

theorem plainSign_of_isNumeralChar (h : isNumeralChar c = true) : plainSign c = c := by
  unfold plainSign
  split <;> first | rfl | cases h

theorem plainSign_of_isAlphabetic (h : isAlphabetic c = true) : plainSign c = c := by
  unfold plainSign
  split
  · exact absurd h (by decide +kernel)
  · exact absurd h (by decide +kernel)
  · rfl

theorem plainSign_of_ofSymbol? (h : ofSymbol? c = none) : plainSign c = c := by
  unfold plainSign
  split <;> first | rfl | cases h

theorem map_plainSign (h : ∀ c ∈ run, plainSign c = c) : run.map plainSign = run := by
  rw [List.map_congr_left h, List.map_id']

/-- A space and a sign are shown as they are, apart from the signs of multiplication and
division. -/
theorem unpretty_prettyChar (h : c = ' ' ∨ (ofSymbol? c).isSome = true) :
    unpretty (prettyChar c :: shown) = plainSign c :: unpretty shown := by
  have htimes : unpretty (['×'] ++ shown) = ['*'] ++ unpretty shown := unpretty_glyph rfl
  have hdivide : unpretty (['÷'] ++ shown) = ['/'] ++ unpretty shown := unpretty_glyph rfl
  rcases h with rfl | h
  · exact unpretty_plain rfl
  · obtain ⟨token, htoken⟩ := Option.isSome_iff_exists.mp h
    unfold ofSymbol? at htoken
    split at htoken
    case h_13 => cases htoken
    all_goals first | exact unpretty_plain rfl | exact htimes | exact hdivide

/-- A three stands for a cube, unless it belongs to a root sign. -/
theorem unpretty_cube (h : shown.head? ≠ some '√') :
    unpretty ('³' :: shown) = ['^', '3'] ++ unpretty shown := by
  have hcalls : ∀ entry ∈ callGlyphs, entry.1.isPrefixOf ('³' :: shown) = false := by
    intro entry hentry
    have hall : ∀ entry ∈ callGlyphs, entry.1.head? = some '³' → entry.1 = ['³', '√'] := by decide
    refine Bool.eq_false_iff.mpr ?_
    intro hfront
    have hroot := hall entry hentry (head?_of_glyph (List.mem_append_left _ hentry) hfront)
    obtain ⟨back, hback⟩ := List.isPrefixOf_iff_prefix.mp hfront
    rw [hroot] at hback
    cases hback
    exact h rfl
  have hglyph : glyph? (['³'] ++ shown) = some (['³'], ['^', '3']) :=
    List.find?_eq_some_iff_append.mpr ⟨by simp, callGlyphs, _, rfl, by simpa using hcalls⟩
  exact unpretty_glyph hglyph

/-- A line that can be typed, in which no cube stands right in front of a called square root. -/
structure Legible (s : Text) : Prop where
  typable : ∀ c ∈ s, isTypable c = true
  apart : ¬"^3sqrt(".toList <:+: s

theorem Legible.of_append {front back : Text} (h : Legible (front ++ back)) : Legible back where
  typable c hc := h.typable c (List.mem_append_right _ hc)
  apart hwithin := h.apart (hwithin.trans (List.suffix_append ..).isInfix)

/-- Reading a shown line gives back the line, with the keys for the signs of multiplication and
division. -/
theorem unpretty_pretty (h : Legible s) : unpretty (pretty s) = s.map plainSign := by
  fun_induction pretty s with
  | case1 => simp
  | case2 c rest hc ih =>
    have hrun : ∀ x ∈ c :: rest.takeWhile isNumeralChar, isNumeralChar x = true :=
      List.forall_mem_cons.mpr ⟨hc, fun _ => mem_takeWhile⟩
    rw [← cons_span isNumeralChar c rest] at h ⊢
    rw [unpretty_prettyNumeral hrun, ih h.of_append, List.map_append,
      map_plainSign fun x hx => plainSign_of_isNumeralChar (hrun x hx)]
  | case3 c rest hnumeral hc left ih =>
    have hrun : ∀ x ∈ c :: rest.takeWhile Char.isAlpha, x.isAlpha = true :=
      List.forall_mem_cons.mpr ⟨hc, fun _ => mem_takeWhile⟩
    rw [← cons_span Char.isAlpha c rest] at h ⊢
    have hunmarked := unmarked_pretty h.of_append.typable fun _ => not_of_mem_head?_dropWhile
    rw [unpretty_prettyWord hrun hunmarked, ih h.of_append, List.map_append,
      map_plainSign fun x hx => plainSign_of_isAlphabetic (isAlphabetic_of_isAlpha (hrun x hx))]
  | case4 c rest hnumeral hletter glyph left hexponent hlen ih =>
    obtain ⟨digit, hwhole, hglyph⟩ : ∃ digit, c :: rest = ['^', digit] ++ left ∧
        (digit = '2' ∧ glyph = '²' ∨ digit = '3' ∧ glyph = '³') := by
      rcases exponent?_cases hexponent with ⟨h, rfl⟩ | ⟨h, rfl⟩
      · exact ⟨_, h, Or.inl ⟨rfl, rfl⟩⟩
      · exact ⟨_, h, Or.inr ⟨rfl, rfl⟩⟩
    rw [hwhole] at h
    rw [hwhole, List.map_append, ← ih h.of_append]
    rcases hglyph with ⟨rfl, rfl⟩ | ⟨rfl, rfl⟩
    · have hsquare : unpretty (['²'] ++ pretty left) = ['^', '2'] ++ unpretty (pretty left) :=
        unpretty_glyph rfl
      exact hsquare
    · -- a root sign behind the three would make it a cube root
      refine unpretty_cube ?_
      intro hhead
      obtain ⟨back, hback⟩ := root_of_head_pretty h.of_append.typable hhead
      exact h.apart ⟨[], back, by rw [← hback]; rfl⟩
  | case5 c rest hnumeral hletter hexponent ih =>
    have hrest : Legible rest := Legible.of_append (show Legible ([c] ++ rest) from h)
    have hsign : c = ' ' ∨ (ofSymbol? c).isSome = true := by
      simpa [isTypable, hnumeral, hletter] using h.typable c List.mem_cons_self
    rw [unpretty_prettyChar hsign, List.map_cons, ih hrest]

example : unpretty "³√(1,234.5)²×eˣ(π)".toList = "cbrt(1234.5)^2*exp(pi)".toList := by
  decide +kernel

/-! ## 6. Reading the line with other signs -/

theorem ofSymbol?_plainSign (c : Char) : ofSymbol? (plainSign c) = ofSymbol? c := by
  unfold plainSign
  split <;> rfl

theorem isNumeralChar_plainSign (c : Char) : isNumeralChar (plainSign c) = isNumeralChar c := by
  unfold plainSign
  split <;> rfl

theorem isAlphabetic_plainSign (c : Char) : isAlphabetic (plainSign c) = isAlphabetic c := by
  unfold plainSign
  split
  · decide +kernel
  · decide +kernel
  · rfl

/-- A run of characters of a kind that is kept is taken off as it was. -/
theorem span_map_plainSign {p : Char → Bool} (hkind : ∀ c, p (plainSign c) = p c)
    (hsame : ∀ c, p c = true → plainSign c = c) (text : Text) :
    (text.map plainSign).takeWhile p = text.takeWhile p ∧
      (text.map plainSign).dropWhile p = (text.dropWhile p).map plainSign := by
  have hcomp : p ∘ plainSign = p := funext hkind
  rw [List.takeWhile_map, List.dropWhile_map, hcomp]
  exact ⟨map_plainSign fun c hc => hsame c (mem_takeWhile hc), rfl⟩

theorem plainSign_eq_iff {d : Char} (hd : isAlphabetic d = true) : plainSign c = d ↔ c = d := by
  constructor
  · intro h
    have hc : isAlphabetic c = true := by rw [← isAlphabetic_plainSign, h, hd]
    rw [← h, plainSign_of_isAlphabetic hc]
  · rintro rfl
    exact plainSign_of_isAlphabetic hd

theorem lexeme_plainSign (c : Char) (rest : Text) :
    lexeme (plainSign c) (rest.map plainSign) =
      (lexeme c rest).map fun (token, left) => (token, left.map plainSign) := by
  obtain ⟨hdigits, hbehindDigits⟩ :=
    span_map_plainSign isNumeralChar_plainSign (fun _ => plainSign_of_isNumeralChar) rest
  obtain ⟨hword, hbehindWord⟩ :=
    span_map_plainSign isAlphabetic_plainSign (fun _ => plainSign_of_isAlphabetic) rest
  have hp : plainSign c = 'p' ↔ c = 'p' := plainSign_eq_iff (by decide)
  have he : plainSign c = 'e' ↔ c = 'e' := plainSign_eq_iff (by decide)
  have hi : (rest.map plainSign).head? = some 'i' ↔ rest.head? = some 'i' := by
    cases rest with
    | nil => simp
    | cons d rest =>
      simpa using plainSign_eq_iff (c := d) (by decide)
  have hnext : (rest.map plainSign).head?.any isAlphabetic = rest.head?.any isAlphabetic := by
    cases rest with
    | nil => rfl
    | cons d rest => exact isAlphabetic_plainSign d
  simp only [lexeme, isNumeralChar_plainSign, isAlphabetic_plainSign, ofSymbol?_plainSign, hdigits,
    hbehindDigits, hword, hbehindWord, hp, he, hi, hnext]
  split
  · rename_i hc
    rw [plainSign_of_isNumeralChar hc]
    cases ofNumeral (c :: rest.takeWhile isNumeralChar) <;> rfl
  · split
    · simp [Except.map]
    · split
      · rfl
      · split
        · rename_i hc
          rw [plainSign_of_isAlphabetic hc]
          cases ofWord (c :: rest.takeWhile isAlphabetic) <;> rfl
        · cases hsymbol : ofSymbol? c with
          | some token => rfl
          | none =>
            rw [plainSign_of_ofSymbol? hsymbol]
            rfl

theorem scan_plainSign (text : Text) : scan (text.map plainSign) = scan text := by
  fun_induction scan text with
  | case1 => rw [List.map_nil, scan_nil]
  | case2 c rest token left hlex _ ih =>
    have hsame := lexeme_plainSign c rest
    rw [hlex] at hsame
    rw [List.map_cons, scan_cons_of_ok hsame, ih]
  | case3 c rest fault hlex =>
    have hsame := lexeme_plainSign c rest
    rw [hlex] at hsame
    rw [List.map_cons, scan_cons_of_error hsame]

/-- The signs of multiplication and division are read like their keys. -/
theorem tokenize_plainSign (text : Text) : tokenize (text.map plainSign) = tokenize text := by
  have hspace : (fun c => c != ' ') ∘ plainSign = fun c => c != ' ' := by
    funext c
    simp only [Function.comp_apply, plainSign]
    split <;> rfl
  rw [tokenize, squeeze, List.filter_map, hspace, scan_plainSign]
  rfl

/-! ## 7. Calculations that look the same -/

theorem isTypable_of_tokenize (h : tokenize s = .ok tokens) : ∀ c ∈ s, isTypable c = true := by
  have hsqueezed : ∀ c ∈ squeeze s, isTypable c = true := by
    refine scan_induction (motive := fun text _ => ∀ c ∈ text, isTypable c = true) (by simp) ?_ h
    intro text left token tokens hreads hleft
    cases hreads with
    | numeral hrun hd =>
      refine List.forall_mem_append.mpr ⟨?_, hleft⟩
      intro c hc
      simp [isTypable, hrun c hc]
    | pi =>
      refine List.forall_mem_cons.mpr ⟨by decide, List.forall_mem_cons.mpr ⟨by decide, hleft⟩⟩
    | euler => exact List.forall_mem_cons.mpr ⟨by decide, hleft⟩
    | name hrun hname =>
      refine List.forall_mem_append.mpr ⟨?_, hleft⟩
      intro c hc
      simp [isTypable, isAlpha_of_mem_name hname hc]
    | symbol hsymbol => exact List.forall_mem_cons.mpr ⟨by simp [isTypable, hsymbol], hleft⟩
  intro c hc
  by_cases hspace : c = ' '
  · simp [isTypable, hspace]
  · exact hsqueezed c (by simp [squeeze, hc, hspace])

/-- In a well-formed expression no function stands behind a number. -/
theorem not_cube_root (h : tokenize s = .ok tokens) (hchain : tokens.IsChain Neighbours) :
    ¬"^3sqrt(".toList <:+: s := by
  rintro ⟨front, back, rfl⟩
  have hsplit : front ++ "^3sqrt(".toList ++ back =
      front ++ ['^'] ++ ['3'] ++ ("sqrt".toList ++ '(' :: back) := by simp
  rw [hsplit] at h
  have hthree : squeeze (front ++ ['^'] ++ ['3']) = squeeze front ++ ['^'] ++ ['3'] := by
    rw [squeeze_append, squeeze_append]
    rfl
  have hsqrt : squeeze ("sqrt".toList ++ '(' :: back) = "sqrt".toList ++ '(' :: squeeze back := rfl
  have hroot : Separable (squeeze (front ++ ['^'] ++ ['3']))
      (squeeze ("sqrt".toList ++ '(' :: back)) := by
    rw [hthree, hsqrt]
    intro c hc d hd
    rw [List.getLast?_concat] at hc
    cases hc
    cases hd
    decide
  have hpower : Separable (squeeze (front ++ ['^'])) (squeeze ['3']) := by
    rw [squeeze_append]
    refine separable_numeral ?_ ?_
    · intro c hc
      have hlast : (squeeze front ++ ['^']).getLast? = some '^' := List.getLast?_concat
      cases hlast.symm.trans hc
      rfl
    · intro d hd
      cases hd
      rfl
  -- the tokens on both sides of the cut are a number and a function
  obtain ⟨pre, more, hpre, hmore, rfl⟩ := (tokenize_append_iff hroot).mp h
  obtain ⟨before, number, -, hnumber, rfl⟩ := (tokenize_append_iff hpower).mp hpre
  have hliteral : tokenize ['3'] = .ok [.number (Decimal.toFloat ⟨3, 0⟩)] := by
    with_unfolding_all rfl
  cases hliteral.symm.trans hnumber
  rw [tokenize, hsqrt, scan_name (f := .sqrt) rfl (by simp; decide)] at hmore
  obtain ⟨behind, -, rfl⟩ := map_cons_eq_ok_iff.mp hmore
  have hdue := (List.isChain_append.mp hchain).2.2 (.number (Decimal.toFloat ⟨3, 0⟩))
    (by simp) (.function .sqrt) rfl rfl
  cases hdue

theorem legible_of_tokenize (h : tokenize s = .ok tokens) (hchain : tokens.IsChain Neighbours) :
    Legible s :=
  ⟨isTypable_of_tokenize h, not_cube_root h hchain⟩

/-- Two well-formed expressions that are shown alike are read as the same tokens, and so they
have one value in both units. -/
theorem tokens_eq_of_pretty_eq {front back : List Token} (hs : tokenize s = .ok front)
    (hfront : IsDerivable front) (ht : tokenize t = .ok back) (hback : IsDerivable back)
    (h : pretty s = pretty t) :
    front = back ∧ ∀ unit, ∃ v, Expression.evaluate unit s = .ok v ∧
      Expression.evaluate unit t = .ok v := by
  obtain ⟨x, rfl⟩ := hfront
  obtain ⟨y, rfl⟩ := hback
  have hshown : s.map plainSign = t.map plainSign := by
    rw [← unpretty_pretty (legible_of_tokenize hs (x.isChain_tokensWith _)),
      ← unpretty_pretty (legible_of_tokenize ht (y.isChain_tokensWith _)), h]
  have hsame : tokenize s = tokenize t := by
    rw [← tokenize_plainSign s, hshown, tokenize_plainSign]
  have htokens : x.tokens = y.tokens := by
    rw [hs, ht] at hsame
    exact Except.ok.inj hsame
  refine ⟨htokens, ?_⟩
  intro unit
  rw [← htokens] at ht
  exact ⟨x.value unit, Expression.evaluate_of_tokens hs unit, Expression.evaluate_of_tokens ht unit⟩

/-- Two times the cube of a cube root. -/
def twiceCube : Formula .sum :=
  .ofProduct (.binary .times
    (.ofPower (.ofSigned (.ofSuffixed (.ofAtom (.number (Decimal.toFloat ⟨2, 0⟩))))))
    (.binary .power
      (.ofSuffixed (.ofAtom (.call .cbrt (Formula.toSum (.number (Decimal.toFloat ⟨8, 0⟩))))))
      (.ofSigned (.ofSuffixed (.ofAtom (.number (Decimal.toFloat ⟨3, 0⟩)))))))

/-- A cube of a cube root, with either sign of multiplication. -/
theorem tokens_eq_of_pretty_eq_cubes :
    pretty "2*cbrt(8)^3".toList = "2×³√(8)³".toList ∧
    pretty "2×cbrt(8)^3".toList = "2×³√(8)³".toList ∧
    ∃ v, Expression.evaluate .degrees "2*cbrt(8)^3".toList = .ok v ∧
      Expression.evaluate .degrees "2×cbrt(8)^3".toList = .ok v := by
  have hkey : tokenize "2*cbrt(8)^3".toList = .ok twiceCube.tokens := by
    with_unfolding_all rfl
  have hsign : tokenize "2×cbrt(8)^3".toList = .ok twiceCube.tokens :=
    (tokenize_plainSign _).symm.trans hkey
  have hfirst : pretty "2*cbrt(8)^3".toList = "2×³√(8)³".toList := by
    decide +kernel
  have hsecond : pretty "2×cbrt(8)^3".toList = "2×³√(8)³".toList := by
    decide +kernel
  have hsame := tokens_eq_of_pretty_eq hkey ⟨_, rfl⟩ hsign ⟨_, rfl⟩ (hfirst.trans hsecond.symm)
  exact ⟨hfirst, hsecond, hsame.2 .degrees⟩

end PocketCalc.Entry
