/-
PocketCalc.Proofs.Keypad.Calls — functions called on the keypad.

In a line of whole pieces the name of a function has its parenthesis
behind it, and the scan reads the two as two tokens, one after the other
(`scan_callsOpen`). A lexeme never ends inside a piece: a numeral goes on
over marks alone, and the constant `e` with letters behind it is read as a
word, but no name starts that way.

So on a line that only keys have written every function is called, and
waits under its own parenthesis, with one exception: the sign key takes
the parentheses off a call (`StripsCall`), and then the name takes what is
typed next as its argument (`scan_stripped`).

Main statement: `keypad_calls`.
-/
import PocketCalc.Proofs.Keypad.Pieces
import PocketCalc.Proofs.Keypad.Runs
import PocketCalc.Proofs.Number.Reentry
import PocketCalc.Proofs.Rpn.Guarding
import PocketCalc.Proofs.Token.Faults

namespace PocketCalc

open Entry Number Text Token

/-! ## 1. Marks and names -/

/-- The only letter among the marks is the constant `e`. -/
theorem eq_e_of_isMark {c : Char} (hmark : isMark c = true) (hletter : isAlphabetic c = true) :
    c = 'e' := by
  have hnumeral := isNumeralChar_of_isAlphabetic hletter
  rw [isNumeralChar] at hnumeral
  simp only [isMark, isLastNumberChar, hnumeral, Bool.false_or, Bool.or_eq_true,
    decide_eq_true_eq, List.mem_cons, List.not_mem_nil, or_false] at hmark
  rcases hmark with rfl | rfl | rfl | rfl | rfl | rfl | rfl | rfl | rfl | rfl
  case inr.inr.inr.inr.inr.inr.inr.inr.inr => rfl
  all_goals exact absurd hletter (by decide +kernel)

/-- No letter belongs to the number at the end of a line. -/
theorem isAlphabetic_of_isLastNumberChar {c : Char} (h : isLastNumberChar c = true) :
    isAlphabetic c = false := by
  refine Bool.eq_false_iff.mpr ?_
  intro hletter
  have he := eq_e_of_isMark (by simp [isMark, h]) hletter
  rw [he] at h
  exact absurd h (by decide)

/-- A mark that belongs to no numeral and is no letter is a token by itself. -/
theorem exists_symbol_of_isMark {c : Char} (hmark : isMark c = true)
    (hnumeral : isNumeralChar c = false) (he : c ≠ 'e') : ∃ token, ofSymbol? c = some token := by
  rw [isNumeralChar] at hnumeral
  simp only [isMark, isLastNumberChar, hnumeral, Bool.false_or, Bool.or_eq_true,
    decide_eq_true_eq, List.mem_cons, List.not_mem_nil, or_false] at hmark
  rcases hmark with rfl | rfl | rfl | rfl | rfl | rfl | rfl | rfl | rfl | rfl
  case inr.inr.inr.inr.inr.inr.inr.inr.inr => exact absurd rfl he
  all_goals exact ⟨_, rfl⟩

theorem ofSymbol?_ne_function {c : Char} {token : Token} (h : ofSymbol? c = some token)
    (f : MathFunction) : token ≠ .function f := by
  rintro rfl
  unfold ofSymbol? at h
  split at h <;> cases h

/-- A name that starts with an `e` goes on with an `x`. -/
theorem MathFunction.second_of_name {f : MathFunction} {c : Char} {rest : Text}
    (h : f.name = 'e' :: c :: rest) : c = 'x' := by
  have htable : ∀ f ∈ all, f.name.head? = some 'e' → f.name.tail.head? = some 'x' := by
    decide +kernel
  have hsecond := htable f f.mem_all
  rw [h] at hsecond
  exact Option.some.inj (hsecond rfl)

namespace MathFunction

/-- A name starts with a letter. -/
theorem exists_name_cons (f : MathFunction) :
    ∃ first run, f.name = first :: run ∧ isAlphabetic first = true := by
  obtain ⟨first, second, rest, hname, -, hlower⟩ := f.name_shape
  have hfirst : first.isLower = true := List.all_eq_true.mp hlower first List.mem_cons_self
  exact ⟨first, second :: rest, hname, isAlphabetic_of_isAlpha (isAlpha_of_isLower hfirst)⟩

end MathFunction

/-- A word that starts with an `e` is no name unless an `x` follows. -/
theorem lexeme_euler_word {c : Char} (hc : isAlphabetic c = true) (hlower : c.toLower ≠ 'x')
    (rest : Text) : ∃ fault, lexeme 'e' (c :: rest) = .error fault := by
  have hword : lexeme 'e' (c :: rest) =
      (ofWord ('e' :: (c :: rest).takeWhile isAlphabetic)).map
        (·, (c :: rest).dropWhile isAlphabetic) := by
    have he : isAlphabetic 'e' = true := by decide
    rw [lexeme, if_neg (by decide), if_neg (by simp), if_neg (by simp [hc]), if_pos he]
  rw [hword, ofWord]
  cases hname : MathFunction.ofName?
      (('e' :: (c :: rest).takeWhile isAlphabetic).map Char.toLower) with
  | none => exact ⟨_, rfl⟩
  | some f =>
    rw [List.takeWhile_cons_of_pos hc] at hname
    exact absurd (MathFunction.second_of_name (MathFunction.name_of_ofName? hname)) hlower

/-! ## 2. Lexemes of a line of pieces -/

/-- What may follow whole pieces without being read with the last one. -/
def Apart (tail : Text) : Prop :=
  ∀ c ∈ tail.head?, isNumeralChar c = false ∧ c.toLower ≠ 'x'

theorem apart_nil : Apart [] := by
  simp [Apart]

namespace Piece

/-- No piece starts with an `x`. -/
theorem toLower_head (piece : Piece) : ∀ c ∈ piece.text.head?, c.toLower ≠ 'x' := by
  cases piece with
  | mark c hc =>
    rintro d hd hlower
    obtain rfl := Option.some.inj hd
    have halpha := isAlpha_of_isLower_toLower (c := c) (by rw [hlower]; decide)
    obtain rfl := eq_e_of_isMark hc (isAlphabetic_of_isAlpha halpha)
    exact absurd hlower (by decide)
  | pi =>
    intro d hd
    obtain rfl := Option.some.inj hd
    decide
  | call f =>
    have hnames : ∀ f ∈ MathFunction.all,
        ((f.name ++ ['(']).head?.all (·.toLower != 'x')) = true := by
      decide +kernel
    intro d hd
    have hfirst := hnames f f.mem_all
    rw [text, Option.mem_def] at hd
    rw [hd] at hfirst
    simpa using hfirst

theorem text_ne_nil (piece : Piece) : piece.text ≠ [] := by
  cases piece <;> simp [text]

end Piece

variable {pieces : List Piece} {tail : Text}

theorem toLower_head_pieces (htail : Apart tail) :
    ∀ c ∈ (pieces.flatMap Piece.text ++ tail).head?, c.toLower ≠ 'x' := by
  cases pieces with
  | nil => exact fun c hc => (htail c hc).2
  | cons piece more =>
    obtain ⟨c, rest, hpiece⟩ := List.exists_cons_of_ne_nil piece.text_ne_nil
    have hhead := piece.toLower_head
    rw [hpiece] at hhead
    simpa [hpiece] using hhead

/-- A numeral ends where a piece ends. -/
theorem exists_dropWhile_pieces (htail : Apart tail) :
    ∃ more : List Piece, (pieces.flatMap Piece.text ++ tail).dropWhile isNumeralChar =
      more.flatMap Piece.text ++ tail := by
  induction pieces with
  | nil =>
    refine ⟨[], ?_⟩
    cases tail with
    | nil => rfl
    | cons c rest => simp [(htail c rfl).1]
  | cons piece more ih =>
    by_cases hdropped : ∃ c, ∃ hc : isMark c = true, piece = .mark c hc ∧ isNumeralChar c = true
    · obtain ⟨c, hc, rfl, hnumeral⟩ := hdropped
      simpa [Piece.text, hnumeral] using ih
    · obtain ⟨c, rest, hpiece⟩ := List.exists_cons_of_ne_nil piece.text_ne_nil
      have hc : isNumeralChar c = false := by
        cases piece with
        | mark d hd =>
          obtain ⟨rfl, -⟩ := List.cons_eq_cons.mp hpiece
          simpa [hd] using hdropped
        | pi =>
          obtain ⟨rfl, -⟩ := List.cons_eq_cons.mp hpiece
          decide
        | call f =>
          obtain ⟨first, run, hname, hletter⟩ := f.exists_name_cons
          rw [Piece.text, hname] at hpiece
          obtain ⟨rfl, -⟩ := List.cons_eq_cons.mp hpiece
          exact isNumeralChar_of_isAlphabetic hletter
      refine ⟨piece :: more, ?_⟩
      simp [hpiece, hc]

/-- The lexeme at the front of a line of pieces is one or more pieces, or the name of a
function, which leaves its parenthesis. -/
theorem lexeme_pieces {c : Char} {rest left : Text} {token : Token} (htail : Apart tail)
    (hne : pieces ≠ []) (htext : c :: rest = pieces.flatMap Piece.text ++ tail)
    (hlex : lexeme c rest = .ok (token, left)) :
    (∃ more : List Piece, left = more.flatMap Piece.text ++ tail) ∧
      ∀ f, token = .function f → left.head? = some '(' := by
  obtain ⟨piece, more, rfl⟩ := List.exists_cons_of_ne_nil hne
  rw [List.flatMap_cons, List.append_assoc] at htext
  cases piece with
  | mark d hd =>
    rw [Piece.text, List.singleton_append] at htext
    obtain ⟨rfl, rfl⟩ := List.cons_eq_cons.mp htext
    by_cases hnumeral : isNumeralChar c = true
    · rw [lexeme, if_pos hnumeral, ofNumeral] at hlex
      split at hlex
      · cases hlex
        exact ⟨exists_dropWhile_pieces htail, by simp⟩
      · cases hlex
    · by_cases he : c = 'e'
      · subst he
        by_cases hnext : ∀ x ∈ (more.flatMap Piece.text ++ tail).head?, isAlphabetic x = false
        · rw [lexeme_euler hnext] at hlex
          cases hlex
          exact ⟨⟨more, rfl⟩, by simp⟩
        · obtain ⟨x, hx, hletter⟩ : ∃ x, (more.flatMap Piece.text ++ tail).head? = some x ∧
              isAlphabetic x = true := by simpa using hnext
          have hlower := toLower_head_pieces htail x hx
          obtain ⟨after, hafter⟩ := List.head?_eq_some_iff.mp hx
          obtain ⟨fault, hfault⟩ := lexeme_euler_word hletter hlower after
          rw [hafter, hfault] at hlex
          cases hlex
      · obtain ⟨symbol, hsymbol⟩ := exists_symbol_of_isMark hd (by simpa using hnumeral) he
        rw [lexeme_symbol hsymbol] at hlex
        cases hlex
        exact ⟨⟨more, rfl⟩, fun f hf => absurd hf (ofSymbol?_ne_function hsymbol f)⟩
  | pi =>
    obtain ⟨rfl, rfl⟩ := List.cons_eq_cons.mp htext
    have hpi := lexeme_pi (more.flatMap Piece.text ++ tail)
    obtain ⟨rfl, rfl⟩ := Prod.mk.inj (Except.ok.inj (hpi.symm.trans hlex))
    exact ⟨⟨more, rfl⟩, by simp⟩
  | call f =>
    obtain ⟨first, run, hname, -⟩ := f.exists_name_cons
    rw [Piece.text, hname, List.append_assoc, List.cons_append] at htext
    obtain ⟨rfl, rfl⟩ := List.cons_eq_cons.mp htext
    have hlower : (c :: run).map Char.toLower = f.name := hname ▸ f.map_toLower_name
    have hopen : ∀ x ∈ (['('] ++ (more.flatMap Piece.text ++ tail)).head?,
        isAlphabetic x = false := by
      intro x hx
      obtain rfl := Option.some.inj hx
      decide
    rw [lexeme_name hlower hopen] at hlex
    cases hlex
    exact ⟨⟨.mark '(' (by decide) :: more, rfl⟩, fun _ _ => rfl⟩

/-! ## 3. Tokens of a line of pieces -/

/-- The tokens behind the first are those of what is left. -/
theorem exists_scan_left {left : Text} {token : Token} {tokens : List Token}
    (h : (scan left).map (token :: ·) = .ok tokens) :
    ∃ more, scan left = .ok more ∧ tokens = token :: more := by
  cases hleft : scan left with
  | error fault => simp [hleft, Except.map] at h
  | ok more =>
    simp only [hleft, Except.map, Except.ok.injEq] at h
    exact ⟨more, rfl, h.symm⟩

/-- An opening parenthesis is read from its character alone. -/
theorem eq_open_of_scan {c : Char} {rest : Text} {tokens : List Token}
    (h : scan (c :: rest) = .ok tokens) (hopen : tokens.head? = some .openParen) : c = '(' := by
  cases hlex : lexeme c rest with
  | error fault =>
    rw [scan_cons_of_error hlex] at h
    cases h
  | ok found =>
    obtain ⟨token, left⟩ := found
    rw [scan_cons_of_ok hlex] at h
    obtain ⟨more, -, rfl⟩ := exists_scan_left h
    obtain rfl := Option.some.inj hopen
    have hreads := reads_of_lexeme hlex
    generalize htext : c :: rest = text at hreads
    cases hreads with
    | symbol hsymbol =>
      obtain ⟨rfl, -⟩ := List.cons_eq_cons.mp htext
      have hparen : parenOf? c = some .openParen := parenOf?_of_ofSymbol? hsymbol
      exact parenOf?_eq_openParen_iff.mp hparen

/-- In a line of whole pieces every function is called. -/
theorem scan_callsOpen {text : Text} {tokens : List Token} (h : Pieced text)
    (hscan : scan text = .ok tokens) : CallsOpen tokens := by
  fun_induction scan text generalizing tokens with
  | case1 =>
    cases hscan
    exact callsOpen_nil
  | case2 c rest token left hlex _ ih =>
    obtain ⟨pieces, hpieces⟩ := h
    have hne : pieces ≠ [] := by
      rintro rfl
      cases hpieces
    obtain ⟨⟨more, hmore⟩, hparen⟩ :=
      lexeme_pieces apart_nil hne (by rw [hpieces, List.append_nil]) hlex
    rw [List.append_nil] at hmore
    obtain ⟨others, hothers, rfl⟩ := exists_scan_left hscan
    refine callsOpen_cons.mpr ⟨?_, ih ⟨more, hmore⟩ hothers⟩
    intro f hf
    obtain ⟨after, rfl⟩ := List.head?_eq_some_iff.mp (hparen f hf)
    rw [scan_symbol rfl] at hothers
    obtain ⟨last, -, rfl⟩ := exists_scan_left hothers
    rfl
  | case3 c rest fault hlex => cases hscan

/-- A name does not start where a piece goes on. -/
theorem apart_name (f : MathFunction) (rest : Text) : Apart (f.name ++ rest) := by
  obtain ⟨first, run, hname, hletter⟩ := f.exists_name_cons
  have hlower := Piece.toLower_head (.call f)
  rw [Piece.text, hname] at hlower
  rw [hname]
  intro c hc
  obtain rfl := Option.some.inj hc
  exact ⟨isNumeralChar_of_isAlphabetic hletter, hlower first rfl⟩

/-- Where a name has lost its parenthesis it is no call. -/
theorem scan_stripped {f : MathFunction} {number : Text} (hne : number ≠ [])
    (hnumber : ∀ c ∈ number, isLastNumberChar c = true) {text : Text} {tokens : List Token}
    (htext : text = pieces.flatMap Piece.text ++ (f.name ++ number))
    (hscan : scan text = .ok tokens) : ¬CallsOpen tokens := by
  fun_induction scan text generalizing tokens pieces with
  | case1 =>
    obtain ⟨first, run, hname, -⟩ := f.exists_name_cons
    simp [hname] at htext
  | case2 c rest token left hlex _ ih =>
    obtain ⟨others, hothers, rfl⟩ := exists_scan_left hscan
    intro hcalls
    obtain ⟨hfirst, hrest⟩ := callsOpen_cons.mp hcalls
    by_cases hpieces : pieces = []
    · subst hpieces
      obtain ⟨first, run, hname, -⟩ := f.exists_name_cons
      obtain ⟨d, after, rfl⟩ := List.exists_cons_of_ne_nil hne
      have hd : isLastNumberChar d = true := hnumber d List.mem_cons_self
      have hlower : (first :: run).map Char.toLower = f.name := hname ▸ f.map_toLower_name
      have hletter : ∀ x ∈ (d :: after).head?, isAlphabetic x = false := by
        intro x hx
        obtain rfl := Option.some.inj hx
        exact isAlphabetic_of_isLastNumberChar hd
      rw [hname] at htext
      obtain ⟨rfl, rfl⟩ := List.cons_eq_cons.mp htext
      have hsame := (lexeme_name hlower hletter).symm.trans hlex
      obtain ⟨rfl, rfl⟩ := Prod.mk.inj (Except.ok.inj hsame)
      obtain rfl := eq_open_of_scan hothers (hfirst f rfl)
      exact absurd hd (by decide)
    · obtain ⟨⟨more, hmore⟩, -⟩ := lexeme_pieces (apart_name f number) hpieces htext hlex
      exact ih hmore hothers hrest
  | case3 c rest fault hlex => cases hscan

namespace Calculator

variable {state : Calculator} {events : List Event}

/-! ## 4. Runs -/

/-- The text put back for a result is made of marks. -/
theorem pieced_reentry {value : Float} (h : value.isFinite = true) : Pieced (reentry value) := by
  obtain ⟨negative, whole, places, hreentry, hplaces⟩ := exists_digits_reentry h
  have digits : ∀ {text : Text}, (∀ c ∈ text, c.isDigit = true) → Pieced text := by
    intro text htext
    refine .number ?_
    intro c hc
    simp [isLastNumberChar, htext c hc]
  have hsign : Pieced (signText negative) := by
    cases negative <;> exact .marks (by decide)
  have hwhole : Pieced (digitsOf whole) := digits fun c hc => isDigit_of_mem_digitsOf hc
  rw [hreentry]
  refine (hsign.append hwhole).append ?_
  rcases hplaces with rfl | ⟨fraction, -, hfraction, rfl⟩
  · exact .nil
  · exact (Pieced.piece (.mark '.' (by decide))).append (digits hfraction)

/-- The keypad keeps lines of whole pieces while the sign key strips no call. -/
theorem kept_pieced : Kept StripsCall Pieced where
  empty := .nil
  result := pieced_reentry
  called f h := (Pieced.piece (.call f)).append h
  changed h hsign hchange := h.change hsign hchange

/-- On a line written on the keypad every function is called, as long as the sign key is never
pressed where it strips a call of its parentheses; pressed there, it leaves a function that is
not called. A function that is called waits on the stack under its own parenthesis alone, and
the stack is all that what is typed later sees of it. -/
theorem keypad_calls (hkeys : ∀ event ∈ events, event.isTyping = false)
    (hspares : SignSpares StripsCall events {}) (hrun : run? events {} = some state) :
    (∀ tokens, tokenize state.entry = .ok tokens →
      CallsOpen tokens ∧
        ∀ released kept, Rpn.readAll? [] (markSigns tokens) = some (released, kept) →
          Rpn.Guarded kept ∧
            ∀ later, Rpn.arrange? [] (markSigns tokens ++ later) =
              (Rpn.arrange? kept later).map (released ++ ·)) ∧
    (StripsCall state.entry →
      ∀ tokens, tokenize (state.press .sign).entry = .ok tokens → ¬CallsOpen tokens) := by
  have hpieced : Pieced state.entry := kept_pieced.run .nil hkeys hspares hrun
  constructor
  · intro tokens htokens
    rw [tokenize, squeeze_of_no_space hpieced.space_not_mem] at htokens
    have hcalls := scan_callsOpen hpieced htokens
    refine ⟨hcalls, ?_⟩
    intro released kept hread
    refine ⟨Rpn.Guarded.nil.readAll (hcalls.markSignsFrom true) hread, ?_⟩
    intro later
    rw [Rpn.arrange?_append, hread, Option.bind_some]
  · rintro ⟨front, f, number, hentry, hne, hnumber⟩ tokens htokens
    rw [hentry] at hpieced
    obtain ⟨before, g, ⟨pieces, rfl⟩, hname⟩ := hpieced.exists_call hnumber
    have hspace : ' ' ∉ front ++ f.name ++ number := by
      have hline := hpieced.space_not_mem
      simp only [List.mem_append, not_or] at hline ⊢
      exact ⟨hline.1.1.1, hline.1.2⟩
    rw [press_sign, hentry, toggleSign_negated hne hnumber, tokenize,
      squeeze_of_no_space hspace] at htokens
    exact scan_stripped hne hnumber (by rw [hname, List.append_assoc]) htokens

/-- Negates the number in a call that is still open, and takes it back. -/
def negatedInCall : List Key :=
  [.call .sqrt, .digit 4, .sign, .sign]

/-- What the line then holds. -/
def openRoot : List Token :=
  [.function .sqrt, .openParen, .number (Decimal.toFloat ⟨4, 0⟩)]

theorem scan_digit {c : Char} (hc : c.isDigit = true) {rest : Text}
    (hrest : ∀ x ∈ rest.head?, isNumeralChar x = false) :
    scan (c :: rest) = (scan rest).map (.number (Decimal.toFloat ⟨valueOf [c], 0⟩) :: ·) := by
  have hliteral : Decimal.Literal [c] ⟨valueOf [c], 0⟩ :=
    .whole (List.cons_ne_nil c []) (by simpa using hc)
  exact scan_literal hliteral hrest

theorem tokenize_negatedInCall :
    tokenize (pressAll negatedInCall {}).entry = .ok openRoot := by
  have hentry : (pressAll negatedInCall {}).entry = "sqrt(4".toList := by decide +kernel
  rw [hentry]
  show scan (['s', 'q', 'r', 't'] ++ '(' :: '4' :: []) = _
  rw [scan_name (f := .sqrt) (by decide) (by simp [isAlphabetic]), scan_symbol rfl,
    scan_digit (by decide) (by simp), scan_nil]
  rfl

/-- The root is called, waits under its parenthesis, and takes what is typed next. -/
theorem keypad_calls_negatedInCall :
    tokenize (pressAll negatedInCall {}).entry = .ok openRoot ∧ CallsOpen openRoot ∧
      Rpn.Guarded [.group, .function .sqrt] ∧
      ∀ later, Rpn.arrange? [] (markSigns openRoot ++ later) =
        (Rpn.arrange? [.group, .function .sqrt] later).map
          ([.number (Decimal.toFloat ⟨4, 0⟩)] ++ ·) := by
  have hspares : SignSpares StripsCall (negatedInCall.map .press) {} := by
    simp only [negatedInCall, List.map_cons, List.map_nil, signSpares_press]
    refine ⟨by simp, by simp, ?_, ?_, signSpares_nil _ _⟩
    · exact fun _ => not_stripsCall_of_getLast? (by decide +kernel)
    · intro _
      have hown : ¬StripsCall ("sqrt".toList ++ ['('] ++ ['(', '-'] ++ ['4'] ++ [')']) :=
        not_stripsCall_of_isMark (by decide) (by simp [isLastNumberChar])
      exact hown
  obtain ⟨hline, -⟩ :=
    keypad_calls (isTyping_press negatedInCall) hspares (run?_press negatedInCall {})
  obtain ⟨hcalls, hwaits⟩ := hline openRoot tokenize_negatedInCall
  exact ⟨tokenize_negatedInCall, hcalls, hwaits _ _ rfl⟩

/-- The sign key takes the parentheses off a root. -/
def stripped : List Key :=
  [.call .sqrt, .minus, .digit 4, .closeParen, .sign]

/-- What the line then holds. -/
def bareRoot : List Token :=
  [.function .sqrt, .number (Decimal.toFloat ⟨4, 0⟩)]

theorem scan_bareRoot {rest : Text} (hrest : ∀ x ∈ rest.head?, isNumeralChar x = false) :
    scan ("sqrt4".toList ++ rest) = (scan rest).map (bareRoot ++ ·) := by
  show scan (['s', 'q', 'r', 't'] ++ '4' :: rest) = _
  rw [scan_name (f := .sqrt) (by decide) (by simp; decide), scan_digit (by decide) hrest]
  cases scan rest <;> rfl

theorem evaluate_bareRoot_plus :
    Expression.evaluate .degrees "sqrt4+5".toList =
      .ok (Float.sqrt (Decimal.toFloat ⟨4, 0⟩ + Decimal.toFloat ⟨5, 0⟩)) := by
  have htokens : tokenize "sqrt4+5".toList =
      .ok (bareRoot ++ [.operator (.binary .plus), .number (Decimal.toFloat ⟨5, 0⟩)]) := by
    show scan ("sqrt4".toList ++ '+' :: '5' :: []) = _
    rw [scan_bareRoot (by simp [isNumeralChar]), scan_symbol rfl, scan_digit (by decide) (by simp),
      scan_nil]
    rfl
  rw [Expression.evaluate_of_tokenize (by decide) htokens]
  rfl

/-- A function that is not called, written on the keypad; what is typed next is part of its
argument. -/
theorem keypad_bare_function :
    run? (stripped.map .press) {} = some (pressAll stripped {}) ∧
      (∀ event ∈ stripped.map Event.press, event.isTyping = false) ∧
      tokenize (pressAll stripped {}).entry = .ok bareRoot ∧ ¬CallsOpen bareRoot ∧
      Expression.evaluate .degrees (pressAll (stripped ++ [.plus, .digit 5]) {}).entry =
        .ok (Float.sqrt (Decimal.toFloat ⟨4, 0⟩ + Decimal.toFloat ⟨5, 0⟩)) := by
  have hentry : (pressAll stripped {}).entry = "sqrt4".toList := by decide +kernel
  have hmore : (pressAll (stripped ++ [.plus, .digit 5]) {}).entry = "sqrt4+5".toList := by
    decide +kernel
  refine ⟨run?_press stripped {}, isTyping_press stripped, ?_, ?_, ?_⟩
  · rw [hentry]
    show scan ("sqrt4".toList ++ []) = _
    rw [scan_bareRoot (by simp), scan_nil]
    rfl
  · intro hcalls
    cases hcalls [] .sqrt [.number (Decimal.toFloat ⟨4, 0⟩)] rfl
  · rw [hmore, evaluate_bareRoot_plus]

end Calculator

end PocketCalc
