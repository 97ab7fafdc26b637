/-
PocketCalc.Proofs.Token.Language — the texts that are cut into tokens.

A text is looked at segment by segment, and each segment stands for itself:

* a run of digits and points is a number when it has a digit and one point
  at most;
* a run of letters is any number of `pi`s, and then nothing, an `e`, or the
  name of a function in some mixture of cases;
* any other character is one of twelve signs.

`Readable` says this, `Means` says which tokens such a segment stands for,
and `Refused` says of every other segment which fault it is
(`readable_or_refused`). The scan of a segment comes to the one or the other
(`Means.scan`, `Refused.scan`), so the scan of a text follows from its cut
into segments.

Main statement: `tokenize_segments`.
-/
import PocketCalc.Proofs.Number.Literal
import PocketCalc.Proofs.Token.Segments

namespace PocketCalc.Token

open Text Number

variable {text part word : Text} {parts : List Text} {tokens : List Token} {fault : SyntaxFault}

/-! ## 1. What a segment stands for -/

/-- The characters that are a token by themselves, with that token. -/
def signs : List (Char × Token) :=
  [('(', .openParen), (')', .closeParen), ('+', .operator (.binary .plus)), ('-', minus),
    ('−', minus), ('*', .operator (.binary .times)), ('×', .operator (.binary .times)),
    ('/', .operator (.binary .divide)), ('÷', .operator (.binary .divide)),
    ('^', .operator (.binary .power)), ('!', .suffix .factorial), ('%', .suffix .percent)]

/-- The text `pi`, a number of times in a row. -/
def pis (count : Nat) : Text :=
  (List.replicate count ['p', 'i']).flatten

/-- The words that may stand behind the `pi`s of a run of letters. -/
def IsKnown (word : Text) : Prop :=
  word = [] ∨ word = ['e'] ∨ ∃ f : MathFunction, word.map Char.toLower = f.name

/-- The segments that can be read. -/
inductive Readable : Text → Prop where
  | numeral {run : Text} (hrun : ∀ c ∈ run, isNumeralChar c = true)
      (hdigit : ∃ c ∈ run, c.isDigit = true) (hpoint : run.count '.' ≤ 1) : Readable run
  | letters (count : Nat) {word : Text} (hword : IsKnown word) : Readable (pis count ++ word)
  | sign {c : Char} {token : Token} (h : (c, token) ∈ signs) : Readable [c]

/-- The tokens of a word behind the `pi`s. -/
inductive WordMeans : Text → List Token → Prop where
  | nothing : WordMeans [] []
  | euler : WordMeans ['e'] [.number euler]
  | name {word : Text} {f : MathFunction} (h : word.map Char.toLower = f.name) :
      WordMeans word [.function f]

/-- The tokens of a segment. -/
inductive Means : Text → List Token → Prop where
  | numeral {run : Text} {d : Decimal} (h : Decimal.Literal run d) :
      Means run [.number d.toFloat]
  | letters (count : Nat) {word : Text} {tokens : List Token} (h : WordMeans word tokens) :
      Means (pis count ++ word) (List.replicate count (.number pi) ++ tokens)
  | sign {c : Char} {token : Token} (h : (c, token) ∈ signs) : Means [c] [token]

/-- The fault of a segment that cannot be read. Of a run of letters it names what is left
without the `pi`s in front. -/
inductive Refused : Text → SyntaxFault → Prop where
  | numeral {run : Text} (hne : run ≠ []) (hrun : ∀ c ∈ run, isNumeralChar c = true)
      (h : ¬((∃ c ∈ run, c.isDigit = true) ∧ run.count '.' ≤ 1)) : Refused run (.badNumber run)
  | letters (count : Nat) {word : Text} (hletters : ∀ c ∈ word, isAlphabetic c = true)
      (hpi : ¬['p', 'i'] <+: word) (h : ¬IsKnown word) :
      Refused (pis count ++ word) (.unknownName word)
  | char {c : Char} (hnumeral : isNumeralChar c = false) (hletter : isAlphabetic c = false)
      (h : ∀ token, (c, token) ∉ signs) : Refused [c] (.unexpectedChar c)

theorem ofSymbol?_eq_some_iff {c : Char} {token : Token} :
    ofSymbol? c = some token ↔ (c, token) ∈ signs := by
  constructor
  · intro h
    unfold ofSymbol? at h
    split at h
    case h_13 => cases h
    all_goals
      cases h
      simp [signs]
  · intro h
    have hall : ∀ entry ∈ signs, ofSymbol? entry.1 = some entry.2 := by decide
    exact hall _ h

/-- The segments that can be read are those that have tokens. -/
theorem readable_iff_means : Readable part ↔ ∃ tokens, Means part tokens := by
  constructor
  · intro h
    cases h with
    | numeral hrun hdigit hpoint =>
      obtain ⟨d, hd⟩ := (Decimal.exists_literal_iff hrun).mpr ⟨hdigit, hpoint⟩
      exact ⟨_, .numeral hd⟩
    | letters count hword =>
      rcases hword with rfl | rfl | ⟨f, hf⟩
      · exact ⟨_, .letters count .nothing⟩
      · exact ⟨_, .letters count .euler⟩
      · exact ⟨_, .letters count (.name hf)⟩
    | sign hsign => exact ⟨_, .sign hsign⟩
  · rintro ⟨tokens, h⟩
    cases h with
    | numeral hd =>
      obtain ⟨hdigit, hpoint⟩ := hd.digit_and_point
      exact .numeral hd.isNumeralChar hdigit hpoint
    | letters count hword =>
      refine .letters count ?_
      cases hword with
      | nothing => exact Or.inl rfl
      | euler => exact Or.inr (Or.inl rfl)
      | name hf => exact Or.inr (Or.inr ⟨_, hf⟩)
    | sign hsign => exact .sign hsign

theorem pis_succ (count : Nat) (word : Text) :
    pis (count + 1) ++ word = 'p' :: 'i' :: (pis count ++ word) := by
  simp [pis, List.replicate_succ]

/-- Every word is split behind the `pi`s it starts with. -/
theorem exists_pis (word : Text) :
    ∃ count rest, word = pis count ++ rest ∧ ¬['p', 'i'] <+: rest := by
  by_cases h : ['p', 'i'] <+: word
  · obtain ⟨after, rfl⟩ := h
    obtain ⟨count, rest, hafter, hrest⟩ := exists_pis after
    refine ⟨count + 1, rest, ?_, hrest⟩
    rw [pis_succ, ← hafter]
    rfl
  · exact ⟨0, word, rfl, h⟩
termination_by word.length

/-- A segment can be read or has a fault. -/
theorem readable_or_refused (h : IsSegment part) : Readable part ∨ ∃ fault, Refused part fault := by
  cases h with
  | numeral hne hrun =>
    by_cases hgood : (∃ c ∈ part, c.isDigit = true) ∧ part.count '.' ≤ 1
    · exact Or.inl (.numeral hrun hgood.1 hgood.2)
    · exact Or.inr ⟨_, .numeral hne hrun hgood⟩
  | letters hne hrun =>
    obtain ⟨count, word, rfl, hpi⟩ := exists_pis part
    by_cases hword : IsKnown word
    · exact Or.inl (.letters count hword)
    · have hletters : ∀ c ∈ word, isAlphabetic c = true :=
        fun c hc => hrun c (List.mem_append_right _ hc)
      exact Or.inr ⟨_, .letters count hletters hpi hword⟩
  | @single c hnumeral hletter =>
    by_cases hsign : ∃ token, (c, token) ∈ signs
    · obtain ⟨token, htoken⟩ := hsign
      exact Or.inl (.sign htoken)
    · exact Or.inr ⟨_, .char hnumeral hletter (not_exists.mp hsign)⟩

/-! ## 2. The scan of a segment -/

/-- The `pi`s in front of a word are read one by one. -/
theorem scan_pis (count : Nat) (word : Text) :
    scan (pis count ++ word) = (scan word).map (List.replicate count (.number pi) ++ ·) := by
  induction count with
  | zero =>
    show scan word = _
    cases scan word <;> rfl
  | succ count ih =>
    rw [pis_succ, scan_cons_of_ok (lexeme_pi _), ih]
    cases scan word <;> simp [Except.map, List.replicate_succ]

theorem WordMeans.scan (h : WordMeans word tokens) : scan word = .ok tokens := by
  cases h with
  | nothing => exact scan_nil
  | euler =>
    rw [scan_cons_of_ok (lexeme_euler (by simp)), scan_nil]
    rfl
  | name hname =>
    have hscan : Token.scan (word ++ []) = _ := scan_name hname (by simp)
    rwa [List.append_nil, scan_nil] at hscan

theorem Means.scan (h : Means part tokens) : scan part = .ok tokens := by
  cases h with
  | numeral hd =>
    have hscan : Token.scan (part ++ []) = _ := scan_literal hd (by simp)
    rwa [List.append_nil, scan_nil] at hscan
  | letters count hword =>
    rw [scan_pis, hword.scan]
    rfl
  | sign hsign =>
    rw [scan_symbol (ofSymbol?_eq_some_iff.mpr hsign), scan_nil]
    rfl

/-- A word that starts with no `pi` and is not known is no name. -/
theorem scan_unknown (hletters : ∀ c ∈ word, isAlphabetic c = true) (hpi : ¬['p', 'i'] <+: word)
    (h : ¬IsKnown word) : scan word = .error (.unknownName word) := by
  simp only [IsKnown, not_or] at h
  obtain ⟨hne, hlone, hname⟩ := h
  obtain ⟨c, rest, rfl⟩ := List.exists_cons_of_ne_nil hne
  have hstart : ¬(c = 'p' ∧ (rest ++ []).head? = some 'i') := by
    rintro ⟨rfl, hi⟩
    rw [List.append_nil] at hi
    obtain ⟨tail, rfl⟩ := List.head?_eq_some_iff.mp hi
    exact hpi ⟨tail, rfl⟩
  have heuler : c = 'e' → rest ≠ [] := by
    rintro rfl rfl
    exact hlone rfl
  have hnone : MathFunction.ofName? ((c :: rest).map Char.toLower) = none := by
    refine Option.eq_none_iff_forall_ne_some.mpr ?_
    intro f hf
    exact hname ⟨f, (MathFunction.name_of_ofName? hf).symm⟩
  have hlex := lexeme_word hletters (by simp) hstart heuler
  rw [List.append_nil, ofWord, hnone] at hlex
  exact scan_cons_of_error hlex

theorem Refused.scan (h : Refused part fault) : scan part = .error fault := by
  cases h with
  | numeral hne hrun hbad =>
    obtain ⟨c, rest, rfl⟩ := List.exists_cons_of_ne_nil hne
    have hnone : Decimal.ofText? (c :: rest) = none := by
      refine Option.eq_none_iff_forall_ne_some.mpr ?_
      intro d hd
      exact hbad ((Decimal.exists_literal_iff hrun).mp ⟨d, Decimal.ofText?_eq_some_iff.mp hd⟩)
    have hlex : lexeme c (rest ++ []) = _ := lexeme_numeral hrun (by simp)
    rw [List.append_nil, ofNumeral, hnone] at hlex
    exact scan_cons_of_error hlex
  | letters count hletters hpi hword =>
    rw [scan_pis, scan_unknown hletters hpi hword]
    rfl
  | @char c hnumeral hletter hc =>
    have hnone : ofSymbol? c = none := by
      refine Option.eq_none_iff_forall_ne_some.mpr ?_
      intro token htoken
      exact hc token (ofSymbol?_eq_some_iff.mp htoken)
    refine scan_cons_of_error ?_
    rw [lexeme_single hnumeral hletter, hnone, Option.elim_none]

/-- A segment is read as the tokens it means. -/
theorem IsSegment.scan_eq_ok_iff (h : IsSegment part) :
    scan part = .ok tokens ↔ Means part tokens := by
  refine ⟨?_, Means.scan⟩
  intro hscan
  rcases readable_or_refused h with hreadable | ⟨fault, hrefused⟩
  · obtain ⟨meant, hmeant⟩ := readable_iff_means.mp hreadable
    have hsame := hmeant.scan.symm.trans hscan
    cases hsame
    exact hmeant
  · have hother := hrefused.scan.symm.trans hscan
    cases hother

/-- A segment that cannot be read fails with its fault. -/
theorem IsSegment.scan_eq_error_iff (h : IsSegment part) :
    scan part = .error fault ↔ Refused part fault := by
  refine ⟨?_, Refused.scan⟩
  intro hscan
  rcases readable_or_refused h with hreadable | ⟨other, hrefused⟩
  · obtain ⟨meant, hmeant⟩ := readable_iff_means.mp hreadable
    have hother := hmeant.scan.symm.trans hscan
    cases hother
  · have hsame := hrefused.scan.symm.trans hscan
    cases hsame
    exact hrefused

theorem IsSegment.readable_iff (h : IsSegment part) :
    Readable part ↔ ∃ tokens, scan part = .ok tokens := by
  simp only [h.scan_eq_ok_iff]
  exact readable_iff_means

/-- No segment that can be read has a fault. -/
theorem Refused.not_readable (h : Refused part fault) : ¬Readable part := by
  intro hreadable
  obtain ⟨tokens, hmeans⟩ := readable_iff_means.mp hreadable
  have hboth := hmeans.scan.symm.trans h.scan
  cases hboth

/-! ## 3. The language -/

/-- Segments are read one by one as the tokens they mean. -/
theorem forall₂_scan_iff {lists : List (List Token)}
    (h : ∀ part ∈ parts, IsSegment part) :
    List.Forall₂ (fun part list => scan part = .ok list) parts lists ↔
      List.Forall₂ Means parts lists := by
  constructor
  · intro hscan
    have hboth := (List.forall₂_and_left parts lists).mpr ⟨h, hscan⟩
    exact hboth.imp fun _ _ hpart => hpart.1.scan_eq_ok_iff.mp hpart.2
  · intro hmeans
    exact hmeans.imp fun _ _ hpart => hpart.scan

/-- The tokens of a text are those that its segments mean. -/
theorem IsCut.scan_eq_ok_iff_means (h : IsCut text parts) :
    scan text = .ok tokens ↔ ∃ lists, List.Forall₂ Means parts lists ∧ lists.flatten = tokens := by
  rw [h.scan_eq_ok_iff]
  simp only [forall₂_scan_iff h.segment]

/-- The fault of a text is that of its leftmost segment that cannot be read. -/
theorem IsCut.scan_eq_error_iff_refused (h : IsCut text parts) :
    scan text = .error fault ↔
      ∃ front bad back, parts = front ++ bad :: back ∧
        (∀ part ∈ front, Readable part) ∧ Refused bad fault := by
  rw [h.scan_eq_error_iff]
  refine exists_congr fun front => exists_congr fun bad => exists_congr fun back => ?_
  refine and_congr_right fun hparts => ?_
  have hsegment : ∀ part ∈ front ++ bad :: back, IsSegment part := hparts ▸ h.segment
  obtain ⟨hfront, hbad⟩ : (∀ part ∈ front, IsSegment part) ∧ IsSegment bad :=
    ⟨fun part hpart => hsegment part (by simp [hpart]), hsegment bad (by simp)⟩
  refine and_congr (forall₂_congr fun part hpart => ?_) hbad.scan_eq_error_iff
  exact (hfront part hpart).readable_iff.symm

/-- A text has tokens when all its segments can be read. -/
theorem IsCut.exists_tokens_iff (h : IsCut text parts) :
    (∃ tokens, scan text = .ok tokens) ↔ ∀ part ∈ parts, Readable part := by
  constructor
  · rintro ⟨tokens, htokens⟩
    obtain ⟨lists, hlists, -⟩ := h.scan_eq_ok_iff_means.mp htokens
    have hboth := hlists.imp fun part tokens hmeans =>
      And.intro (readable_iff_means.mpr ⟨tokens, hmeans⟩) hmeans
    exact ((List.forall₂_and_left _ _).mp hboth).1
  · intro hreadable
    cases htokens : scan text with
    | ok tokens => exact ⟨tokens, rfl⟩
    | error fault =>
      obtain ⟨front, bad, back, rfl, -, hbad⟩ := h.scan_eq_error_iff_refused.mp htokens
      exact absurd (hreadable bad (by simp)) hbad.not_readable

/-- The texts that are cut into tokens are those whose segments can all be read once the spaces
are taken out, the tokens are those that the segments stand for, and any other text fails as its
leftmost segment that cannot be read. -/
theorem tokenize_segments (text : Text) :
    let dense : Text := text.filter (· != ' ')
    (∀ parts, IsCut dense parts ↔ parts = segments dense) ∧
      ((∃ tokens, tokenize text = .ok tokens) ↔ ∀ part ∈ segments dense, Readable part) ∧
      (∀ tokens, tokenize text = .ok tokens ↔
        ∃ lists, List.Forall₂ Means (segments dense) lists ∧ lists.flatten = tokens) ∧
      ∀ fault, tokenize text = .error fault ↔
        ∃ front bad back, segments dense = front ++ bad :: back ∧
          (∀ part ∈ front, Readable part) ∧ Refused bad fault := by
  intro dense
  have hcut : IsCut dense (segments dense) := isCut_iff.mpr rfl
  refine ⟨fun parts => isCut_iff, hcut.exists_tokens_iff, ?_, ?_⟩
  · intro tokens
    exact hcut.scan_eq_ok_iff_means
  · intro fault
    exact hcut.scan_eq_error_iff_refused

/-- A text with spaces in a number and in its runs of letters, and a text with two segments that
cannot be read, of which the first counts. -/
theorem tokenize_segments_spaced :
    tokenize "1 .5 ÷ pi SinH(p i pie".toList =
      .ok [.number (Decimal.toFloat ⟨15, 1⟩), .operator (.binary .divide), .number pi,
        .function .sinh, .openParen, .number pi, .number pi, .number euler] ∧
    tokenize "2 pi pi Foo # 3".toList = .error (.unknownName "Foo".toList) := by
  have hcut : segments ("1 .5 ÷ pi SinH(p i pie".toList.filter (· != ' ')) =
      [['1'] ++ '.' :: ['5'], ['÷'], pis 1 ++ "SinH".toList, ['('], pis 2 ++ ['e']] := by
    decide +kernel
  have hbroken : segments ("2 pi pi Foo # 3".toList.filter (· != ' ')) =
      [['2']] ++ (pis 2 ++ "Foo".toList) :: [['#'], ['3']] := by
    decide +kernel
  constructor
  · obtain ⟨-, -, htokens, -⟩ := tokenize_segments "1 .5 ÷ pi SinH(p i pie".toList
    have hnumber : Decimal.Literal (['1'] ++ '.' :: ['5']) ⟨15, 1⟩ :=
      .pointed (by simp) (by simp)
    have hmeans : List.Forall₂ Means (segments ("1 .5 ÷ pi SinH(p i pie".toList.filter (· != ' ')))
        [[.number (Decimal.toFloat ⟨15, 1⟩)], [.operator (.binary .divide)],
          [.number pi, .function .sinh], [.openParen],
          [.number pi, .number pi, .number euler]] := by
      rw [hcut]
      exact .cons (.numeral hnumber) (.cons (.sign (by simp [signs]))
        (.cons (.letters 1 (.name (by decide))) (.cons (.sign (by simp [signs]))
          (.cons (.letters 2 .euler) .nil))))
    exact (htokens _).mpr ⟨_, hmeans, rfl⟩
  · obtain ⟨-, -, -, hfault⟩ := tokenize_segments "2 pi pi Foo # 3".toList
    have hreadable : ∀ part ∈ [['2']], Readable part := by
      intro part hpart
      rw [List.mem_singleton.mp hpart]
      exact .numeral (by simp [isNumeralChar]) (by simp) (by simp)
    have hword : ¬IsKnown "Foo".toList := by
      rintro (h | h | ⟨f, h⟩)
      · exact absurd h (by decide)
      · exact absurd h (by decide)
      · revert h
        cases f <;> decide
    have hletters : ∀ c ∈ "Foo".toList, isAlphabetic c = true :=
      List.all_eq_true.mp (by decide)
    have hrefused : Refused (pis 2 ++ "Foo".toList) (.unknownName "Foo".toList) :=
      .letters 2 hletters (by decide) hword
    exact (hfault _).mpr ⟨_, _, _, hbroken, hreadable, hrefused⟩

end PocketCalc.Token
