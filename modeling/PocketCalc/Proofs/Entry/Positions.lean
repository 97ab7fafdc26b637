/-
PocketCalc.Proofs.Entry.Positions — no edit cuts a character.

The edits find their place in the line by counting bytes: the number at
the end starts where a scan of the characters from the end stops, a
negated number two bytes further to the front, a piece is as many bytes
from the end as it has, and separators are placed by a difference of bytes
and characters. Any text can stand in the line, so the counts could come
out inside a character or below zero.

Section 3 carries out each edit step by step, and a step that goes wrong
has no answer (`difference?`, `sliceTo?`, `sliceFrom?`, `truncate?`,
`cutAt?`). Every edit has an answer all the same, for every line, and it is
that of the edit that runs, whose own cut falls between characters too
(section 5). What the steps rest on is that the characters searched for
(digits, points, percent signs, the parenthesis and the minus sign) are
found as characters: a position in front of one lies between characters,
whatever stands around it.

Main statement: `edits_cut_at_boundaries`.
-/
import PocketCalc.Proofs.Entry.Changes
import PocketCalc.Proofs.Text.Positions

namespace PocketCalc

/-! ## 1. Separators -/

namespace Number

/-- Groups as `groupFrom` does, with a difference that must not go below zero. -/
def groupFromByBytes? (size passed : Nat) : Text → Option Text
  | [] => some []
  | c :: rest => do
    let separated ←
      if 0 < passed then (difference? size passed).map (· % 3 == 0) else some false
    let grouped ← groupFromByBytes? size (passed + 1) rest
    some (if separated then groupSeparator :: c :: grouped else c :: grouped)

/-- Groups a text whose size is counted in bytes, and its characters one by one. -/
def groupByBytes? (text : Text) : Option Text :=
  groupFromByBytes? text.byteSize 0 text

/-- As long as no more characters have passed than there are bytes, the difference exists. -/
theorem groupFromByBytes?_eq {size passed : Nat} {text : Text} (h : passed + text.length ≤ size) :
    groupFromByBytes? size passed text = some (groupFrom size passed text) := by
  induction text generalizing passed with
  | nil => rfl
  | cons c rest ih =>
    rw [List.length_cons] at h
    have hpassed : difference? size passed = some (size - passed) :=
      difference?_of_le (by omega)
    rw [groupFromByBytes?, groupFrom, ih (by omega), hpassed]
    by_cases hfirst : 0 < passed
    · simp [hfirst]
    · simp [hfirst]

/-- A character has at least one byte, so no text is too short in bytes. -/
theorem groupByBytes?_eq (text : Text) : groupByBytes? text = some (group text) := by
  refine groupFromByBytes?_eq ?_
  rw [Nat.zero_add]
  exact Text.length_le_byteSize text

end Number

namespace Entry

variable {entry : Text}

/-! ## 2. Where the number at the end starts -/

/-- The position of the last character passed when the characters are looked at from the
end, as long as they belong to a number; the end of the line when there is none. -/
def foundStart (entry : Text) : Nat :=
  let passed := (entry.positioned 0).reverse.takeWhile fun found => isLastNumberChar found.2
  (passed.getLast?.map Prod.fst).getD entry.byteSize

/-- The scan passes the number and stops in front of it. -/
theorem foundStart_append {front number : Text}
    (hnumber : ∀ c ∈ number, isLastNumberChar c = true)
    (hfront : ∀ c ∈ front.getLast?, isLastNumberChar c = false) :
    foundStart (front ++ number) = front.byteSize := by
  have hpass : ∀ found ∈ (Text.positioned front.byteSize number).reverse,
      isLastNumberChar found.2 = true := by
    intro found hfound
    refine hnumber found.2 ?_
    rw [← Text.map_snd_positioned front.byteSize number]
    exact List.mem_map_of_mem (List.mem_reverse.mp hfound)
  have hstop : ∀ found ∈ (Text.positioned 0 front).reverse.head?,
      isLastNumberChar found.2 = false := by
    intro found hfound
    refine hfront found.2 ?_
    rw [← Text.map_snd_positioned 0 front, List.getLast?_map]
    exact Option.mem_map_of_mem Prod.snd (List.head?_reverse ▸ hfound)
  have hpassed : (Text.positioned 0 (front ++ number)).reverse.takeWhile
      (fun found => isLastNumberChar found.2) =
        (Text.positioned front.byteSize number).reverse := by
    rw [Text.positioned_append, List.reverse_append, Nat.zero_add]
    exact Token.takeWhile_run hpass hstop
  rw [foundStart, hpassed, List.getLast?_reverse]
  cases number with
  | nil => simp [Text.positioned]
  | cons c rest => rfl

/-- The scan finds where the number at the end starts. -/
theorem foundStart_eq (entry : Text) : foundStart entry = numberStart entry := by
  have hnumber : ∀ c ∈ lastNumber entry, isLastNumberChar c = true :=
    fun c hc => isLastNumberChar_of_mem hc
  have hfront : ∀ c ∈ (beforeLastNumber entry).getLast?, isLastNumberChar c = false :=
    fun c hc => not_isLastNumberChar_of_getLast? hc
  have h := foundStart_append hnumber hfront
  rwa [beforeLastNumber_append, ← numberStart_eq] at h

/-- A cut there returns the number and what stands in front of it. -/
theorem cutAt?_foundStart (entry : Text) :
    entry.cutAt? (foundStart entry) = some (beforeLastNumber entry, lastNumber entry) := by
  rw [foundStart_eq, cutAt?_numberStart]

@[simp] theorem sliceTo?_foundStart (entry : Text) :
    entry.sliceTo? (foundStart entry) = some (beforeLastNumber entry) := by
  rw [Text.sliceTo?, cutAt?_foundStart]
  rfl

@[simp] theorem sliceFrom?_foundStart (entry : Text) :
    entry.sliceFrom? (foundStart entry) = some (lastNumber entry) := by
  rw [Text.sliceFrom?, cutAt?_foundStart]
  rfl

/-- It is the end of the line when there is no number. -/
theorem foundStart_eq_byteSize_iff : foundStart entry = entry.byteSize ↔ lastNumber entry = [] := by
  have hsize := congrArg Text.byteSize (beforeLastNumber_append entry)
  rw [Text.byteSize_append] at hsize
  rw [foundStart_eq, numberStart_eq]
  constructor
  · intro h
    have hlength := Text.length_le_byteSize (lastNumber entry)
    exact List.length_eq_zero_iff.mp (by omega)
  · intro h
    rw [h, Text.byteSize_nil] at hsize
    exact hsize

/-! ## 3. The edits, step by step -/

/-- The line with a point, which looks at the number at the end and at the last character. -/
def withPoint (number entry : Text) : Text :=
  if '.' ∈ number ∨ '%' ∈ number then entry
  else if entry.getLast? = some ')' then entry
  else if entry.getLast?.any Char.isDigit then entry ++ ['.']
  else entry ++ ['0', '.']

/-- The line with an operator, which looks at the last character and may take its place. -/
def withOperator (sign : Char) (entry : Text) : Text :=
  if entry.getLast? = none ∨ entry.getLast? = some '(' then
    if sign = '-' then entry ++ [sign] else entry
  else if entry.getLast?.any (· ∈ signableOperators) ∧ sign = '-' then entry ++ [sign]
  else if entry.getLast?.any (· ∈ operatorSigns) then entry.dropLast ++ [sign]
  else entry ++ [sign]

/-- Adding a piece. For a zero and a point the number at the end is sliced off the line; nothing
else needs a position. -/
def insertByBytes? (piece entry : Text) : Option Text :=
  match piece with
  | ['0'] => do
    let number ← entry.sliceFrom? (foundStart entry)
    some (if number = ['0'] then entry else entry ++ ['0'])
  | ['.'] => do
    let number ← entry.sliceFrom? (foundStart entry)
    some (withPoint number entry)
  | ['%'] => some (if endsWithValue entry then entry ++ ['%'] else entry)
  | [c] =>
    if c.isDigit then
      some (if endsWithLoneZero entry then entry.dropLast ++ [c] else entry ++ [c])
    else if c ∈ operatorSigns then some (withOperator c entry)
    else some (entry ++ [c])
  | _ => some (entry ++ piece)

/-- Putting the number at the end behind an opening and in front of a parenthesis. -/
def wrapByBytes? (opening entry : Text) : Option Text :=
  if foundStart entry = entry.byteSize then some entry
  else do
    let (front, number) ← entry.cutAt? (foundStart entry)
    some (front ++ opening ++ number ++ [')'])

/-- Changing the sign. The parentheses of a negated number start two bytes in front of the
number. -/
def toggleSignByBytes? (entry : Text) : Option Text :=
  match entry.getLast? with
  | none => insertByBytes? ['-'] entry
  | some ')' => do
    let inner : Text := entry.dropLast
    let number ← inner.sliceFrom? (foundStart inner)
    let front ← inner.sliceTo? (foundStart inner)
    if number ≠ [] ∧ ['(', '-'].isSuffixOf front then do
      let opening ← difference? (foundStart inner) 2
      let before ← inner.sliceTo? opening
      some (before ++ number)
    else some entry
  | some _ => wrapByBytes? ['(', '-'] entry

/-- Writing one over the number at the end. -/
def invertByBytes? (entry : Text) : Option Text :=
  wrapByBytes? ['1', '/', '('] entry

/-- Erasing. A piece at the end is cut off by its size. -/
def eraseLastByBytes? (entry : Text) : Option Text :=
  let trimmed := trimSpaces entry
  match erasedPieces.find? (·.isSuffixOf trimmed) with
  | some piece => do
    let size ← difference? trimmed.byteSize piece.byteSize
    trimmed.truncate? size
  | none => some trimmed.dropLast

/-! ## 4. No step goes wrong -/

theorem wrapByBytes?_eq (opening entry : Text) :
    wrapByBytes? opening entry =
      some (if lastNumber entry = [] then entry
        else beforeLastNumber entry ++ opening ++ lastNumber entry ++ [')']) := by
  simp only [wrapByBytes?, foundStart_eq_byteSize_iff, cutAt?_foundStart]
  split <;> rfl

theorem invertByBytes?_eq (entry : Text) : invertByBytes? entry = some (invert entry) := by
  rw [invertByBytes?, wrapByBytes?_eq]
  split
  · rename_i hnumber
    rw [invert_other hnumber]
  · rename_i hnumber
    rw [invert_number hnumber]

theorem eraseLastByBytes?_eq (entry : Text) :
    eraseLastByBytes? entry = some (eraseLast entry) := by
  rw [eraseLastByBytes?]
  cases hfind : erasedPieces.find? (·.isSuffixOf (trimSpaces entry)) with
  | some piece =>
    have htrimmed := eraseLast_append_piece hfind
    rw [← htrimmed]
    simp
  | none => simp [eraseLast_eq_dropLast hfind]

theorem toggleSignByBytes?_eq (entry : Text) :
    toggleSignByBytes? entry = some (toggleSign entry) := by
  rcases List.eq_nil_or_concat' entry with rfl | ⟨inner, last, rfl⟩
  · rfl
  by_cases hclose : last = ')'
  · subst hclose
    simp only [toggleSignByBytes?, List.getLast?_concat, List.dropLast_concat,
      sliceFrom?_foundStart, sliceTo?_foundStart, Option.bind_eq_bind, Option.bind_some]
    split
    · rename_i hnegated
      obtain ⟨front, number, rfl, hne, hnumber⟩ := exists_negated hnegated
      have hslice := Text.sliceTo?_append front (['(', '-'] ++ number)
      rw [← List.append_assoc] at hslice
      rw [toggleSign_negated hne hnumber, foundStart_eq, numberStart_negated hnumber,
        difference?_add,
        Option.bind_some, hslice, Option.bind_some, (lastNumber_negated hnumber front).1]
    · rename_i hnegated
      rw [toggleSign_closed hnegated]
  · have hwrap : toggleSignByBytes? (inner ++ [last]) =
        wrapByBytes? ['(', '-'] (inner ++ [last]) := by
      simp [toggleSignByBytes?]
    rw [hwrap, wrapByBytes?_eq]
    split
    · rename_i hnumber
      rw [toggleSign_other hclose hnumber]
    · rename_i hnumber
      rw [toggleSign_number hnumber]

theorem withPoint_eq (entry : Text) :
    withPoint (lastNumber entry) entry = (insertPoint entry).edited entry := by
  have hmarks : ((lastNumber entry).any fun c => c = '.' || c = '%') = true ↔
      '.' ∈ lastNumber entry ∨ '%' ∈ lastNumber entry := by
    simp [List.any_eq_true, or_and_right, exists_or, and_comm]
  simp only [withPoint, insertPoint, hmarks]
  by_cases hmark : '.' ∈ lastNumber entry ∨ '%' ∈ lastNumber entry
  · rw [if_pos hmark, if_pos hmark, Splice.edited_unchanged]
  rw [if_neg hmark, if_neg hmark]
  cases hlast : entry.getLast? with
  | none => simp
  | some c =>
    by_cases hclose : c = ')'
    · simp [hclose]
    · by_cases hdigit : c.isDigit = true
      · simp [hclose, hdigit]
      · simp [hclose, hdigit]

theorem withOperator_eq (sign : Char) (entry : Text) :
    withOperator sign entry = (insertOperator sign entry).edited entry := by
  by_cases hopen : entry = [] ∨ entry.getLast? = some '('
  · have hlast : entry.getLast? = none ∨ entry.getLast? = some '(' :=
      hopen.imp_left List.getLast?_eq_none_iff.mpr
    rw [insertOperator_open hopen, withOperator, if_pos hlast]
    split
    · rw [Splice.edited_append]
    · rw [Splice.edited_unchanged]
  rcases List.eq_nil_or_concat' entry with rfl | ⟨front, last, rfl⟩
  · exact absurd (Or.inl rfl) hopen
  have hparen : last ≠ '(' := by
    rintro rfl
    exact hopen (Or.inr List.getLast?_concat)
  by_cases hlast : last ∈ operatorSigns
  · rw [insertOperator_behind hlast]
    by_cases hguard : last ∈ signableOperators ∧ sign = '-'
    · simp [withOperator, hparen, hguard]
    · simp [withOperator, hparen, hguard, hlast]
  · have hsignable : last ∉ signableOperators := fun h => hlast (mem_operatorSigns_of_signable h)
    rw [insertOperator_value List.getLast?_concat hparen hlast]
    simp [withOperator, hparen, hlast, hsignable]

theorem insertByBytes?_eq (piece entry : Text) :
    insertByBytes? piece entry = some (insert piece entry) := by
  unfold insertByBytes?
  split
  · have hpiece : insertion ['0'] entry = insertDigit '0' entry := rfl
    simp only [sliceFrom?_foundStart, Option.bind_eq_bind, Option.bind_some, insert, hpiece,
      insertDigit, if_true]
    split
    · rw [Splice.edited_unchanged]
    · rw [Splice.edited_append]
  · have hpiece : insertion ['.'] entry = insertPoint entry := rfl
    rw [sliceFrom?_foundStart, insert, hpiece, ← withPoint_eq]
    rfl
  · have hpiece : insertion ['%'] entry = insertPercent entry := rfl
    rw [insert, hpiece, insertPercent]
    split
    · rw [Splice.edited_append]
    · rw [Splice.edited_unchanged]
  · rename_i c hzero hpoint hpercent
    have hzero' : c ≠ '0' := fun h => hzero (h ▸ rfl)
    have hpoint' : c ≠ '.' := fun h => hpoint (h ▸ rfl)
    have hpercent' : c ≠ '%' := fun h => hpercent (h ▸ rfl)
    rw [insert, insertion]
    simp only [hpoint', hpercent', if_false]
    split
    · rw [insertDigit, if_neg hzero']
      split
      · rw [Splice.edited_replaceLast]
      · rw [Splice.edited_append]
    · split
      · rw [withOperator_eq]
      · rw [Splice.edited_append]
  · rename_i hother
    have hpiece : insertion piece entry = .append entry piece := by
      rw [insertion]
      exact hother
    rw [insert, hpiece, Splice.edited_append]

/-! ## 5. Where the edits that run cut the line -/

namespace Splice

/-- Whether the line is cut between characters. -/
def Lands (splice : Splice) (entry : Text) : Prop :=
  Text.IsBoundary splice.keep entry

theorem lands_front (front back piece : Text) :
    (Splice.mk front.byteSize piece).Lands (front ++ back) :=
  Text.isBoundary_iff.mpr ⟨front, back, rfl, rfl⟩

@[simp] theorem lands_append (entry piece : Text) : (append entry piece).Lands entry := by
  have h := lands_front entry [] piece
  rwa [List.append_nil] at h

@[simp] theorem lands_unchanged (entry : Text) : (unchanged entry).Lands entry :=
  lands_append entry []

@[simp] theorem lands_replaceLast (entry piece : Text) : (replaceLast entry piece).Lands entry := by
  obtain ⟨last, hlast⟩ := List.dropLast_prefix entry
  have h := lands_front entry.dropLast last piece
  rwa [hlast] at h

@[simp] theorem lands_numberStart (entry piece : Text) :
    (Splice.mk (numberStart entry) piece).Lands entry := by
  have h := lands_front (beforeLastNumber entry) (lastNumber entry) piece
  rwa [beforeLastNumber_append, ← numberStart_eq] at h

/-- A line cut in front of what follows it is cut there with anything behind. -/
theorem Lands.extended {splice : Splice} (h : splice.Lands entry) (back : Text) :
    splice.Lands (entry ++ back) := by
  obtain ⟨front, rest, rfl, hkeep⟩ := Text.isBoundary_iff.mp h
  exact Text.isBoundary_iff.mpr ⟨front, rest ++ back, List.append_assoc .., hkeep⟩

/-- An edit that lands gives the edited line, not the line as it was. -/
theorem Lands.edited?_eq {splice : Splice} (h : splice.Lands entry) :
    splice.edited? entry = some (splice.edited entry) := by
  obtain ⟨front, back, rfl, hkeep⟩ := Text.isBoundary_iff.mp h
  have hfront := edited?_front front back splice.insert
  rw [hkeep] at hfront
  rw [edited, hfront]
  rfl

end Splice

theorem lands_insertDigit (digit : Char) (entry : Text) :
    (insertDigit digit entry).Lands entry := by
  rw [insertDigit]
  split <;> split <;> simp

theorem lands_insertPoint (entry : Text) : (insertPoint entry).Lands entry := by
  rw [insertPoint]
  split
  · exact Splice.lands_unchanged entry
  · split
    · exact Splice.lands_unchanged entry
    · split <;> simp
    · exact Splice.lands_append entry ['0', '.']

theorem lands_insertPercent (entry : Text) : (insertPercent entry).Lands entry := by
  rw [insertPercent]
  split <;> simp

theorem lands_insertOperator (sign : Char) (entry : Text) :
    (insertOperator sign entry).Lands entry := by
  unfold insertOperator
  split
  · split <;> simp
  · split <;> simp
  · split
    · exact Splice.lands_append entry [sign]
    · split <;> simp

theorem lands_insertion (piece entry : Text) : (insertion piece entry).Lands entry := by
  unfold insertion
  split
  · rename_i c
    split
    · exact lands_insertDigit c entry
    split
    · exact lands_insertPoint entry
    split
    · exact lands_insertPercent entry
    split
    · exact lands_insertOperator c entry
    · exact Splice.lands_append entry [c]
  · exact Splice.lands_append entry piece

/-- The two bytes in front of a negated number are there. -/
theorem lands_positive (inner back : Text) :
    (positive (inner ++ back) inner).Lands (inner ++ back) := by
  rw [positive]
  split
  · rename_i hnegated
    obtain ⟨front, number, rfl, -, hnumber⟩ := exists_negated hnegated
    rw [numberStart_negated hnumber, Nat.add_sub_cancel, List.append_assoc, List.append_assoc]
    exact Splice.lands_front ..
  · exact Splice.lands_unchanged (inner ++ back)

theorem lands_signToggle (entry : Text) : (signToggle entry).Lands entry := by
  rw [signToggle]
  split
  · exact lands_insertion ['-'] entry
  · rename_i hclose
    obtain ⟨inner, rfl⟩ := List.getLast?_eq_some_iff.mp hclose
    rw [List.dropLast_concat]
    exact lands_positive inner [')']
  · split <;> simp

theorem lands_inversion (entry : Text) : (inversion entry).Lands entry := by
  rw [inversion]
  split <;> simp

theorem lands_erasure (entry : Text) : (erasure entry).Lands entry := by
  obtain ⟨spaces, hentry, -⟩ := exists_trimSpaces entry
  have htrimmed : (erasure entry).Lands (trimSpaces entry) := by
    cases hfind : erasedPieces.find? (·.isSuffixOf (trimSpaces entry)) with
    | some piece =>
      have hsplit := eraseLast_append_piece hfind
      have hkeep : (trimSpaces entry).byteSize - piece.byteSize = (eraseLast entry).byteSize := by
        rw [← hsplit, Text.byteSize_append, Nat.add_sub_cancel]
      have hfront := Splice.lands_front (eraseLast entry) piece []
      rw [hsplit] at hfront
      simpa only [erasure, hfind, hkeep] using hfront
    | none => simp [erasure, hfind]
  have h := htrimmed.extended spaces
  rwa [← hentry] at h

/-! ## 6. Every edit -/

theorem isLastNumberChar_iff {c : Char} :
    isLastNumberChar c = true ↔ c.isDigit = true ∨ c = '.' ∨ c = '%' := by
  simp [isLastNumberChar, or_assoc]

/-- The number at the end starts between two characters, and what follows is the longest run of
digits, points and percent signs there is. Adding a piece, changing the sign, writing one over a
number and erasing have an answer for every line when no step may cut a character or go below zero,
and so has the placing of separators for every text; that answer is what the running function
gives, whose own cut falls between characters. -/
theorem edits_cut_at_boundaries (entry : Text) :
    (Text.IsBoundary (foundStart entry) entry ∧
      ∃ front number, entry.cutAt? (foundStart entry) = some (front, number) ∧
        front ++ number = entry ∧
        (∀ c ∈ number, c.isDigit = true ∨ c = '.' ∨ c = '%') ∧
        ∀ c ∈ front.getLast?, ¬(c.isDigit = true ∨ c = '.' ∨ c = '%')) ∧
    (∀ piece, insertByBytes? piece entry = some (insert piece entry) ∧
      (insertion piece entry).edited? entry = some (insert piece entry)) ∧
    (toggleSignByBytes? entry = some (toggleSign entry) ∧
      (signToggle entry).edited? entry = some (toggleSign entry)) ∧
    (invertByBytes? entry = some (invert entry) ∧
      (inversion entry).edited? entry = some (invert entry)) ∧
    (eraseLastByBytes? entry = some (eraseLast entry) ∧
      (erasure entry).edited? entry = some (eraseLast entry)) ∧
    ∀ text, Number.groupByBytes? text = some (Number.group text) := by
  have hcut := cutAt?_foundStart entry
  have hboundary : Text.IsBoundary (foundStart entry) entry := by
    rw [← Text.isSome_cutAt?, hcut]
    rfl
  have hfront : ∀ c ∈ (beforeLastNumber entry).getLast?,
      ¬(c.isDigit = true ∨ c = '.' ∨ c = '%') := by
    intro c hc
    rw [← isLastNumberChar_iff, not_isLastNumberChar_of_getLast? hc]
    exact Bool.false_ne_true
  refine ⟨⟨hboundary, beforeLastNumber entry, lastNumber entry, hcut,
    beforeLastNumber_append entry, fun c hc => isLastNumberChar_iff.mp (isLastNumberChar_of_mem hc),
    hfront⟩, ?_, ?_, ?_, ?_, Number.groupByBytes?_eq⟩
  · intro piece
    exact ⟨insertByBytes?_eq piece entry, (lands_insertion piece entry).edited?_eq⟩
  · exact ⟨toggleSignByBytes?_eq entry, (lands_signToggle entry).edited?_eq⟩
  · exact ⟨invertByBytes?_eq entry, (lands_inversion entry).edited?_eq⟩
  · exact ⟨eraseLastByBytes?_eq entry, (lands_erasure entry).edited?_eq⟩

/-- Characters of two and three bytes stand in front of the cuts, and for the separators among the
digits. -/
theorem edits_cut_at_boundaries_multibyte :
    Text.IsBoundary 5 "2×π1.2%".toList ∧
      Text.cutAt? 5 "2×π1.2%".toList = some ("2×π".toList, "1.2%".toList) ∧
      insertByBytes? ['0'] "√0".toList = some "√0".toList ∧
      toggleSignByBytes? "√(-2)".toList = some "√2".toList ∧
      invertByBytes? "2×π12%".toList = some "2×π1/(12%)".toList ∧
      eraseLastByBytes? "πasinh( ".toList = some ['π'] ∧
      Number.groupByBytes? "1√2".toList = some "1√,2".toList := by
  obtain ⟨⟨hboundary, -⟩, -, -, -, -, hgroup⟩ :=
    edits_cut_at_boundaries "2×π1.2%".toList
  obtain ⟨-, hinsert, -, -, -, -⟩ := edits_cut_at_boundaries "√0".toList
  obtain ⟨-, -, htoggle, -, -, -⟩ := edits_cut_at_boundaries "√(-2)".toList
  obtain ⟨-, -, -, hinvert, -, -⟩ := edits_cut_at_boundaries "2×π12%".toList
  obtain ⟨-, -, -, -, herase, -⟩ := edits_cut_at_boundaries "πasinh( ".toList
  have hstart : foundStart "2×π1.2%".toList = 5 := by decide
  rw [hstart] at hboundary
  refine ⟨hboundary, by decide, ?_, ?_, ?_, ?_, ?_⟩
  · rw [(hinsert ['0']).1]
    decide
  · rw [htoggle.1]
    decide
  · rw [hinvert.1]
    decide
  · rw [herase.1]
    decide
  · rw [hgroup]
    decide

end Entry

end PocketCalc
