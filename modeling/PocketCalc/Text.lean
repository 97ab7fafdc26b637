/-
PocketCalc.Text — text as every part of the calculator handles it: a list
of characters.

A cursor position in a text is a number of UTF-8 bytes. `byteSize` is the
position after the last character, and `cutAt?` splits a text at a
position; it refuses a position inside a character or past the end. The
lemmas at the end say that the positions it accepts are exactly the byte
sizes of what stands in front of the cut.
-/

namespace PocketCalc

/-- A piece of text, one element a character. -/
abbrev Text := List Char

namespace Text

/-! ## 1. Positions in bytes -/

/-- Number of bytes of the UTF-8 form of a text. -/
def byteSize : Text → Nat
  | [] => 0
  | c :: rest => c.utf8Size + byteSize rest

/-- Splits a text after its first `position` bytes. There is no answer when
the position falls inside a character or past the end. -/
def cutAt? : Nat → Text → Option (Text × Text)
  | 0, text => some ([], text)
  | _ + 1, [] => none
  | position + 1, c :: rest =>
    if c.utf8Size ≤ position + 1 then
      (cutAt? (position + 1 - c.utf8Size) rest).map fun (front, back) => (c :: front, back)
    else
      none

/-! ## 2. Searching -/

/-- Whether `pattern` occurs in the text, at any place. -/
def mentions (pattern : Text) : Text → Bool
  | [] => pattern.isEmpty
  | c :: rest => pattern.isPrefixOf (c :: rest) || mentions pattern rest

/-! ## 3. Lemmas on byte positions -/

@[simp] theorem byteSize_nil : byteSize [] = 0 := rfl

@[simp] theorem byteSize_cons (c : Char) (rest : Text) :
    byteSize (c :: rest) = c.utf8Size + byteSize rest := rfl

@[simp] theorem byteSize_append (front back : Text) :
    byteSize (front ++ back) = byteSize front + byteSize back := by
  induction front with
  | nil => simp
  | cons c front ih => simp [ih, Nat.add_assoc]

/-- A character takes at least one byte, so no text has more characters
than bytes. -/
theorem length_le_byteSize (text : Text) : text.length ≤ byteSize text := by
  induction text with
  | nil => simp
  | cons c rest ih =>
    have := c.utf8Size_pos
    simp only [List.length_cons, byteSize_cons]
    omega

/-- A cut at the byte size of the front part returns both parts. -/
theorem cutAt?_append (front back : Text) :
    cutAt? (byteSize front) (front ++ back) = some (front, back) := by
  induction front with
  | nil => simp [cutAt?]
  | cons c front ih =>
    have hc := c.utf8Size_pos
    obtain ⟨n, hn⟩ : ∃ n, byteSize (c :: front) = n + 1 :=
      ⟨byteSize (c :: front) - 1, by simp only [byteSize_cons]; omega⟩
    have hle : c.utf8Size ≤ n + 1 := by rw [← hn]; simp
    have hrest : n + 1 - c.utf8Size = byteSize front := by rw [← hn]; simp
    rw [hn, List.cons_append, cutAt?, if_pos hle, hrest, ih]
    rfl

/-- A cut loses nothing, and its front part has the size asked for. -/
theorem eq_append_of_cutAt? {position : Nat} {text front back : Text}
    (h : cutAt? position text = some (front, back)) :
    text = front ++ back ∧ byteSize front = position := by
  induction text generalizing position front with
  | nil =>
    cases position with
    | zero => simp only [cutAt?, Option.some.injEq, Prod.mk.injEq] at h; simp [← h.1, ← h.2]
    | succ n => simp [cutAt?] at h
  | cons c rest ih =>
    cases position with
    | zero => simp only [cutAt?, Option.some.injEq, Prod.mk.injEq] at h; simp [← h.1, ← h.2]
    | succ n =>
      rw [cutAt?] at h
      split at h
      · rename_i hle
        obtain ⟨⟨f, b⟩, hcut, heq⟩ := Option.map_eq_some_iff.mp h
        simp only [Prod.mk.injEq] at heq
        obtain ⟨rfl, rfl⟩ := heq
        obtain ⟨htext, hsize⟩ := ih hcut
        refine ⟨by simp [htext], ?_⟩
        simp only [byteSize_cons, hsize]
        omega
      · simp at h

end Text

end PocketCalc
