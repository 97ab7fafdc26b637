/-
PocketCalc.Proofs.Text.Positions — positions between the characters of a
text.

A position counts bytes of the UTF-8 form, and only some positions lie
between two characters. Which ones is said here of the bytes themselves
(`IsBoundary`, through `String`, which is an array of bytes), and `cutAt?`
accepts exactly these (`isSome_cutAt?`).

Slicing a text inside a character and subtracting below zero go wrong.
Written with an `Option`, such a step has no answer there, so a computation
made of such steps has an answer only where none of them goes wrong.
-/
import PocketCalc.Text

namespace PocketCalc

/-! ## 1. Differences -/

/-- The difference of two numbers, where it is not below zero. -/
def difference? (a b : Nat) : Option Nat :=
  if b ≤ a then some (a - b) else none

theorem difference?_of_le {a b : Nat} (h : b ≤ a) : difference? a b = some (a - b) :=
  if_pos h

@[simp] theorem difference?_add (a b : Nat) : difference? (a + b) b = some a := by
  rw [difference?_of_le (Nat.le_add_left ..), Nat.add_sub_cancel]

namespace Text

variable {text : Text} {position : Nat}

/-! ## 2. Boundaries -/

/-- A position up to which the bytes of a text are whole characters. -/
def IsBoundary (position : Nat) (text : Text) : Prop :=
  String.Pos.Raw.IsValid (String.ofList text) ⟨position⟩

/-- The bytes counted are those of the UTF-8 form. -/
theorem utf8ByteSize_eq (text : Text) : (String.ofList text).utf8ByteSize = byteSize text := by
  induction text with
  | nil => rfl
  | cons c rest ih =>
    have hsplit : String.ofList (c :: rest) = String.singleton c ++ String.ofList rest := by
      rw [String.singleton_eq_ofList, ← String.ofList_append, List.singleton_append]
    rw [hsplit, String.utf8ByteSize_append, String.utf8ByteSize_singleton, ih, byteSize_cons]

theorem isBoundary_iff :
    IsBoundary position text ↔ ∃ front back, text = front ++ back ∧ byteSize front = position := by
  rw [IsBoundary, String.Pos.Raw.isValid_iff_exists_append]
  constructor
  · rintro ⟨front, back, htext, hposition⟩
    refine ⟨front.toList, back.toList, ?_, ?_⟩
    · rw [← String.toList_append, ← htext, String.toList_ofList]
    · rw [← utf8ByteSize_eq, String.ofList_toList]
      exact (congrArg String.Pos.Raw.byteIdx hposition).symm
  · rintro ⟨front, back, rfl, rfl⟩
    refine ⟨String.ofList front, String.ofList back, String.ofList_append, ?_⟩
    rw [← utf8ByteSize_eq]
    rfl

/-- A text can be cut at its boundaries and nowhere else. -/
theorem isSome_cutAt? : (text.cutAt? position).isSome = true ↔ IsBoundary position text := by
  rw [isBoundary_iff]
  constructor
  · intro h
    obtain ⟨⟨front, back⟩, hcut⟩ := Option.isSome_iff_exists.mp h
    exact ⟨front, back, eq_append_of_cutAt? hcut⟩
  · rintro ⟨front, back, rfl, rfl⟩
    rw [cutAt?_append]
    rfl

/-! ## 3. Slices -/

/-- The part of a text up to a boundary. -/
def sliceTo? (position : Nat) (text : Text) : Option Text :=
  (text.cutAt? position).map Prod.fst

/-- The part of a text from a boundary on. -/
def sliceFrom? (position : Nat) (text : Text) : Option Text :=
  (text.cutAt? position).map Prod.snd

/-- A text shortened to so many bytes. A text that is no longer than that stays as it is. -/
def truncate? (size : Nat) (text : Text) : Option Text :=
  if text.byteSize < size then some text else text.sliceTo? size

@[simp] theorem sliceTo?_append (front back : Text) :
    sliceTo? front.byteSize (front ++ back) = some front := by
  rw [sliceTo?, cutAt?_append]
  rfl

@[simp] theorem truncate?_append (front back : Text) :
    truncate? front.byteSize (front ++ back) = some front := by
  have hsize : ¬byteSize (front ++ back) < byteSize front := by
    rw [byteSize_append]
    omega
  rw [truncate?, if_neg hsize, sliceTo?_append]

/-! ## 4. The characters and their positions -/

/-- The characters of a text, each with its position, when the first stands at `position`. -/
def positioned (position : Nat) : Text → List (Nat × Char)
  | [] => []
  | c :: rest => (position, c) :: positioned (position + c.utf8Size) rest

theorem positioned_append (position : Nat) (front back : Text) :
    positioned position (front ++ back) =
      positioned position front ++ positioned (position + byteSize front) back := by
  induction front generalizing position with
  | nil => rfl
  | cons c front ih => simp [positioned, ih, Nat.add_assoc]

theorem map_snd_positioned (position : Nat) (text : Text) :
    (positioned position text).map Prod.snd = text := by
  induction text generalizing position with
  | nil => rfl
  | cons c rest ih => rw [positioned, List.map_cons, ih]

end Text

end PocketCalc
