/-
PocketCalc.Proofs.Token.Segments — a text is read segment by segment.

A segment is a longest run of digits and points, a longest run of letters,
or one other character. There is one way to cut a text into segments
(`isCut_iff`). No two neighbours belong to one run, so the scan of a text is
made up of the scans of its segments: it goes through when all of them do
(`IsCut.scan_eq_ok_iff`), and otherwise it fails as the leftmost one that
does not (`IsCut.scan_eq_error_iff`).
-/
import Mathlib.Data.List.Forall2
import Mathlib.Data.List.SplitBy
import PocketCalc.Proofs.Token.Locality

namespace PocketCalc.Token

open Text Number

variable {text part : Text} {parts : List Text}

/-! ## 1. Cutting a text -/

/-- The segments of a text, from left to right. -/
def segments (text : Text) : List Text :=
  text.splitBy joins

example : segments "2.5pie(e3".toList =
    ["2.5".toList, "pie".toList, "(".toList, "e".toList, "3".toList] := by decide

/-- The kinds of segments. -/
inductive IsSegment : Text → Prop where
  | numeral {run : Text} (hne : run ≠ []) (hrun : ∀ c ∈ run, isNumeralChar c = true) :
      IsSegment run
  | letters {run : Text} (hne : run ≠ []) (hrun : ∀ c ∈ run, isAlphabetic c = true) :
      IsSegment run
  | single {c : Char} (hnumeral : isNumeralChar c = false) (hletter : isAlphabetic c = false) :
      IsSegment [c]

/-- A text is cut into segments, and no two neighbours could be joined to a longer run. -/
structure IsCut (text : Text) (parts : List Text) : Prop where
  flatten : parts.flatten = text
  segment : ∀ part ∈ parts, IsSegment part
  maximal : parts.IsChain Separable

theorem IsSegment.ne_nil (h : IsSegment part) : part ≠ [] := by
  cases h with
  | numeral hne _ | letters hne _ => exact hne
  | single _ _ => simp

/-- A character of a numeral joins with those of numerals only, and a letter with letters. -/
theorem of_joins {c d : Char} (h : joins c d = true) :
    (isNumeralChar c = true → isNumeralChar d = true) ∧
      (isAlphabetic c = true → isAlphabetic d = true) := by
  simp only [joins, Bool.or_eq_true, Bool.and_eq_true] at h
  rcases h with ⟨hc, hd⟩ | ⟨hc, hd⟩
  · refine ⟨fun _ => hd, ?_⟩
    intro hletter
    rw [isNumeralChar_of_isAlphabetic hletter] at hc
    cases hc
  · refine ⟨?_, fun _ => hd⟩
    intro hnumeral
    rw [isNumeralChar_of_isAlphabetic hc] at hnumeral
    cases hnumeral

/-- A segment is a text whose neighbours all join. -/
theorem isSegment_iff :
    IsSegment part ↔ part ≠ [] ∧ part.IsChain (fun c d => joins c d = true) := by
  constructor
  · intro h
    refine ⟨h.ne_nil, ?_⟩
    cases h with
    | numeral _ hrun =>
      refine (List.pairwise_of_forall_mem_list ?_).isChain
      intro c hc d hd
      simp [joins, hrun c hc, hrun d hd]
    | letters _ hrun =>
      refine (List.pairwise_of_forall_mem_list ?_).isChain
      intro c hc d hd
      simp [joins, hrun c hc, hrun d hd]
    | single _ _ => exact List.isChain_singleton _
  · rintro ⟨hne, hchain⟩
    obtain ⟨c, rest, rfl⟩ := List.exists_cons_of_ne_nil hne
    by_cases hnumeral : isNumeralChar c = true
    · have hrest := hchain.cons_induction _ _ (fun _ _ hjoins => (of_joins hjoins).1) hnumeral
      exact .numeral hne (List.forall_mem_cons.mpr ⟨hnumeral, hrest⟩)
    by_cases hletter : isAlphabetic c = true
    · have hrest := hchain.cons_induction _ _ (fun _ _ hjoins => (of_joins hjoins).2) hletter
      exact .letters hne (List.forall_mem_cons.mpr ⟨hletter, hrest⟩)
    cases rest with
    | nil => exact .single (by simpa using hnumeral) (by simpa using hletter)
    | cons d rest =>
      have hjoins := List.rel_of_isChain_cons_cons hchain
      simp [joins, hnumeral, hletter] at hjoins

theorem separable_iff {front back : Text} (hfront : front ≠ []) (hback : back ≠ []) :
    Separable front back ↔ ∃ hf hb, joins (front.getLast hf) (back.head hb) = false := by
  simp [Separable, List.getLast?_eq_some_getLast hfront, List.head?_eq_some_head hback, hfront,
    hback]

/-- There is one cut of a text into segments. -/
theorem isCut_iff : IsCut text parts ↔ parts = segments text := by
  rw [eq_comm (a := parts), segments, List.splitBy_eq_iff]
  constructor
  · rintro ⟨hflatten, hsegment, hmaximal⟩
    have hne : ∀ part ∈ parts, part ≠ [] := fun part hpart => (hsegment part hpart).ne_nil
    refine ⟨hflatten.symm, fun hnil => hne [] hnil rfl,
      fun part hpart => (isSegment_iff.mp (hsegment part hpart)).2,
      hmaximal.imp_of_mem_imp ?_⟩
    intro front back hfront hback
    exact (separable_iff (hne front hfront) (hne back hback)).mp
  · rintro ⟨hflatten, hnil, hchain, hmaximal⟩
    have hne : ∀ part ∈ parts, part ≠ [] := by
      rintro part hpart rfl
      exact hnil hpart
    refine ⟨hflatten.symm, fun part hpart => isSegment_iff.mpr ⟨hne part hpart, hchain part hpart⟩,
      hmaximal.imp_of_mem_imp ?_⟩
    intro front back hfront hback
    exact (separable_iff (hne front hfront) (hne back hback)).mpr

/-! ## 2. Reading the segments in turn -/

/-- What is left of a cut is a cut, and no run goes on into it. -/
theorem IsCut.tail (h : IsCut text (part :: parts)) :
    IsCut parts.flatten parts ∧ Separable part parts.flatten := by
  have hsegment : ∀ other ∈ parts, IsSegment other := (List.forall_mem_cons.mp h.segment).2
  refine ⟨⟨rfl, hsegment, h.maximal.tail⟩, ?_⟩
  cases parts with
  | nil => simp [Separable]
  | cons next parts =>
    obtain ⟨d, rest, rfl⟩ := List.exists_cons_of_ne_nil (hsegment next List.mem_cons_self).ne_nil
    have hnext : Separable part (d :: rest) := List.rel_of_isChain_cons_cons h.maximal
    exact hnext

theorem IsCut.scan_cons (h : IsCut text (part :: parts)) :
    scan text = inTurn (scan part) (scan parts.flatten) := by
  rw [← h.flatten, List.flatten_cons, scan_append h.tail.2]

/-- The tokens of a text are those of its segments, in order. -/
theorem IsCut.scan_eq_ok_iff (h : IsCut text parts) {tokens : List Token} :
    scan text = .ok tokens ↔
      ∃ lists, List.Forall₂ (fun part list => scan part = .ok list) parts lists ∧
        lists.flatten = tokens := by
  induction parts generalizing text tokens with
  | nil =>
    obtain rfl : [] = text := h.flatten
    simp
  | cons part parts ih =>
    rw [h.scan_cons, inTurn_eq_ok_iff]
    constructor
    · rintro ⟨list, more, hpart, hmore, rfl⟩
      obtain ⟨lists, hlists, rfl⟩ := (ih h.tail.1).mp hmore
      exact ⟨list :: lists, .cons hpart hlists, rfl⟩
    · rintro ⟨_, hlists, rfl⟩
      cases hlists with
      | @cons _ list _ lists hpart hlists =>
        exact ⟨list, lists.flatten, hpart, (ih h.tail.1).mpr ⟨lists, hlists, rfl⟩, rfl⟩

/-- A text that cannot be read fails as its leftmost segment that cannot be read. -/
theorem IsCut.scan_eq_error_iff (h : IsCut text parts) {fault : SyntaxFault} :
    scan text = .error fault ↔
      ∃ front bad back, parts = front ++ bad :: back ∧
        (∀ part ∈ front, ∃ tokens, scan part = .ok tokens) ∧ scan bad = .error fault := by
  induction parts generalizing text with
  | nil =>
    obtain rfl : [] = text := h.flatten
    simp
  | cons part parts ih =>
    rw [h.scan_cons, inTurn_eq_error_iff, ih h.tail.1]
    constructor
    · rintro (hpart | ⟨hpart, front, bad, back, rfl, hfront, hbad⟩)
      · exact ⟨[], part, parts, rfl, by simp, hpart⟩
      · exact ⟨part :: front, bad, back, rfl, List.forall_mem_cons.mpr ⟨hpart, hfront⟩, hbad⟩
    · rintro ⟨front, bad, back, hparts, hfront, hbad⟩
      cases front with
      | nil =>
        obtain ⟨rfl, -⟩ := List.cons_eq_cons.mp hparts
        exact Or.inl hbad
      | cons first front =>
        obtain ⟨rfl, hback⟩ := List.cons_eq_cons.mp hparts
        obtain ⟨hpart, hfront⟩ := List.forall_mem_cons.mp hfront
        exact Or.inr ⟨hpart, front, bad, back, hback, hfront, hbad⟩

end PocketCalc.Token
