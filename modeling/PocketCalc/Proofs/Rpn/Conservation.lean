/-
PocketCalc.Proofs.Rpn.Conservation — what reordering keeps.

A list can be reordered exactly when its parentheses match
(`exists_ofTokens_iff`). The reverse order then holds every other token once
(`arrange?_perm`), and the tokens that keep their place, numbers and
suffixes, stand in it in the order they were written
(`arrange?_keepsPlace`).

Each is shown of reading one token, and then of a list by induction. What
is in the output, on the stack and still to be read makes up the list;
`heldTokens` counts the stack in.
-/
import PocketCalc.Proofs.Rpn.Reading
import PocketCalc.Token.Sign

namespace PocketCalc

/-! ## 1. Parentheses that match -/

namespace Token

/-- No closing parenthesis comes before its opening one, and none is missing. -/
def Balanced (tokens : List Token) : Prop :=
  (∀ front, front <+: tokens → front.count .closeParen ≤ front.count .openParen) ∧
    tokens.count .openParen = tokens.count .closeParen

/-- Whether the tokens close `depth` groups that were opened before them, and all their
own. -/
def closes : Nat → List Token → Bool
  | depth, [] => depth = 0
  | depth, .openParen :: rest => closes (depth + 1) rest
  | depth, .closeParen :: rest => 0 < depth && closes (depth - 1) rest
  | depth, _ :: rest => closes depth rest

theorem closes_cons_of_not_paren {token : Token} (h : token.isParen = false) (depth : Nat)
    (rest : List Token) : closes depth (token :: rest) = closes depth rest := by
  cases token <;> first | rfl | cases h

theorem forall_prefix_cons {token : Token} {tokens : List Token} (p : List Token → Prop) :
    (∀ front, front <+: token :: tokens → p front) ↔
      p [] ∧ ∀ front, front <+: tokens → p (token :: front) := by
  constructor
  · intro h
    refine ⟨h [] List.nil_prefix, ?_⟩
    intro front hfront
    exact h _ (List.cons_prefix_cons.mpr ⟨rfl, hfront⟩)
  · rintro ⟨hnil, hcons⟩ front hfront
    rcases List.prefix_cons_iff.mp hfront with rfl | ⟨tail, rfl, htail⟩
    · exact hnil
    · exact hcons tail htail

/-- Reading with a depth is counting on every prefix. -/
theorem closes_iff {depth : Nat} {tokens : List Token} :
    closes depth tokens = true ↔
      (∀ front, front <+: tokens →
        front.count .closeParen ≤ depth + front.count .openParen) ∧
      depth + tokens.count .openParen = tokens.count .closeParen := by
  induction tokens generalizing depth with
  | nil => simp [closes]
  | cons token tokens ih =>
    rw [forall_prefix_cons]
    cases token with
    | openParen =>
      rw [closes, ih]
      simp [Nat.add_comm, Nat.add_left_comm]
    | closeParen =>
      simp only [closes, Bool.and_eq_true, decide_eq_true_eq, ih, List.count_nil,
        List.count_cons_self, List.count_cons_of_ne (show Token.closeParen ≠ .openParen by simp)]
      constructor
      · rintro ⟨hpos, hfronts, htotal⟩
        refine ⟨⟨by omega, fun front hfront => ?_⟩, by omega⟩
        have := hfronts front hfront
        omega
      · rintro ⟨⟨-, hfronts⟩, htotal⟩
        have hpos := hfronts [] List.nil_prefix
        simp only [List.count_nil] at hpos
        refine ⟨by omega, fun front hfront => ?_, by omega⟩
        have := hfronts front hfront
        omega
    | _ =>
      rw [closes_cons_of_not_paren rfl, ih]
      simp

theorem balanced_iff {tokens : List Token} : Balanced tokens ↔ closes 0 tokens = true := by
  simp [Balanced, closes_iff]

/-- Only the parentheses of a list have to match. -/
theorem balanced_filter_isParen {tokens : List Token} :
    Balanced (tokens.filter isParen) ↔ Balanced tokens := by
  have hcloses : ∀ depth, closes depth (tokens.filter isParen) = closes depth tokens := by
    intro depth
    induction tokens generalizing depth with
    | nil => rfl
    | cons token tokens ih =>
      cases token with
      | openParen => exact ih (depth + 1)
      | closeParen => exact congrArg (decide (0 < depth) && ·) (ih (depth - 1))
      | _ => exact ih depth
  rw [balanced_iff, balanced_iff, hcloses]

/-- Marking the negations changes no parenthesis. -/
theorem closes_markSignsFrom (due : Bool) (depth : Nat) (tokens : List Token) :
    closes depth (markSignsFrom due tokens) = closes depth tokens := by
  induction tokens generalizing due depth with
  | nil => rfl
  | cons token tokens ih =>
    rw [markSignsFrom]
    split
    · rename_i h
      obtain rfl : token = minus := by simpa using (Bool.and_eq_true_iff.mp h).2
      rw [closes_cons_of_not_paren rfl, closes_cons_of_not_paren rfl, ih]
    · cases token <;> simp [closes, ih]

theorem balanced_markSigns {tokens : List Token} :
    Balanced (markSigns tokens) ↔ Balanced tokens := by
  rw [balanced_iff, balanced_iff, markSigns, closes_markSignsFrom]

end Token

/-! ## 2. What waits on the stack -/

namespace Token

/-- Whether reordering leaves the token in its place. -/
def keepsPlace : Token → Bool
  | number _ | suffix _ => true
  | _ => false

/-- Marking the negations changes no number and no suffix. -/
theorem filter_keepsPlace_markSignsFrom (due : Bool) (tokens : List Token) :
    (markSignsFrom due tokens).filter keepsPlace = tokens.filter keepsPlace := by
  induction tokens generalizing due with
  | nil => rfl
  | cons token tokens ih =>
    rw [markSignsFrom]
    split
    · rename_i h
      obtain rfl : token = minus := by simpa using (Bool.and_eq_true_iff.mp h).2
      simpa [keepsPlace] using ih _
    · simp only [List.filter_cons, ih]

end Token

namespace Rpn

/-- The token that waits. An opening parenthesis is none: it never leaves the stack for
the output. -/
def Held.token? : Held → Option Token
  | operator op => some (.operator op)
  | function f => some (.function f)
  | group => none

/-- The tokens that wait, the next one to be released first. -/
def heldTokens (held : List Held) : List Token :=
  held.filterMap Held.token?

/-- How many groups are open. -/
def openGroups (held : List Held) : Nat :=
  held.count .group

@[simp] theorem heldTokens_operator (op : Operator) (held : List Held) :
    heldTokens (.operator op :: held) = .operator op :: heldTokens held := rfl

@[simp] theorem heldTokens_function (f : MathFunction) (held : List Held) :
    heldTokens (.function f :: held) = .function f :: heldTokens held := rfl

@[simp] theorem heldTokens_group (held : List Held) :
    heldTokens (.group :: held) = heldTokens held := rfl

@[simp] theorem openGroups_operator (op : Operator) (held : List Held) :
    openGroups (.operator op :: held) = openGroups held := by simp [openGroups]

@[simp] theorem openGroups_function (f : MathFunction) (held : List Held) :
    openGroups (.function f :: held) = openGroups held := by simp [openGroups]

@[simp] theorem openGroups_group (held : List Held) :
    openGroups (.group :: held) = openGroups held + 1 := by simp [openGroups]

/-- No token that keeps its place waits. -/
theorem filter_keepsPlace_of_heldTokens {held : List Held} {front back : List Token}
    (h : heldTokens held = front ++ back) : front.filter Token.keepsPlace = [] := by
  refine List.filter_eq_nil_iff.mpr ?_
  intro token htoken
  have hmem : token ∈ heldTokens held := h ▸ List.mem_append_left _ htoken
  obtain ⟨item, -, hitem⟩ := List.mem_filterMap.mp hmem
  cases item <;> cases hitem <;> simp [Token.keepsPlace]

/-- Releasing operators moves tokens from the stack to the output, in order. -/
theorem release_conserves (next : Operator) (held : List Held) :
    heldTokens held = (release next held).1 ++ heldTokens (release next held).2 ∧
      openGroups (release next held).2 = openGroups held := by
  induction held with
  | nil => exact ⟨rfl, rfl⟩
  | cons item held ih =>
    cases item with
    | operator op =>
      rw [release]
      split
      · simpa using ih
      · exact ⟨rfl, rfl⟩
    | function f => exact ⟨rfl, rfl⟩
    | group => exact ⟨rfl, rfl⟩

/-- So does closing a group, which also closes one. -/
theorem closeGroup?_conserves {held kept : List Held} {released : List Token}
    (h : closeGroup? held = some (released, kept)) :
    heldTokens held = released ++ heldTokens kept ∧ openGroups held = openGroups kept + 1 := by
  induction held generalizing released with
  | nil => cases h
  | cons item held ih =>
    cases item with
    | operator op | function f =>
      simp only [closeGroup?, Option.map_eq_some_iff] at h
      obtain ⟨⟨front, left⟩, hfound, heq⟩ := h
      cases heq
      simpa using ih hfound
    | group =>
      match held, h with
      | [], h | .operator _ :: _, h | .function _ :: _, h | .group :: _, h => cases h; simp

/-- A group can be closed when one is open. -/
theorem closeGroup?_isSome (held : List Held) :
    (closeGroup? held).isSome = decide (0 < openGroups held) := by
  induction held with
  | nil => rfl
  | cons item held ih =>
    cases item with
    | operator op | function f => simpa [closeGroup?] using ih
    | group =>
      match held with
      | [] | .operator _ :: _ | .function _ :: _ | .group :: _ => simp [closeGroup?]

/-- The end of the input empties a stack without open groups. -/
theorem releaseAll?_eq (held : List Held) :
    releaseAll? held = if openGroups held = 0 then some (heldTokens held) else none := by
  induction held with
  | nil => rfl
  | cons item held ih =>
    cases item with
    | operator op | function f =>
      rw [releaseAll?, ih]
      split <;> simp_all
    | group => simp [releaseAll?]

/-! ## 3. Reading one token -/

/-- Reading goes on where the parentheses so far match. -/
theorem closes_cons (held : List Held) (token : Token) (rest : List Token) :
    Token.closes (openGroups held) (token :: rest) =
      match read? held token with
      | some (_, kept) => Token.closes (openGroups kept) rest
      | none => false := by
  cases token with
  | number x | suffix s | function f | openParen => simp [read?, Token.closes]
  | operator op => simp [read?, Token.closes, (release_conserves op held).2]
  | closeParen =>
    have hopen := closeGroup?_isSome held
    rw [read?, Token.closes]
    cases hclose : closeGroup? held with
    | none => simp_all
    | some found => simp [(closeGroup?_conserves hclose).2]

/-- A token that is read goes to the output or waits, and parentheses do neither. -/
theorem read?_perm {held kept : List Held} {token : Token} {released : List Token}
    (h : read? held token = some (released, kept)) :
    (released ++ heldTokens kept).Perm (heldTokens held ++ [token].filter (!·.isParen)) := by
  cases token with
  | number x | suffix s | function f =>
    cases h
    exact List.perm_append_singleton _ _ |>.symm
  | openParen =>
    cases h
    simp [Token.isParen]
  | operator op =>
    cases h
    have hheld := (release_conserves op held).1
    rw [heldTokens_operator, hheld, List.append_assoc]
    exact (List.perm_append_singleton _ _).symm.append_left _
  | closeParen =>
    rw [(closeGroup?_conserves h).1]
    simp [Token.isParen]

/-- A token that keeps its place goes to the output at once, and alone. -/
theorem read?_keepsPlace {held kept : List Held} {token : Token} {released : List Token}
    (h : read? held token = some (released, kept)) :
    released.filter Token.keepsPlace = [token].filter Token.keepsPlace := by
  cases token with
  | number x | suffix s | function f | openParen =>
    cases h
    rfl
  | operator op =>
    cases h
    exact filter_keepsPlace_of_heldTokens (release_conserves op held).1
  | closeParen => exact filter_keepsPlace_of_heldTokens (closeGroup?_conserves h).1

/-! ## 4. The reverse order -/

/-- Tokens can be reordered when their parentheses match those that are open. -/
theorem arrange?_isSome (held : List Held) (tokens : List Token) :
    (arrange? held tokens).isSome = Token.closes (openGroups held) tokens := by
  induction tokens generalizing held with
  | nil =>
    rw [arrange?, releaseAll?_eq, Token.closes]
    split <;> simp_all
  | cons token tokens ih =>
    rw [arrange?_cons, closes_cons]
    cases read? held token with
    | none => rfl
    | some found => simp [ih]

open List in
/-- Nothing but the parentheses is lost, and nothing is added. -/
theorem arrange?_perm {held : List Held} {tokens out : List Token}
    (h : arrange? held tokens = some out) :
    out.Perm (heldTokens held ++ tokens.filter (!·.isParen)) := by
  induction tokens generalizing held out with
  | nil =>
    rw [arrange?, releaseAll?_eq] at h
    split at h
    · cases h
      simp
    · cases h
  | cons token tokens ih =>
    obtain ⟨released, kept, back, hread, hback, rfl⟩ := arrange?_cons_eq_some.mp h
    calc
      released ++ back ~ released ++ (heldTokens kept ++ tokens.filter (!·.isParen)) :=
        (ih hback).append_left _
      _ = released ++ heldTokens kept ++ tokens.filter (!·.isParen) :=
        (List.append_assoc _ _ _).symm
      _ ~ heldTokens held ++ [token].filter (!·.isParen) ++ tokens.filter (!·.isParen) :=
        (read?_perm hread).append_right _
      _ = heldTokens held ++ (token :: tokens).filter (!·.isParen) := by
        rw [List.append_assoc, ← List.filter_append, List.singleton_append]

/-- Tokens can be reordered when their parentheses match. -/
theorem exists_ofTokens_iff {tokens : List Token} :
    (∃ rpn, ofTokens tokens = .ok rpn) ↔ Token.Balanced tokens := by
  have hsome := arrange?_isSome [] tokens
  rw [Token.balanced_iff, ← show openGroups [] = 0 from rfl, ← hsome, Option.isSome_iff_exists]
  exact exists_congr fun rpn => ofTokens_eq_ok_iff

/-- Tokens that can be reordered once they are marked have matching parentheses. -/
theorem balanced_of_ofTokens {tokens rpn : List Token}
    (h : ofTokens (Token.markSigns tokens) = .ok rpn) : Token.Balanced tokens :=
  Token.balanced_markSigns.mp (exists_ofTokens_iff.mp ⟨rpn, h⟩)

/-- The tokens that keep their place stay in the order they were written. -/
theorem arrange?_keepsPlace {held : List Held} {tokens out : List Token}
    (h : arrange? held tokens = some out) :
    out.filter Token.keepsPlace = tokens.filter Token.keepsPlace := by
  induction tokens generalizing held out with
  | nil =>
    rw [arrange?, releaseAll?_eq] at h
    split at h
    · cases h
      exact filter_keepsPlace_of_heldTokens (List.append_nil _).symm
    · cases h
  | cons token tokens ih =>
    obtain ⟨released, kept, back, hread, hback, rfl⟩ := arrange?_cons_eq_some.mp h
    rw [List.filter_append, read?_keepsPlace hread, ih hback, ← List.filter_append,
      List.singleton_append]

end Rpn

end PocketCalc
