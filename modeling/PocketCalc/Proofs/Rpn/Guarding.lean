/-
PocketCalc.Proofs.Rpn.Guarding — functions that wait under their
parenthesis.

A function waits on the stack until the next group is closed, whichever
this is. So a name without a parenthesis takes as its argument what comes
later. Where an opening parenthesis follows every function (`CallsOpen`),
each one waits right under its own parenthesis (`Guarded`), and closing
this releases it: what is read afterwards is no part of the argument.

Main statement: `Guarded.readAll`; `arrange?_append` says what the stack
means for the tokens still to come.
-/
import PocketCalc.Proofs.Rpn.Reading
import PocketCalc.Token.Sign

namespace PocketCalc

/-! ## 1. Functions that are called -/

namespace Token

/-- After each function an opening parenthesis follows at once. -/
def CallsOpen (tokens : List Token) : Prop :=
  ∀ front f back, tokens = front ++ .function f :: back → back.head? = some .openParen

theorem callsOpen_cons {token : Token} {tokens : List Token} :
    CallsOpen (token :: tokens) ↔
      (∀ f, token = .function f → tokens.head? = some .openParen) ∧ CallsOpen tokens := by
  constructor
  · intro h
    constructor
    · rintro f rfl
      exact h [] f tokens rfl
    · intro front f back htokens
      exact h (token :: front) f back (by rw [htokens, List.cons_append])
  · rintro ⟨hfirst, hrest⟩ front f back htokens
    cases front with
    | nil =>
      obtain ⟨rfl, rfl⟩ := List.cons_eq_cons.mp htokens
      exact hfirst f rfl
    | cons first front =>
      obtain ⟨rfl, rfl⟩ := List.cons_eq_cons.mp htokens
      exact hrest front f back rfl

theorem callsOpen_nil : CallsOpen [] := by
  intro front f back htokens
  cases front <;> cases htokens

/-- Marking the negations moves no parenthesis. -/
theorem CallsOpen.markSignsFrom {tokens : List Token} (h : CallsOpen tokens) (due : Bool) :
    CallsOpen (markSignsFrom due tokens) := by
  induction tokens generalizing due with
  | nil => exact callsOpen_nil
  | cons token rest ih =>
    obtain ⟨hfirst, hrest⟩ := callsOpen_cons.mp h
    rw [Token.markSignsFrom, callsOpen_cons]
    refine ⟨?_, ih hrest (opensOperand token)⟩
    intro f hf
    have htoken : token = .function f := by
      split at hf
      · cases hf
      · exact hf
    obtain ⟨tail, rfl⟩ := List.head?_eq_some_iff.mp (hfirst f htoken)
    simp [Token.markSignsFrom]

end Token

namespace Rpn

open Token

variable {held kept : List Held} {tokens released : List Token}

/-! ## 2. Reading several tokens -/

/-- What reading tokens sends to the output, and what waits after them. -/
def readAll? (held : List Held) : List Token → Option (List Token × List Held)
  | [] => some ([], held)
  | token :: rest =>
    (read? held token).bind fun (released, kept) =>
      (readAll? kept rest).map fun (more, last) => (released ++ more, last)

theorem readAll?_cons_eq_some {token : Token} {rest : List Token} :
    readAll? held (token :: rest) = some (released, kept) ↔
      ∃ front middle back, read? held token = some (front, middle) ∧
        readAll? middle rest = some (back, kept) ∧ front ++ back = released := by
  rw [readAll?, Option.bind_eq_some_iff]
  constructor
  · rintro ⟨⟨front, middle⟩, hread, hrest⟩
    obtain ⟨⟨back, last⟩, hback, hout⟩ := Option.map_eq_some_iff.mp hrest
    obtain ⟨rfl, rfl⟩ := Prod.mk.inj hout
    exact ⟨front, middle, back, hread, hback, rfl⟩
  · rintro ⟨front, middle, back, hread, hback, rfl⟩
    exact ⟨(front, middle), hread, Option.map_eq_some_iff.mpr ⟨(back, kept), hback, rfl⟩⟩

/-- What has been read acts on what comes later through the stack alone. -/
theorem arrange?_append (held : List Held) (front back : List Token) :
    arrange? held (front ++ back) =
      (readAll? held front).bind fun (released, kept) =>
        (arrange? kept back).map (released ++ ·) := by
  induction front generalizing held with
  | nil => simp [readAll?]
  | cons token front ih =>
    rw [List.cons_append, arrange?_cons, readAll?, Option.bind_assoc]
    refine Option.bind_congr ?_
    rintro ⟨released, kept⟩ -
    simp only [ih]
    cases readAll? kept front with
    | none => rfl
    | some found => simp [Function.comp_def]

/-! ## 3. Functions under their parenthesis -/

/-- Each function on the stack lies right under the parenthesis that opens its argument. -/
inductive Guarded : List Held → Prop where
  | nil : Guarded []
  | operator {held : List Held} (op : Operator) (h : Guarded held) :
      Guarded (.operator op :: held)
  | group {held : List Held} (h : Guarded held) : Guarded (.group :: held)
  | call {held : List Held} (f : MathFunction) (h : Guarded held) :
      Guarded (.group :: .function f :: held)

theorem Guarded.release (h : Guarded held) (next : Operator) :
    Guarded (release next held).2 := by
  induction h with
  | nil => exact .nil
  | operator op h ih =>
    rw [Rpn.release]
    split
    · exact ih
    · exact .operator op h
  | group h ih => exact .group h
  | call f h ih => exact .call f h

/-- Closing a parenthesis takes the function it belongs to off the stack as well. -/
theorem Guarded.closeGroup (h : Guarded held) (hclose : closeGroup? held = some (released, kept)) :
    Guarded kept := by
  induction h generalizing released with
  | nil => cases hclose
  | operator op h ih =>
    obtain ⟨⟨front, last⟩, hlast, hout⟩ := Option.map_eq_some_iff.mp hclose
    obtain ⟨-, rfl⟩ := Prod.mk.inj hout
    exact ih hlast
  | @group held h ih =>
    have hplain : closeGroup? (.group :: held) = some ([], held) := by
      cases h <;> rfl
    obtain ⟨-, rfl⟩ := Prod.mk.inj (Option.some.inj (hplain.symm.trans hclose))
    exact h
  | call f h ih =>
    obtain ⟨-, rfl⟩ := Prod.mk.inj (Option.some.inj hclose)
    exact h

theorem Guarded.read {token : Token} (h : Guarded held) (htoken : ∀ f, token ≠ .function f)
    (hread : read? held token = some (released, kept)) : Guarded kept := by
  cases token with
  | function f => exact absurd rfl (htoken f)
  | closeParen => exact h.closeGroup hread
  | openParen =>
    cases hread
    exact .group h
  | operator op =>
    cases hread
    exact .operator op (h.release op)
  | number _ | suffix _ =>
    cases hread
    exact h

/-- Where every function is called, none is left waiting but under its own parenthesis. -/
theorem Guarded.readAll (h : Guarded held) (hcalls : CallsOpen tokens)
    (hread : readAll? held tokens = some (released, kept)) : Guarded kept := by
  -- between a function and its parenthesis the function lies on top
  have hall : ∀ {held : List Held},
      (Guarded held ∨ ∃ f below, held = .function f :: below ∧ Guarded below ∧
        tokens.head? = some .openParen) →
      ∀ {released}, readAll? held tokens = some (released, kept) → Guarded kept := by
    clear h hread
    induction tokens with
    | nil =>
      rintro held (h | ⟨f, below, -, -, hhead⟩) released hread
      · obtain ⟨-, rfl⟩ := Prod.mk.inj (Option.some.inj hread)
        exact h
      · cases hhead
    | cons token rest ih =>
      obtain ⟨hfirst, hrest⟩ := callsOpen_cons.mp hcalls
      rintro held hheld released hread
      obtain ⟨front, middle, back, htoken, hlast, -⟩ := readAll?_cons_eq_some.mp hread
      refine ih hrest ?_ hlast
      rcases hheld with h | ⟨f, below, rfl, hbelow, hhead⟩
      · by_cases hf : ∃ f, token = .function f
        · obtain ⟨f, rfl⟩ := hf
          cases htoken
          exact Or.inr ⟨f, held, rfl, h, hfirst f rfl⟩
        · exact Or.inl (h.read (not_exists.mp hf) htoken)
      · obtain rfl := Option.some.inj hhead
        cases htoken
        exact Or.inl (.call f hbelow)
  exact hall (Or.inl h) hread

end Rpn

end PocketCalc
