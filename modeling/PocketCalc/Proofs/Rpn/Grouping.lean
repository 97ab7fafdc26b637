/-
PocketCalc.Proofs.Rpn.Grouping — a group may be replaced by its value.

Three facts carry the argument. Signs in a group are marked as at the
start of an expression. What waits below an opening parenthesis is not
touched before the group is closed, so a group is reordered as if it stood
alone (`arrange?_in_group`). And tokens that can run on an empty stack
leave alone what lies under it (`run_frame`).

`effect` is what the reverse order of a list does to a stack of values. It
decides the value of a list, and it is a congruence for whatever stands in
front (`effect_append`), well formed or not. Main statement:
`evaluateTokens_group`.
-/
import PocketCalc.Proofs.Expression
import PocketCalc.Proofs.Rpn.Reading

namespace PocketCalc

namespace Rpn

/-! ## 1. Reordering inside a group -/

theorem release_group_below (next : Operator) (held below : List Held) :
    release next (held ++ .group :: below) =
      ((release next held).1, (release next held).2 ++ .group :: below) := by
  induction held with
  | nil => rfl
  | cons item held ih =>
    cases item with
    | operator op =>
      simp only [List.cons_append, release, ih]
      split <;> rfl
    | function f => rfl
    | group => rfl

theorem closeGroup?_group_below {held kept : List Held} {released : List Token}
    (h : closeGroup? held = some (released, kept)) (below : List Held) :
    closeGroup? (held ++ .group :: below) = some (released, kept ++ .group :: below) := by
  induction held generalizing released with
  | nil => cases h
  | cons item held ih =>
    cases item with
    | operator op =>
      simp only [closeGroup?, Option.map_eq_some_iff] at h
      obtain ⟨⟨front, left⟩, hfound, heq⟩ := h
      cases heq
      simp [closeGroup?, ih hfound]
    | function f =>
      simp only [closeGroup?, Option.map_eq_some_iff] at h
      obtain ⟨⟨front, left⟩, hfound, heq⟩ := h
      cases heq
      simp [closeGroup?, ih hfound]
    | group =>
      -- the function called on the inner group, if any, stands above the outer one
      match held, h with
      | [], h => cases h; rfl
      | .operator _ :: _, h => cases h; rfl
      | .function _ :: _, h => cases h; rfl
      | .group :: _, h => cases h; rfl

/-- Closing a group releases what the end of the input would release. -/
theorem closeGroup?_of_releaseAll? {held : List Held} {out : List Token}
    (h : releaseAll? held = some out) (below : List Held) :
    closeGroup? (held ++ .group :: below) =
      (closeGroup? (.group :: below)).map fun (released, kept) => (out ++ released, kept) := by
  induction held generalizing out with
  | nil => cases h; simp
  | cons item held ih =>
    cases item with
    | operator op =>
      simp only [releaseAll?, Option.map_eq_some_iff] at h
      obtain ⟨front, hfront, rfl⟩ := h
      simp [closeGroup?, ih hfront, Function.comp_def]
    | function f =>
      simp only [releaseAll?, Option.map_eq_some_iff] at h
      obtain ⟨front, hfront, rfl⟩ := h
      simp [closeGroup?, ih hfront, Function.comp_def]
    | group => cases h

/-- A token is read in a group as it is read alone. -/
theorem read?_group_below {held kept : List Held} {token : Token} {released : List Token}
    (h : read? held token = some (released, kept)) (below : List Held) :
    read? (held ++ .group :: below) token = some (released, kept ++ .group :: below) := by
  cases token with
  | number x | suffix s | function f | openParen =>
    cases h
    rfl
  | operator op =>
    cases h
    simp [read?, release_group_below]
  | closeParen => exact closeGroup?_group_below h below

/-- Tokens that can be reordered alone are reordered the same way in a group, and the
stack below the group is as it was when the group is closed. -/
theorem arrange?_in_group {tokens out : List Token} {held : List Held}
    (h : arrange? held tokens = some out) (below : List Held) (rest : List Token) :
    arrange? (held ++ .group :: below) (tokens ++ .closeParen :: rest) =
      (arrange? (.group :: below) (.closeParen :: rest)).map (out ++ ·) := by
  induction tokens generalizing held out with
  | nil =>
    rw [arrange?] at h
    rw [List.nil_append, arrange?_cons, arrange?_cons, read?, read?,
      closeGroup?_of_releaseAll? h]
    cases closeGroup? (.group :: below) with
    | none => rfl
    | some found => simp [Function.comp_def]
  | cons token tokens ih =>
    obtain ⟨released, kept, back, hread, hback, rfl⟩ := arrange?_cons_eq_some.mp h
    rw [List.cons_append, arrange?_cons, read?_group_below hread, Option.bind_some]
    show (arrange? (kept ++ .group :: below) (tokens ++ .closeParen :: rest)).map _ = _
    rw [ih hback, Option.map_map]
    simp [Function.comp_def]

/-! ## 2. Running above other values -/

theorem step_frame {unit : AngleUnit} {token : Token} {stack out : List Float}
    (h : step unit token stack = .ok out) (below : List Float) :
    step unit token (stack ++ below) = .ok (out ++ below) := by
  unfold step at h
  split at h <;> cases h <;> rfl

/-- What lies under the values that are used stays where it is. -/
theorem run_frame {unit : AngleUnit} {tokens : List Token} {stack out : List Float}
    (h : run unit tokens stack = .ok out) (below : List Float) :
    run unit tokens (stack ++ below) = .ok (out ++ below) := by
  induction tokens generalizing stack with
  | nil => cases h; rfl
  | cons token tokens ih =>
    rw [run] at h ⊢
    split at h
    · rename_i next hnext
      rw [step_frame hnext]
      exact ih h
    · cases h

/-! ## 3. What a list does to the stack of values -/

/-- What tokens in the reverse order do to a stack, where there is an order at all. -/
def effect (unit : AngleUnit) (rpn? : Option (List Token)) :
    Option (List Float → Except EvalFault (List Float)) :=
  rpn?.map (run unit)

/-- The same output in front of two orders with the same effect. -/
theorem effect_map_append {unit : AngleUnit} {a b : Option (List Token)}
    (h : effect unit a = effect unit b) (out : List Token) :
    effect unit (a.map (out ++ ·)) = effect unit (b.map (out ++ ·)) := by
  match a, b, h with
  | none, none, _ => rfl
  | some a, some b, h =>
    simp only [effect, Option.map_some, Option.some.injEq] at h ⊢
    funext stack
    simp only [run_append, h]

/-- Two outputs with the same effect in front of the same order. -/
theorem effect_map_congr {unit : AngleUnit} {front other : List Token}
    (h : ∀ stack, run unit front stack = run unit other stack) (rpn? : Option (List Token)) :
    effect unit (rpn?.map (front ++ ·)) = effect unit (rpn?.map (other ++ ·)) := by
  cases rpn? with
  | none => rfl
  | some rpn =>
    simp only [effect, Option.map_some, Option.some.injEq]
    funext stack
    simp only [run_append, h]

/-- Tokens with the same effect over every stack may be exchanged behind any others. -/
theorem effect_append {unit : AngleUnit} {a b : List Token}
    (h : ∀ held, effect unit (arrange? held a) = effect unit (arrange? held b))
    (front : List Token) (held : List Held) :
    effect unit (arrange? held (front ++ a)) = effect unit (arrange? held (front ++ b)) := by
  induction front generalizing held with
  | nil => exact h held
  | cons token front ih =>
    rw [List.cons_append, List.cons_append, arrange?_cons, arrange?_cons]
    cases read? held token with
    | none => rfl
    | some found => exact effect_map_append (ih found.2) found.1

/-- The effect on the empty stack decides the value. -/
theorem evaluateTokens_eq_of_effect {unit : AngleUnit} {a b : List Token}
    (h : effect unit (arrange? [] (Token.markSigns a)) =
      effect unit (arrange? [] (Token.markSigns b))) :
    Expression.evaluateTokens unit a = Expression.evaluateTokens unit b := by
  simp only [Expression.evaluateTokens, ofTokens]
  match arrange? [] (Token.markSigns a), arrange? [] (Token.markSigns b), h with
  | none, none, _ => rfl
  | some a, some b, h =>
    simp only [effect, Option.map_some, Option.some.injEq] at h
    simp only [eval, h]

/-! ## 4. A group and its value -/

/-- Signs in a group and behind it are marked as if the group stood alone. -/
theorem markSigns_group (front group back : List Token) :
    Token.markSigns (front ++ [.openParen] ++ group ++ [.closeParen] ++ back) =
      Token.markSigns front ++ .openParen :: Token.markSigns group ++ .closeParen ::
        Token.markSignsFrom false back := by
  simp [Token.markSigns, Token.markSignsFrom_append, Token.markSignsFrom, Token.opensOperand]

/-- A group that has a value does to the stack what its value does. -/
theorem effect_group {unit : AngleUnit} {group rpn : List Token} {value : Float}
    (harrange : arrange? [] group = some rpn) (hrun : run unit rpn [] = .ok [value])
    (back : List Token) (held : List Held) :
    effect unit (arrange? held (.openParen :: group ++ .closeParen :: back)) =
      effect unit (arrange? held (.openParen :: [.number value] ++ .closeParen :: back)) := by
  have hgroup := arrange?_in_group harrange held back
  have hvalue : arrange? (.group :: held) ([.number value] ++ .closeParen :: back) =
      (arrange? (.group :: held) (.closeParen :: back)).map ([.number value] ++ ·) := rfl
  rw [List.nil_append] at hgroup
  show effect unit (arrange? (.group :: held) (group ++ .closeParen :: back)) =
    effect unit (arrange? (.group :: held) ([.number value] ++ .closeParen :: back))
  rw [hgroup, hvalue]
  refine effect_map_congr (fun stack => ?_) _
  have hframe := run_frame hrun stack
  rw [List.nil_append] at hframe
  rw [hframe]
  rfl

end Rpn

/-- A group may be replaced by its value in any context, well formed or not: the value
or the fault of the whole stays the same. -/
theorem Expression.evaluateTokens_group {unit : AngleUnit} {group : List Token} {value : Float}
    (h : evaluateTokens unit group = .ok value) (front back : List Token) :
    evaluateTokens unit (front ++ [.openParen] ++ group ++ [.closeParen] ++ back) =
      evaluateTokens unit (front ++ [.openParen, .number value, .closeParen] ++ back) := by
  obtain ⟨rpn, hrpn, hrun⟩ := evaluateTokens_eq_ok_iff.mp h
  have harrange := Rpn.ofTokens_eq_ok_iff.mp hrpn
  have hsplit : front ++ [.openParen, .number value, .closeParen] ++ back =
      front ++ [.openParen] ++ [.number value] ++ [.closeParen] ++ back := by simp
  apply Rpn.evaluateTokens_eq_of_effect
  rw [hsplit, Rpn.markSigns_group, Rpn.markSigns_group, List.append_assoc, List.append_assoc]
  exact Rpn.effect_append (Rpn.effect_group harrange hrun _) _ []

/-- A call on a group that holds a negation, in front of a sum that is not finished. -/
theorem Expression.evaluateTokens_group_unfinished :
    evaluateTokens .degrees [.minus, .number 3] = .ok (-3) ∧
    evaluateTokens .degrees ([.function .abs] ++ [.openParen] ++ [.minus, .number 3] ++
        [.closeParen] ++ [.suffix .percent, .operator (.binary .plus)]) =
      evaluateTokens .degrees ([.function .abs] ++ [.openParen, .number (-3), .closeParen] ++
        [.suffix .percent, .operator (.binary .plus)]) :=
  ⟨rfl, evaluateTokens_group rfl _ _⟩

end PocketCalc
