/-
PocketCalc.Proofs.Rpn.Reading — tokens are reordered one at a time.

Reading a token sends tokens to the output and changes what waits on the
stack (`read?`). A list is reordered by reading its tokens in turn, so what
is shown of one reading carries over to a whole list by induction.
-/
import PocketCalc.Rpn

namespace PocketCalc.Rpn

/-- What reading a token sends to the output, and what waits after it. Only a closing
parenthesis can be out of place. -/
def read? (held : List Held) : Token → Option (List Token × List Held)
  | .number x => some ([.number x], held)
  | .suffix s => some ([.suffix s], held)
  | .function f => some ([], .function f :: held)
  | .openParen => some ([], .group :: held)
  | .operator op => some ((release op held).1, .operator op :: (release op held).2)
  | .closeParen => closeGroup? held

theorem arrange?_cons (held : List Held) (token : Token) (rest : List Token) :
    arrange? held (token :: rest) =
      (read? held token).bind fun (released, kept) => (arrange? kept rest).map (released ++ ·) := by
  cases token with
  | closeParen =>
    rw [arrange?, read?]
    cases closeGroup? held with
    | none => rfl
    | some found => rfl
  | _ => simp [arrange?, read?]

theorem arrange?_cons_eq_some {held : List Held} {token : Token} {rest out : List Token} :
    arrange? held (token :: rest) = some out ↔
      ∃ released kept back, read? held token = some (released, kept) ∧
        arrange? kept rest = some back ∧ released ++ back = out := by
  rw [arrange?_cons, Option.bind_eq_some_iff]
  constructor
  · rintro ⟨⟨released, kept⟩, hread, hrest⟩
    obtain ⟨back, hback, hout⟩ := Option.map_eq_some_iff.mp hrest
    exact ⟨released, kept, back, hread, hback, hout⟩
  · rintro ⟨released, kept, back, hread, hback, hout⟩
    exact ⟨(released, kept), hread, Option.map_eq_some_iff.mpr ⟨back, hback, hout⟩⟩

theorem ofTokens_eq_ok_iff {tokens rpn : List Token} :
    ofTokens tokens = .ok rpn ↔ arrange? [] tokens = some rpn := by
  unfold ofTokens
  cases arrange? [] tokens with
  | none => simp
  | some found => simp

end PocketCalc.Rpn
