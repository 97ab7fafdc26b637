/-
PocketCalc.Proofs.Preview.Runs — the moves of the preview and of its worker.

The user's side submits, clears and receives; the worker's side takes,
skips, finishes and sends. A run is a list of moves, each possible where it
is made (`run?`), so the runs are all the orders in which the two sides can
move. Receiving is one move. Answers can be sent while it goes on, so each
of its turns is a move as well (`turn?`), and what a turn keeps receiving
keeps (`receive_induction`).

Both queues are first in, first out, and lose nothing. A ticket is a
natural number: no run takes as many as a machine word can count.
-/
import PocketCalc.Preview

namespace PocketCalc

namespace Preview

/-! ## 1. Calls and moves -/

/-- A call of the user that takes a ticket. -/
inductive Call where
  | submit (entry : Text) (unit : AngleUnit)
  | clear
deriving DecidableEq

/-- A move of either side. -/
inductive Move where
  | call (call : Call)
  | turn
  | receive
  | take
  | skip
  | finish
  | send
deriving DecidableEq

def Call.apply : Call → Preview → Preview
  | .submit entry unit => Preview.submit entry unit
  | .clear => Preview.clear

/-- One turn of receiving: the oldest answer that has arrived. -/
def turn? (preview : Preview) : Option Preview :=
  match preview.answers with
  | [] => none
  | answer :: rest => some (accept answer { preview with answers := rest })

/-- The state after a move, where the move is possible. -/
def Move.step? : Move → Preview → Option Preview
  | .call made, preview => some (made.apply preview)
  | .turn, preview => preview.turn?
  | .receive, preview => some preview.receive
  | .take, preview => preview.take?
  | .skip, preview => preview.skip?
  | .finish, preview => preview.finish?
  | .send, preview => preview.send?

/-- The state after a run, where each of its moves is possible. -/
def run? : List Move → Preview → Option Preview
  | [], preview => some preview
  | move :: moves, preview => (move.step? preview).bind (run? moves)

/-- The call a move makes, if it makes one. -/
def Move.calls : Move → List Call
  | .call made => [made]
  | .turn | .receive | .take | .skip | .finish | .send => []

/-- The calls of a run, in order. -/
def callsOf (moves : List Move) : List Call :=
  moves.flatMap Move.calls

/-! ## 2. What a move does -/

variable {p q : Preview}

theorem take?_eq_some_iff : p.take? = some q ↔ ∃ request rest, p.worker = .idle ∧
    p.requests = request :: rest ∧
    q = { p with worker := .holding request, requests := rest } := by
  constructor
  · intro h
    unfold take? at h
    split at h
    · rename_i request rest hworker hrequests
      exact ⟨request, rest, hworker, hrequests, (Option.some.inj h).symm⟩
    · cases h
  · rintro ⟨request, rest, hworker, hrequests, rfl⟩
    simp only [take?, hworker, hrequests]

theorem skip?_eq_some_iff : p.skip? = some q ↔ ∃ held request rest, p.worker = .holding held ∧
    p.requests = request :: rest ∧
    q = { p with worker := .holding request, requests := rest } := by
  constructor
  · intro h
    unfold skip? at h
    split at h
    · rename_i held request rest hworker hrequests
      exact ⟨held, request, rest, hworker, hrequests, (Option.some.inj h).symm⟩
    · cases h
  · rintro ⟨held, request, rest, hworker, hrequests, rfl⟩
    simp only [skip?, hworker, hrequests]

theorem finish?_eq_some_iff : p.finish? = some q ↔ ∃ request, p.worker = .holding request ∧
    p.requests = [] ∧
    q = { p with
      worker := .answering ⟨request.ticket, Expression.evaluate request.unit request.entry⟩ } := by
  constructor
  · intro h
    unfold finish? at h
    split at h
    · rename_i request hworker hrequests
      exact ⟨request, hworker, hrequests, (Option.some.inj h).symm⟩
    · cases h
  · rintro ⟨request, hworker, hrequests, rfl⟩
    simp only [finish?, hworker, hrequests]

theorem send?_eq_some_iff : p.send? = some q ↔ ∃ answer, p.worker = .answering answer ∧
    q = { p with worker := .idle, answers := p.answers ++ [answer] } := by
  constructor
  · intro h
    unfold send? at h
    split at h
    · rename_i answer hworker
      exact ⟨answer, hworker, (Option.some.inj h).symm⟩
    · cases h
  · rintro ⟨answer, hworker, rfl⟩
    simp only [send?, hworker]

theorem turn?_eq_some_iff : p.turn? = some q ↔ ∃ answer rest, p.answers = answer :: rest ∧
    q = accept answer { p with answers := rest } := by
  constructor
  · intro h
    unfold turn? at h
    split at h
    · cases h
    · rename_i answer rest hanswers
      exact ⟨answer, rest, hanswers, (Option.some.inj h).symm⟩
  · rintro ⟨answer, rest, hanswers, rfl⟩
    simp only [turn?, hanswers]

theorem accept_of_latest {answer : Answer} (h : answer.ticket = p.latest) :
    p.accept answer = { p with text := textFor answer.outcome, applied := answer.ticket } :=
  if_pos h

theorem accept_of_stale {answer : Answer} (h : answer.ticket ≠ p.latest) :
    p.accept answer = p :=
  if_neg h

/-! ## 3. Receiving, turn by turn -/

theorem receive_of_answers_nil (h : p.answers = []) : p.receive = p := by
  obtain ⟨latest, applied, text, requests, worker, answers⟩ := p
  cases h
  rfl

theorem receive_of_turn? (h : p.turn? = some q) : p.receive = q.receive := by
  obtain ⟨answer, rest, hanswers, rfl⟩ := turn?_eq_some_iff.mp h
  obtain ⟨latest, applied, text, requests, worker, answers⟩ := p
  cases hanswers
  by_cases hlatest : answer.ticket = latest
  · simp [receive, accept, hlatest]
  · simp [receive, accept, hlatest]

/-- What every turn keeps, receiving keeps. -/
theorem receive_induction {motive : Preview → Prop}
    (hturn : ∀ {p q : Preview}, motive p → p.turn? = some q → motive q) (h : motive p) :
    motive p.receive := by
  generalize hanswers : p.answers = answers
  induction answers generalizing p with
  | nil => rwa [receive_of_answers_nil hanswers]
  | cons answer rest ih =>
    have hq : p.turn? = some (accept answer { p with answers := rest }) :=
      turn?_eq_some_iff.mpr ⟨answer, rest, hanswers, rfl⟩
    rw [receive_of_turn? hq]
    refine ih (hturn h hq) ?_
    unfold accept
    split <;> rfl

/-! ## 4. Runs -/

theorem callsOf_concat (moves : List Move) (move : Move) :
    callsOf (moves ++ [move]) = callsOf moves ++ move.calls := by
  simp [callsOf]

theorem run?_append (moves more : List Move) (p : Preview) :
    run? (moves ++ more) p = (run? moves p).bind (run? more) := by
  induction moves generalizing p with
  | nil => rfl
  | cons move moves ih =>
    simp only [List.cons_append, run?, Option.bind_assoc]
    exact congrArg _ (funext ih)

theorem run?_concat {moves : List Move} {move : Move} {start : Preview}
    (h : run? moves start = some p) (hmove : move.step? p = some q) :
    run? (moves ++ [move]) start = some q := by
  rw [run?_append, h, Option.bind_some, run?, hmove]
  rfl

/-- What every move keeps, a run keeps. The property may speak of the calls made so far. -/
theorem run?_induction {motive : List Call → Preview → Prop}
    (hstep : ∀ {calls : List Call} {p q : Preview} {move : Move},
      motive calls p → move.step? p = some q → motive (calls ++ move.calls) q)
    {calls : List Call} {moves : List Move} (h : motive calls p) (hrun : run? moves p = some q) :
    motive (calls ++ callsOf moves) q := by
  induction moves generalizing calls p with
  | nil =>
    cases hrun
    simpa [callsOf] using h
  | cons move moves ih =>
    obtain ⟨next, hmove, hrest⟩ := Option.bind_eq_some_iff.mp hrun
    have hall := ih (hstep h hmove) hrest
    rwa [List.append_assoc] at hall

end Preview

end PocketCalc
