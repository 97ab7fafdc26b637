/-
PocketCalc.Proofs.Preview.Delivery — the latest request is never lost.

The tickets on their way stand in one line: those of the answers that have
arrived, then the one the worker has, then those of the requests
(`onTheWay`). The worker drops requests and the user drops answers, but
only ones that are not the latest, so the latest ticket stays in the line
as long as it is pending. `InOrder` says so, together with the order of
the line and of all the tickets ever answered (`answeredBy`), and every
move of either side keeps it (`InOrder.move`).

Main statement: `run_keeps_latest`, in every reachable state the line is
in increasing order and holds the latest ticket exactly once while it is
pending, and never otherwise.
-/
import PocketCalc.Proofs.Preview.Runs

namespace PocketCalc

/-- The ticket the worker has, if it has one. -/
def Worker.tickets : Worker → List Nat
  | .idle => []
  | .holding request => [request.ticket]
  | .answering answer => [answer.ticket]

namespace Preview

/-! ## 1. The tickets on their way -/

/-- The tickets whose answers have not been sent, oldest first. -/
def unanswered (preview : Preview) : List Nat :=
  preview.worker.tickets ++ preview.requests.map Request.ticket

/-- The tickets on their way, oldest first. -/
def onTheWay (preview : Preview) : List Nat :=
  preview.answers.map Answer.ticket ++ preview.unanswered

/-- The tickets whose answers a move sends. -/
def Move.answered (move : Move) (preview : Preview) : List Nat :=
  match move with
  | .send => preview.worker.tickets
  | .call _ | .turn | .receive | .take | .skip | .finish => []

/-- The tickets answered in a run, in order. -/
def answeredBy : List Move → Preview → List Nat
  | [], _ => []
  | move :: moves, preview =>
    match move.step? preview with
    | some next => move.answered preview ++ answeredBy moves next
    | none => []

/-! ## 2. The invariant -/

/-- The line of tickets is in order, and the latest one is in it while it is pending.
`sent` are the tickets answered so far. -/
structure InOrder (sent : List Nat) (preview : Preview) : Prop where
  increasing : (sent ++ preview.unanswered).Pairwise (· < ·)
  le_latest : ∀ ticket ∈ sent ++ preview.unanswered, ticket ≤ preview.latest
  arrived : preview.answers.map Answer.ticket <:+ sent
  applied_le : preview.applied ≤ preview.latest
  pending_iff : preview.latest ∈ preview.onTheWay ↔ preview.applied < preview.latest

theorem InOrder.start : InOrder [] {} where
  increasing := List.Pairwise.nil
  le_latest := by simp [unanswered, Worker.tickets]
  arrived := List.nil_suffix
  applied_le := Nat.le_refl 0
  pending_iff := by simp [onTheWay, unanswered, Worker.tickets]

variable {sent : List Nat} {p q : Preview}

/-- The line is a part of what was ever sent and what will be. -/
theorem InOrder.onTheWay_sublist (h : InOrder sent p) :
    p.onTheWay.Sublist (sent ++ p.unanswered) :=
  h.arrived.sublist.append_right _

theorem InOrder.onTheWay_increasing (h : InOrder sent p) : p.onTheWay.Pairwise (· < ·) :=
  h.increasing.sublist h.onTheWay_sublist

theorem InOrder.latest_not_mem (h : InOrder sent p) {ticket : Nat} (hticket : p.latest < ticket) :
    ticket ∉ p.onTheWay := by
  intro hmem
  have := h.le_latest ticket (h.onTheWay_sublist.subset hmem)
  omega

/-! ## 3. Every move keeps it -/

theorem InOrder.submit (h : InOrder sent p) (entry : Text) (unit : AngleUnit) :
    InOrder sent (p.submit entry unit) := by
  have hunanswered : (p.submit entry unit).unanswered = p.unanswered ++ [p.latest + 1] := by
    simp [unanswered, Preview.submit]
  have hway : (p.submit entry unit).onTheWay = p.onTheWay ++ [p.latest + 1] := by
    rw [onTheWay, hunanswered, ← List.append_assoc]
    rfl
  constructor
  case increasing =>
    rw [hunanswered, ← List.append_assoc, List.pairwise_append]
    refine ⟨h.increasing, List.pairwise_singleton _ _, ?_⟩
    intro ticket hticket new hnew
    rw [List.mem_singleton.mp hnew]
    exact Nat.lt_succ_of_le (h.le_latest ticket hticket)
  case le_latest =>
    intro ticket hticket
    rw [hunanswered, ← List.append_assoc] at hticket
    rcases List.mem_append.mp hticket with hold | hnew
    · exact Nat.le_succ_of_le (h.le_latest ticket hold)
    · exact Nat.le_of_eq (List.mem_singleton.mp hnew)
  case arrived => exact h.arrived
  case applied_le => exact Nat.le_succ_of_le h.applied_le
  case pending_iff =>
    have hmem : p.latest + 1 ∈ (p.submit entry unit).onTheWay := by
      rw [hway]
      exact List.mem_append_right _ (List.mem_singleton.mpr rfl)
    exact iff_of_true hmem (Nat.lt_succ_of_le h.applied_le)

theorem InOrder.clear (h : InOrder sent p) : InOrder sent p.clear where
  increasing := h.increasing
  le_latest := by
    intro ticket hticket
    exact Nat.le_succ_of_le (h.le_latest ticket hticket)
  arrived := h.arrived
  applied_le := Nat.le_refl _
  pending_iff := iff_of_false (h.latest_not_mem (Nat.lt_succ_self _)) (Nat.lt_irrefl _)

theorem InOrder.turn (h : InOrder sent p) (hturn : p.turn? = some q) : InOrder sent q := by
  obtain ⟨answer, rest, hanswers, rfl⟩ := turn?_eq_some_iff.mp hturn
  have hway : p.onTheWay = answer.ticket :: (rest.map Answer.ticket ++ p.unanswered) := by
    rw [onTheWay, hanswers]
    rfl
  have hincreasing := h.onTheWay_increasing
  rw [hway, List.pairwise_cons] at hincreasing
  have harrived : rest.map Answer.ticket <:+ sent := by
    refine List.IsSuffix.trans ?_ h.arrived
    rw [hanswers]
    exact List.suffix_cons _ _
  by_cases hlatest : answer.ticket = p.latest
  · rw [accept_of_latest (p := { p with answers := rest }) hlatest]
    constructor
    case increasing => exact h.increasing
    case le_latest => exact h.le_latest
    case arrived => exact harrived
    case applied_le => exact Nat.le_of_eq hlatest
    case pending_iff =>
      -- what stands behind the latest ticket would be later still
      refine iff_of_false ?_ (Nat.not_lt_of_le (Nat.le_of_eq hlatest.symm))
      intro hmem
      have := hincreasing.1 p.latest hmem
      omega
  · rw [accept_of_stale (p := { p with answers := rest }) hlatest]
    constructor
    case increasing => exact h.increasing
    case le_latest => exact h.le_latest
    case arrived => exact harrived
    case applied_le => exact h.applied_le
    case pending_iff =>
      have hpending := h.pending_iff
      rw [hway, List.mem_cons, or_iff_right (Ne.symm hlatest)] at hpending
      exact hpending

/-- A move that hands on the ticket the worker has, or takes the next one, leaves the line
as it is. -/
theorem InOrder.of_unanswered_eq {worker : Worker} {requests : List Request} (h : InOrder sent p)
    (hsame : worker.tickets ++ requests.map Request.ticket = p.unanswered) :
    InOrder sent { p with worker := worker, requests := requests } := by
  obtain ⟨hincreasing, hle, harrived, happlied, hpending⟩ := h
  rw [onTheWay, ← hsame] at hpending
  rw [← hsame] at hincreasing hle
  exact ⟨hincreasing, hle, harrived, happlied, hpending⟩

theorem InOrder.take (h : InOrder sent p) (htake : p.take? = some q) : InOrder sent q := by
  obtain ⟨request, rest, hworker, hrequests, rfl⟩ := take?_eq_some_iff.mp htake
  apply h.of_unanswered_eq
  simp [unanswered, hworker, hrequests, Worker.tickets]

/-- The request that is dropped has an older ticket than the one behind it, so it is not
the latest. -/
theorem InOrder.lt_latest_of_skip (h : InOrder sent p) {held request : Request}
    {rest : List Request} (hworker : p.worker = .holding held)
    (hrequests : p.requests = request :: rest) : held.ticket < p.latest := by
  have hunanswered : p.unanswered = held.ticket :: request.ticket :: rest.map Request.ticket := by
    simp [unanswered, hworker, hrequests, Worker.tickets]
  have hincreasing := (List.pairwise_append.mp h.increasing).2.1
  rw [hunanswered, List.pairwise_cons] at hincreasing
  have hnext : held.ticket < request.ticket := hincreasing.1 _ List.mem_cons_self
  have hle : request.ticket ≤ p.latest := by
    apply h.le_latest
    rw [hunanswered]
    simp
  omega

theorem InOrder.skip (h : InOrder sent p) (hskip : p.skip? = some q) : InOrder sent q := by
  obtain ⟨held, request, rest, hworker, hrequests, rfl⟩ := skip?_eq_some_iff.mp hskip
  have hlt : held.ticket < p.latest := h.lt_latest_of_skip hworker hrequests
  have hunanswered : p.unanswered = held.ticket :: request.ticket :: rest.map Request.ticket := by
    simp [unanswered, hworker, hrequests, Worker.tickets]
  have hsublist : (sent ++ request.ticket :: rest.map Request.ticket).Sublist
      (sent ++ p.unanswered) := by
    rw [hunanswered]
    exact (List.sublist_cons_self _ _).append_left _
  constructor
  case increasing => exact h.increasing.sublist hsublist
  case le_latest =>
    intro ticket hticket
    exact h.le_latest ticket (hsublist.subset hticket)
  case arrived => exact h.arrived
  case applied_le => exact h.applied_le
  case pending_iff =>
    have hpending := h.pending_iff
    rw [onTheWay, hunanswered] at hpending
    rw [← hpending]
    simp [onTheWay, unanswered, Worker.tickets, Nat.ne_of_gt hlt]

theorem InOrder.finish (h : InOrder sent p) (hfinish : p.finish? = some q) : InOrder sent q := by
  obtain ⟨request, hworker, -, rfl⟩ := finish?_eq_some_iff.mp hfinish
  have hsame : [request.ticket] ++ p.requests.map Request.ticket = p.unanswered := by
    simp [unanswered, hworker, Worker.tickets]
  exact h.of_unanswered_eq hsame

theorem InOrder.send (h : InOrder sent p) (hsend : p.send? = some q) :
    InOrder (sent ++ p.worker.tickets) q := by
  obtain ⟨answer, hworker, rfl⟩ := send?_eq_some_iff.mp hsend
  obtain ⟨hincreasing, hle, harrived, happlied, hpending⟩ := h
  rw [unanswered, ← List.append_assoc] at hincreasing hle
  refine ⟨hincreasing, hle, ?_, happlied, ?_⟩
  · rw [List.map_append, hworker]
    obtain ⟨before, hbefore⟩ := harrived
    exact ⟨before, by rw [← List.append_assoc, hbefore]; rfl⟩
  · rw [onTheWay, unanswered, hworker, ← List.append_assoc] at hpending
    rw [← hpending]
    simp [onTheWay, unanswered, Worker.tickets]

/-- Each move of either side keeps the order. -/
theorem InOrder.move {move : Move} (h : InOrder sent p) (hmove : move.step? p = some q) :
    InOrder (sent ++ move.answered p) q := by
  cases move with
  | send => exact h.send hmove
  | call call =>
    cases hmove
    rw [Move.answered, List.append_nil]
    cases call with
    | submit entry unit => exact h.submit entry unit
    | clear => exact h.clear
  | turn =>
    rw [Move.answered, List.append_nil]
    exact h.turn hmove
  | receive =>
    cases hmove
    rw [Move.answered, List.append_nil]
    exact receive_induction InOrder.turn h
  | take =>
    rw [Move.answered, List.append_nil]
    exact h.take hmove
  | skip =>
    rw [Move.answered, List.append_nil]
    exact h.skip hmove
  | finish =>
    rw [Move.answered, List.append_nil]
    exact h.finish hmove

theorem InOrder.run {moves : List Move} (h : InOrder sent p) (hrun : run? moves p = some q) :
    InOrder (sent ++ answeredBy moves p) q := by
  induction moves generalizing sent p with
  | nil =>
    cases hrun
    simpa [answeredBy] using h
  | cons move moves ih =>
    obtain ⟨next, hmove, hrest⟩ := Option.bind_eq_some_iff.mp hrun
    have hnext := ih (h.move hmove) hrest
    simpa only [answeredBy, hmove, List.append_assoc] using hnext

/-- The latest ticket is in the line once while it is pending, and not at all otherwise. -/
theorem InOrder.count_latest (h : InOrder sent p) :
    p.onTheWay.count p.latest = if p.isPending then 1 else 0 := by
  have hnodup : p.onTheWay.Nodup := h.onTheWay_increasing.imp Nat.ne_of_lt
  have hpending := h.pending_iff
  rw [hnodup.count]
  simp [isPending, hpending]

theorem InOrder.not_pending (h : InOrder sent p) (hanswers : p.answers = [])
    (hworker : p.worker = .idle) (hrequests : p.requests = []) : p.isPending = false := by
  have hcount := h.count_latest
  simp only [onTheWay, unanswered, hanswers, hworker, hrequests, Worker.tickets, List.map_nil,
    List.append_nil, List.count_nil] at hcount
  cases hpending : p.isPending with
  | false => rfl
  | true =>
    rw [hpending] at hcount
    cases hcount

/-! ## 4. Settling -/

/-- The worker's next move is one of its moves. -/
theorem advance?_eq_some (h : p.advance? = some q) :
    ∃ move : Move, move.calls = [] ∧ move.step? p = some q := by
  simp only [advance?, Option.orElse_eq_orElse, Option.orElse_eq_or, Option.or_eq_some_iff] at h
  rcases h with htake | ⟨-, hskip | ⟨-, hfinish | ⟨-, hsend⟩⟩⟩
  · exact ⟨.take, rfl, htake⟩
  · exact ⟨.skip, rfl, hskip⟩
  · exact ⟨.finish, rfl, hfinish⟩
  · exact ⟨.send, rfl, hsend⟩

/-- The worker stops only when it is idle and nothing waits. -/
theorem advance?_eq_none (h : p.advance? = none) : p.worker = .idle ∧ p.requests = [] := by
  obtain ⟨latest, applied, text, requests, worker, answers⟩ := p
  cases worker with
  | idle =>
    cases requests with
    | nil => exact ⟨rfl, rfl⟩
    | cons request rest => cases h
  | holding request => cases requests <;> cases h
  | answering answer => cases requests <;> cases h

/-- The worker, left alone, makes a run of its own moves and stops. -/
theorem runWorker_spec (p : Preview) :
    (∃ moves, callsOf moves = [] ∧ run? moves p = some p.runWorker) ∧
      p.runWorker.advance? = none := by
  fun_induction runWorker p with
  | case1 p next hnext _ ih =>
    obtain ⟨⟨moves, hcalls, hrun⟩, hstop⟩ := ih
    obtain ⟨move, hmove, hstep⟩ := advance?_eq_some hnext
    refine ⟨⟨move :: moves, ?_, ?_⟩, hstop⟩
    · simpa [callsOf, hmove] using hcalls
    · simpa [run?, hstep] using hrun
  | case2 p hnext => exact ⟨⟨[], rfl, rfl⟩, hnext⟩

/-- Receiving takes all the answers, and is no business of the worker. -/
theorem receive_queues (p : Preview) :
    p.receive.answers = [] ∧ p.receive.worker = p.worker ∧ p.receive.requests = p.requests := by
  unfold receive
  refine List.foldlRecOn (motive := fun q : Preview =>
    q.answers = [] ∧ q.worker = p.worker ∧ q.requests = p.requests) _ _ ⟨rfl, rfl, rfl⟩ ?_
  intro q hq answer _
  unfold accept
  split <;> exact hq

/-- Settling is a run without calls. -/
theorem run?_settle (p : Preview) : ∃ moves, callsOf moves = [] ∧ run? moves p = some p.settle := by
  obtain ⟨⟨moves, hcalls, hrun⟩, -⟩ := runWorker_spec p
  refine ⟨moves ++ [.receive], ?_, ?_⟩
  · rw [callsOf_concat, hcalls]
    rfl
  · rw [run?_append, hrun]
    rfl

/-- When everything is answered and received, nothing is on its way. -/
theorem settle_idle (p : Preview) :
    p.settle.answers = [] ∧ p.settle.worker = .idle ∧ p.settle.requests = [] := by
  obtain ⟨hworker, hrequests⟩ := advance?_eq_none (runWorker_spec p).2
  obtain ⟨hanswers, hsame, hsame'⟩ := receive_queues p.runWorker
  exact ⟨hanswers, hsame.trans hworker, hsame'.trans hrequests⟩

/-- Settling answers whatever is pending. -/
theorem InOrder.settle (h : InOrder sent p) : p.settle.isPending = false := by
  obtain ⟨moves, -, hsettle⟩ := run?_settle p
  obtain ⟨hanswers, hworker, hrequests⟩ := settle_idle p
  exact (h.run hsettle).not_pending hanswers hworker hrequests

end Preview

open Preview in
/-- In every reachable state the tickets on their way are in increasing order, and so are
all the tickets answered so far and those still to be answered: none is answered twice. The
latest ticket is on its way exactly once while it is pending, and never otherwise, so nothing
is pending when nothing is on its way. A request that the worker drops is not the latest, and
the worker left alone answers what is pending. -/
theorem Preview.run_keeps_latest {moves : List Move} {p : Preview}
    (h : run? moves {} = some p) :
    p.onTheWay.Pairwise (· < ·) ∧
    (answeredBy moves {} ++ p.unanswered).Pairwise (· < ·) ∧
    p.onTheWay.count p.latest = (if p.isPending then 1 else 0) ∧
    (p.answers = [] → p.worker = .idle → p.requests = [] → p.isPending = false) ∧
    (∀ held q, p.worker = .holding held → p.skip? = some q →
      held.ticket < p.latest ∧ q.onTheWay.count q.latest = p.onTheWay.count p.latest) ∧
    p.settle.isPending = false := by
  have horder : InOrder (answeredBy moves {}) p := InOrder.start.run h
  refine ⟨horder.onTheWay_increasing, horder.increasing, horder.count_latest,
    horder.not_pending, ?_, horder.settle⟩
  intro held q hworker hskip
  have hafter := (horder.skip hskip).count_latest
  obtain ⟨_, request, rest, -, hrequests, rfl⟩ := skip?_eq_some_iff.mp hskip
  exact ⟨horder.lt_latest_of_skip hworker hrequests, hafter.trans horder.count_latest.symm⟩

/-- A run in which three lines are typed while the worker has the first: it drops that one. -/
def Preview.burst : List Move :=
  [.call (.submit ['1'] .degrees), .take, .call (.submit ['1', '+'] .degrees),
    .call (.submit ['1', '+', '1'] .degrees), .skip]

/-- The state it leads to: the worker has the second line, and the third waits. -/
def Preview.afterBurst : Preview where
  latest := 3
  requests := [⟨3, ['1', '+', '1'], .degrees⟩]
  worker := .holding ⟨2, ['1', '+'], .degrees⟩

open Preview in
theorem Preview.run_keeps_latest_burst :
    run? burst {} = some afterBurst ∧ afterBurst.isPending = true ∧
      afterBurst.onTheWay = [2, 3] ∧ afterBurst.onTheWay.count 3 = 1 ∧
      (∀ q, afterBurst.skip? = some q → 2 < 3 ∧ q.onTheWay.count q.latest = 1) ∧
      afterBurst.settle.isPending = false := by
  have hrun : run? burst {} = some afterBurst := rfl
  obtain ⟨-, -, hcount, -, hskip, hsettle⟩ := run_keeps_latest hrun
  refine ⟨hrun, rfl, rfl, hcount, ?_, hsettle⟩
  intro q hq
  obtain ⟨hlt, hsame⟩ := hskip _ q rfl hq
  exact ⟨hlt, hsame.trans hcount⟩

end PocketCalc
