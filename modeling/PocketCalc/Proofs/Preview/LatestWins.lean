/-
PocketCalc.Proofs.Preview.LatestWins — the preview agrees with its calls.

Each call takes the next ticket, so the calls of a run are numbered from
one (`callAt?`). A state agrees with its calls when what it shows is due
for the call behind the ticket it last applied, and every request and
answer on its way belongs to the call behind its own ticket. Every move
keeps this (`Agrees.move`), in whatever order the two sides move.

`inlined` is the preview that has no worker: each submission is evaluated
and shown at once. Main statement: `run_latest_wins`, in every reachable
state the text is due for the ticket applied, and where nothing is pending
it is the text without a worker.
-/
import PocketCalc.Proofs.Preview.Runs

namespace PocketCalc

namespace Preview

/-! ## 1. What the calls ask for -/

/-- The call that took a ticket. -/
def callAt? (calls : List Call) : Nat → Option Call
  | 0 => none
  | count + 1 => calls[count]?

/-- The text a call asks for. -/
def Call.text : Call → Text
  | .submit entry unit => textFor (Expression.evaluate unit entry)
  | .clear => []

/-- The text due for the call that took a ticket; nothing before the first one. -/
def textDue (calls : List Call) (ticket : Nat) : Text :=
  match callAt? calls ticket with
  | some call => call.text
  | none => []

/-- A call where there is no worker. -/
def Call.applyInline : Call → Preview → Preview
  | .submit entry unit, preview =>
    { preview with
      latest := preview.latest + 1
      applied := preview.latest + 1
      text := textFor (Expression.evaluate unit entry) }
  | .clear, preview => preview.clear

/-- The preview after the calls, without a worker. -/
def inlined (calls : List Call) : Preview :=
  calls.foldl (fun preview call => call.applyInline preview) {}

theorem callAt?_append_of_le {calls : List Call} {ticket : Nat} (h : ticket ≤ calls.length)
    (more : List Call) : callAt? (calls ++ more) ticket = callAt? calls ticket := by
  cases ticket with
  | zero => rfl
  | succ count => exact List.getElem?_append_left h

theorem callAt?_append {calls : List Call} {ticket : Nat} {call : Call}
    (h : callAt? calls ticket = some call) (more : List Call) :
    callAt? (calls ++ more) ticket = some call := by
  have hle : ticket ≤ calls.length := by
    cases ticket with
    | zero => exact Nat.zero_le _
    | succ count => exact (List.getElem?_eq_some_iff.mp h).1
  rw [callAt?_append_of_le hle, h]

theorem callAt?_length_append (calls : List Call) (call : Call) :
    callAt? (calls ++ [call]) (calls.length + 1) = some call :=
  List.getElem?_concat_length

theorem textDue_append_of_le {calls : List Call} {ticket : Nat} (h : ticket ≤ calls.length)
    (more : List Call) : textDue (calls ++ more) ticket = textDue calls ticket := by
  simp only [textDue, callAt?_append_of_le h]

theorem textDue_length_append (calls : List Call) (call : Call) :
    textDue (calls ++ [call]) (calls.length + 1) = call.text := by
  simp only [textDue, callAt?_length_append]

theorem inlined_append (calls : List Call) (call : Call) :
    inlined (calls ++ [call]) = call.applyInline (inlined calls) := by
  simp [inlined]

/-- Without a worker the text is always the one due for the last call. -/
theorem inlined_text (calls : List Call) : (inlined calls).text = textDue calls calls.length := by
  rcases List.eq_nil_or_concat calls with rfl | ⟨before, call, rfl⟩
  · rfl
  · rw [List.concat_eq_append, inlined_append, List.length_append, List.length_singleton,
      textDue_length_append]
    cases call <;> rfl

/-! ## 2. The invariant -/

/-- The request is that of the call behind its ticket. -/
def Asks (calls : List Call) (request : Request) : Prop :=
  callAt? calls request.ticket = some (.submit request.entry request.unit)

/-- The answer is that to the submission behind its ticket. -/
def Answers (calls : List Call) (answer : Answer) : Prop :=
  ∃ entry unit, callAt? calls answer.ticket = some (.submit entry unit) ∧
    answer.outcome = Expression.evaluate unit entry

/-- What the worker has belongs to the call behind its ticket. -/
def Serves (calls : List Call) : Worker → Prop
  | .idle => True
  | .holding request => Asks calls request
  | .answering answer => Answers calls answer

/-- The state agrees with the calls made so far. -/
structure Agrees (calls : List Call) (preview : Preview) : Prop where
  latest_eq : preview.latest = calls.length
  applied_le : preview.applied ≤ preview.latest
  text_eq : preview.text = textDue calls preview.applied
  requests : ∀ request ∈ preview.requests, Asks calls request
  worker : Serves calls preview.worker
  answers : ∀ answer ∈ preview.answers, Answers calls answer
  cleared : calls.getLast? = some .clear → preview.applied = preview.latest

theorem Agrees.start : Agrees [] {} where
  latest_eq := rfl
  applied_le := Nat.le_refl 0
  text_eq := rfl
  requests := by simp
  worker := trivial
  answers := by simp
  cleared := by simp

variable {calls : List Call} {p q : Preview}

theorem Asks.append {request : Request} (h : Asks calls request) (more : List Call) :
    Asks (calls ++ more) request :=
  callAt?_append h more

theorem Answers.append {answer : Answer} (h : Answers calls answer) (more : List Call) :
    Answers (calls ++ more) answer := by
  obtain ⟨entry, unit, hcall, houtcome⟩ := h
  exact ⟨entry, unit, callAt?_append hcall more, houtcome⟩

theorem Serves.append {worker : Worker} (h : Serves calls worker) (more : List Call) :
    Serves (calls ++ more) worker := by
  cases worker with
  | idle => trivial
  | holding request => exact Asks.append h more
  | answering answer => exact Answers.append h more

theorem Answers.text_eq {answer : Answer} (h : Answers calls answer) :
    textFor answer.outcome = textDue calls answer.ticket := by
  obtain ⟨entry, unit, hcall, houtcome⟩ := h
  simp only [textDue, hcall, houtcome, Call.text]

/-! ## 3. Every move keeps it -/

theorem Agrees.call (h : Agrees calls p) (call : Call) :
    Agrees (calls ++ [call]) (call.apply p) := by
  have happlied : p.applied ≤ calls.length := h.latest_eq ▸ h.applied_le
  have hworker : Serves (calls ++ [call]) p.worker := h.worker.append _
  have hanswers : ∀ answer ∈ p.answers, Answers (calls ++ [call]) answer := by
    intro answer hmem
    exact (h.answers answer hmem).append _
  have hrequests : ∀ request ∈ p.requests, Asks (calls ++ [call]) request := by
    intro request hmem
    exact (h.requests request hmem).append _
  have hlatest : p.latest + 1 = (calls ++ [call]).length := by
    rw [h.latest_eq, List.length_append, List.length_singleton]
  cases call with
  | submit entry unit =>
    have hnew : Asks (calls ++ [.submit entry unit]) ⟨p.latest + 1, entry, unit⟩ := by
      show callAt? _ (p.latest + 1) = _
      rw [h.latest_eq, callAt?_length_append]
    constructor
    case latest_eq => exact hlatest
    case applied_le => exact Nat.le_succ_of_le h.applied_le
    case text_eq => exact h.text_eq.trans (textDue_append_of_le happlied _).symm
    case requests =>
      intro request hmem
      rcases List.mem_append.mp hmem with hold | hlast
      · exact hrequests request hold
      · rw [List.mem_singleton.mp hlast]
        exact hnew
    case worker => exact hworker
    case answers => exact hanswers
    case cleared => simp
  | clear =>
    constructor
    case latest_eq => exact hlatest
    case applied_le => exact Nat.le_refl _
    case text_eq =>
      show [] = textDue _ (p.latest + 1)
      rw [h.latest_eq, textDue_length_append, Call.text]
    case requests => exact hrequests
    case worker => exact hworker
    case answers => exact hanswers
    case cleared => exact fun _ => rfl

theorem Agrees.turn (h : Agrees calls p) (hturn : p.turn? = some q) : Agrees calls q := by
  obtain ⟨answer, rest, hanswers, rfl⟩ := turn?_eq_some_iff.mp hturn
  have hall : ∀ other ∈ answer :: rest, Answers calls other := hanswers ▸ h.answers
  obtain ⟨hanswer, hrest⟩ := List.forall_mem_cons.mp hall
  by_cases hlatest : answer.ticket = p.latest
  · rw [accept_of_latest (p := { p with answers := rest }) hlatest]
    exact { h with
      applied_le := Nat.le_of_eq hlatest
      text_eq := hanswer.text_eq
      answers := hrest
      cleared := fun _ => hlatest }
  · rw [accept_of_stale (p := { p with answers := rest }) hlatest]
    exact { h with answers := hrest }

/-- The worker hands a request on and touches nothing else. -/
theorem Agrees.next_request {request : Request} {rest : List Request} (h : Agrees calls p)
    (hrequests : p.requests = request :: rest) :
    Agrees calls { p with worker := .holding request, requests := rest } := by
  have hall : ∀ other ∈ request :: rest, Asks calls other := hrequests ▸ h.requests
  obtain ⟨hrequest, hrest⟩ := List.forall_mem_cons.mp hall
  exact { h with requests := hrest, worker := hrequest }

theorem Agrees.finish (h : Agrees calls p) (hfinish : p.finish? = some q) : Agrees calls q := by
  obtain ⟨request, hworker, -, rfl⟩ := finish?_eq_some_iff.mp hfinish
  have hrequest : Serves calls p.worker := h.worker
  rw [hworker] at hrequest
  have hanswer : Answers calls
      ⟨request.ticket, Expression.evaluate request.unit request.entry⟩ :=
    ⟨request.entry, request.unit, hrequest, rfl⟩
  exact { h with worker := hanswer }

theorem Agrees.send (h : Agrees calls p) (hsend : p.send? = some q) : Agrees calls q := by
  obtain ⟨answer, hworker, rfl⟩ := send?_eq_some_iff.mp hsend
  have hanswer : Serves calls p.worker := h.worker
  rw [hworker] at hanswer
  have hall : ∀ other ∈ p.answers ++ [answer], Answers calls other := by
    intro other hmem
    rcases List.mem_append.mp hmem with hold | hnew
    · exact h.answers other hold
    · rw [List.mem_singleton.mp hnew]
      exact hanswer
  exact { h with worker := trivial, answers := hall }

/-- Each move of either side keeps the agreement. -/
theorem Agrees.move {move : Move} (h : Agrees calls p) (hmove : move.step? p = some q) :
    Agrees (calls ++ move.calls) q := by
  cases move with
  | call call =>
    cases hmove
    exact h.call call
  | turn =>
    rw [Move.calls, List.append_nil]
    exact h.turn hmove
  | receive =>
    cases hmove
    rw [Move.calls, List.append_nil]
    exact receive_induction Agrees.turn h
  | take =>
    obtain ⟨request, rest, -, hrequests, rfl⟩ := take?_eq_some_iff.mp hmove
    rw [Move.calls, List.append_nil]
    exact h.next_request hrequests
  | skip =>
    obtain ⟨held, request, rest, -, hrequests, rfl⟩ := skip?_eq_some_iff.mp hmove
    rw [Move.calls, List.append_nil]
    exact h.next_request hrequests
  | finish =>
    rw [Move.calls, List.append_nil]
    exact h.finish hmove
  | send =>
    rw [Move.calls, List.append_nil]
    exact h.send hmove

theorem Agrees.run {moves : List Move} (h : Agrees calls p) (hrun : run? moves p = some q) :
    Agrees (calls ++ callsOf moves) q :=
  run?_induction Agrees.move h hrun

/-! ## 4. What a move shows -/

theorem shown_turn {text : Text} {ticket : Nat}
    (h : (p.text = text ∧ p.applied = ticket) ∨ p.applied = p.latest) (hturn : p.turn? = some q) :
    (q.text = text ∧ q.applied = ticket) ∨ q.applied = q.latest := by
  obtain ⟨answer, rest, -, rfl⟩ := turn?_eq_some_iff.mp hturn
  by_cases hlatest : answer.ticket = p.latest
  · rw [accept_of_latest (p := { p with answers := rest }) hlatest]
    exact Or.inr hlatest
  · rw [accept_of_stale (p := { p with answers := rest }) hlatest]
    exact h

/-- A move shows what was shown before, or something for the latest ticket. -/
theorem shown_move {move : Move} (hmove : move.step? p = some q) :
    (q.text = p.text ∧ q.applied = p.applied) ∨ q.applied = q.latest := by
  cases move with
  | call call =>
    cases hmove
    cases call with
    | submit entry unit => exact Or.inl ⟨rfl, rfl⟩
    | clear => exact Or.inr rfl
  | turn => exact shown_turn (Or.inl ⟨rfl, rfl⟩) hmove
  | receive =>
    cases hmove
    exact receive_induction shown_turn (Or.inl ⟨rfl, rfl⟩)
  | take =>
    obtain ⟨request, rest, -, -, rfl⟩ := take?_eq_some_iff.mp hmove
    exact Or.inl ⟨rfl, rfl⟩
  | skip =>
    obtain ⟨held, request, rest, -, -, rfl⟩ := skip?_eq_some_iff.mp hmove
    exact Or.inl ⟨rfl, rfl⟩
  | finish =>
    obtain ⟨request, -, -, rfl⟩ := finish?_eq_some_iff.mp hmove
    exact Or.inl ⟨rfl, rfl⟩
  | send =>
    obtain ⟨answer, -, rfl⟩ := send?_eq_some_iff.mp hmove
    exact Or.inl ⟨rfl, rfl⟩

theorem Agrees.applied_le_move {move : Move} (h : Agrees calls p)
    (hmove : move.step? p = some q) : p.applied ≤ q.applied := by
  rcases shown_move hmove with ⟨-, hsame⟩ | hlatest
  · exact Nat.le_of_eq hsame.symm
  · have hbefore := h.latest_eq
    have hafter := (h.move hmove).latest_eq
    have hle := h.applied_le
    rw [List.length_append] at hafter
    omega

theorem Agrees.applied_le_run {moves : List Move} (h : Agrees calls p)
    (hrun : run? moves p = some q) : p.applied ≤ q.applied := by
  induction moves generalizing calls p with
  | nil =>
    cases hrun
    exact Nat.le_refl _
  | cons move moves ih =>
    obtain ⟨next, hmove, hrest⟩ := Option.bind_eq_some_iff.mp hrun
    have hfirst : p.applied ≤ next.applied := h.applied_le_move hmove
    have hlater : next.applied ≤ q.applied := ih (h.move hmove) hrest
    exact Nat.le_trans hfirst hlater

/-- Where nothing is pending, the text is the one without a worker. -/
theorem Agrees.text_eq_inlined (h : Agrees calls p) (happlied : p.applied = p.latest) :
    p.text = (inlined calls).text := by
  rw [h.text_eq, happlied, h.latest_eq, inlined_text]

end Preview

open Preview in
/-- In every reachable state, the text shown is due for the call whose ticket was applied
last. That ticket never falls behind, and where it is the latest the text is what the same
calls show without a worker. A move that shows something shows it for the latest call, so
nothing is shown after a clear, whatever is still on its way. -/
theorem Preview.run_latest_wins {moves : List Move} {p : Preview} (h : run? moves {} = some p) :
    p.latest = (callsOf moves).length ∧ p.applied ≤ p.latest ∧
    p.text = textDue (callsOf moves) p.applied ∧
    (∀ more q, run? more p = some q → p.applied ≤ q.applied) ∧
    (p.isPending = false → p.text = (inlined (callsOf moves)).text) ∧
    (∀ move q, move.step? p = some q →
      (q.text = p.text ∧ q.applied = p.applied) ∨
      (q.isPending = false ∧ q.text = (inlined (callsOf (moves ++ [move]))).text)) ∧
    ((callsOf moves).getLast? = some .clear → p.text = [] ∧ p.isPending = false) := by
  have hagrees : Agrees (callsOf moves) p := Agrees.start.run h
  refine ⟨hagrees.latest_eq, hagrees.applied_le, hagrees.text_eq, ?_, ?_, ?_, ?_⟩
  · intro more q hrun
    exact hagrees.applied_le_run hrun
  · intro hpending
    have happlied : p.applied = p.latest :=
      Nat.le_antisymm hagrees.applied_le (by simpa [isPending] using hpending)
    exact hagrees.text_eq_inlined happlied
  · intro move q hmove
    have hafter : Agrees (callsOf (moves ++ [move])) q := by
      rw [callsOf_concat]
      exact hagrees.move hmove
    rcases shown_move hmove with hsame | hlatest
    · exact Or.inl hsame
    · exact Or.inr ⟨by simp [isPending, hlatest], hafter.text_eq_inlined hlatest⟩
  · intro hclear
    have happlied := hagrees.cleared hclear
    refine ⟨?_, by simp [isPending, happlied]⟩
    rw [hagrees.text_eq_inlined happlied]
    obtain ⟨before, hcalls⟩ := List.getLast?_eq_some_iff.mp hclear
    rw [hcalls, inlined_append]
    rfl

/-- A run in which a line is cleared when it has been evaluated, but not yet answered. -/
def Preview.overtakenRun : List Move :=
  [.call (.submit ['1', '+', '1'] .degrees), .take, .finish, .call .clear, .send]

/-- The state it leads to: the answer has arrived, and is stale. -/
def Preview.overtaken : Preview where
  latest := 2
  applied := 2
  answers := [⟨1, Expression.evaluate .degrees ['1', '+', '1']⟩]

open Preview in
theorem Preview.run_latest_wins_overtaken :
    run? overtakenRun {} = some overtaken ∧ overtaken.isPending = false ∧
      overtaken.text = (inlined [.submit ['1', '+', '1'] .degrees, .clear]).text ∧
      (∀ more q, run? more overtaken = some q → 2 ≤ q.applied) ∧ overtaken.text = [] := by
  have hrun : run? overtakenRun {} = some overtaken := rfl
  have hpending : overtaken.isPending = false := rfl
  obtain ⟨-, -, -, hmono, hinlined, -, hcleared⟩ := run_latest_wins hrun
  exact ⟨hrun, hpending, hinlined hpending, hmono, (hcleared rfl).1⟩

end PocketCalc
