/-
PocketCalc.Preview — the result shown while an expression is typed.

Every edit submits the line for evaluation and takes the next ticket. One
worker evaluates beside the user: it takes a request off the queue, skips
to the newest one waiting, evaluates it and sends the answer back. Answers
are received in the order they were sent; only the answer to the latest
ticket is applied, any other is stale and dropped.

`submit`, `receive` and `clear` are the user's side; `take?`, `skip?`,
`finish?` and `send?` are the moves of the worker, each possible in some
states only. The two sides may move in any order. `settle` is the order in
which the worker answers everything before the user goes on.
-/
import PocketCalc.Expression
import PocketCalc.Number.Result

namespace PocketCalc

/-! ## 1. State -/

/-- A line to evaluate. -/
structure Request where
  ticket : Nat
  entry : Text
  unit : AngleUnit
deriving DecidableEq

/-- The outcome of a request. -/
structure Answer where
  ticket : Nat
  outcome : Except Fault Float

/-- What the worker is doing. -/
inductive Worker where
  | idle
  /-- It has a request, and looks for a newer one. -/
  | holding (request : Request)
  /-- It has evaluated a request, and has not sent the answer. -/
  | answering (answer : Answer)

/-- The preview, with the requests and answers on their way, oldest first. -/
structure Preview where
  latest : Nat := 0
  applied : Nat := 0
  text : Text := []
  requests : List Request := []
  worker : Worker := .idle
  answers : List Answer := []

namespace Preview

/-- The text that shows an outcome: nothing for a fault. -/
def textFor : Except Fault Float → Text
  | .ok value => Number.display value
  | .error _ => []

/-- Whether the latest ticket is still to be answered. -/
def isPending (preview : Preview) : Bool :=
  preview.applied < preview.latest

/-! ## 2. The user's side -/

/-- Submits a line under the next ticket, which becomes `latest`. -/
def submit (entry : Text) (unit : AngleUnit) (preview : Preview) : Preview :=
  let ticket := preview.latest + 1
  { preview with latest := ticket, requests := preview.requests ++ [⟨ticket, entry, unit⟩] }

/-- Applies an answer, unless it is stale. -/
def accept (answer : Answer) (preview : Preview) : Preview :=
  if answer.ticket = preview.latest then
    { preview with text := textFor answer.outcome, applied := answer.ticket }
  else
    preview

/-- Receives the answers that have arrived. -/
def receive (preview : Preview) : Preview :=
  preview.answers.foldl (fun state answer => state.accept answer) { preview with answers := [] }

/-- Whether receiving would change the preview. -/
def hasNews (preview : Preview) : Bool :=
  preview.answers.any fun answer => answer.ticket = preview.latest

/-- Empties the preview and makes everything on its way stale. -/
def clear (preview : Preview) : Preview :=
  { preview with latest := preview.latest + 1, applied := preview.latest + 1, text := [] }

/-! ## 3. The worker's side -/

/-- An idle worker takes the oldest request. -/
def take? (preview : Preview) : Option Preview :=
  match preview.worker, preview.requests with
  | .idle, request :: rest =>
    some { preview with worker := .holding request, requests := rest }
  | _, _ => none

/-- A worker with a request drops it for the next one. -/
def skip? (preview : Preview) : Option Preview :=
  match preview.worker, preview.requests with
  | .holding _, request :: rest =>
    some { preview with worker := .holding request, requests := rest }
  | _, _ => none

/-- A worker with a request and no other waiting evaluates it. -/
def finish? (preview : Preview) : Option Preview :=
  match preview.worker, preview.requests with
  | .holding request, [] =>
    let outcome := Expression.evaluate request.unit request.entry
    some { preview with worker := .answering ⟨request.ticket, outcome⟩ }
  | _, _ => none

/-- A worker with an answer sends it and is idle again. -/
def send? (preview : Preview) : Option Preview :=
  match preview.worker with
  | .answering answer =>
    some { preview with worker := .idle, answers := preview.answers ++ [answer] }
  | _ => none

/-! ## 4. Settling -/

/-- The worker's next move; none when it is idle and nothing waits. -/
def advance? (preview : Preview) : Option Preview :=
  preview.take? <|> preview.skip? <|> preview.finish? <|> preview.send?

/-- How many moves the worker has left, at most. -/
def workLeft (preview : Preview) : Nat :=
  3 * preview.requests.length +
    match preview.worker with
    | .idle => 0
    | .holding _ => 2
    | .answering _ => 1

theorem workLeft_advance? {preview next : Preview} (h : preview.advance? = some next) :
    next.workLeft < preview.workLeft := by
  obtain ⟨latest, applied, text, requests, worker, answers⟩ := preview
  cases worker <;> cases requests <;> cases h <;> simp only [workLeft, List.length_cons] <;> omega

/-- The state when the worker has nothing left to do. -/
def runWorker (preview : Preview) : Preview :=
  match h : preview.advance? with
  | some next =>
    have := workLeft_advance? h
    runWorker next
  | none => preview
termination_by preview.workLeft
decreasing_by assumption

/-- The state when everything is answered and received. -/
def settle (preview : Preview) : Preview :=
  preview.runWorker.receive

end Preview

end PocketCalc
