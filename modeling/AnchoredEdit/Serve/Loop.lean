/-
`Serve/Loop.lean` -- the worker loop as a machine.

The loop owns the ledger of requests in flight. Each application runs as a task of its own, so
that reading goes on meanwhile; a task that finishes puts its completion into a queue, and the
loop takes completions from there one by one. The machine has one step for each thing that can
happen next: a line is read, a task finishes, an aborted task ends without a word, a completion
is received, a sweep looks for deadlines, the input ends. Nothing fixes their order.

A completion is matched with the ledger by its id alone. Cancelling and timing out abort the
task, but a completion that is already in the queue stays there.

`runBatch` is one schedule of the machine: all lines are read before any task finishes.
-/
import AnchoredEdit.Protocol.Request
import AnchoredEdit.Protocol.Response
import AnchoredEdit.Serve.Ledger
import AnchoredEdit.Serve.Lines
import AnchoredEdit.Text.Blank

set_option autoImplicit false

namespace AnchoredEdit

namespace Serve

/-! ## 1. One line -/

/-- What a line asks the loop to do. -/
inductive Verdict where
  /-- Answer at once. -/
  | respond (r : Response)
  /-- Start a task under this id. -/
  | register (id : Int) (p : ApplyParams)
  /-- Abandon the request under this id. -/
  | cancel (id : Int)
deriving DecidableEq, Inhabited, Repr

/-- The response to an application without an id. -/
def needsId : Response :=
  ⟨none, .error ⟨.error, "apply requires an id"⟩⟩

/-- The response to an id that is in use. -/
def idInUse (id : Int) : Response :=
  ⟨some id, .error ⟨.error, inFlightMessage id⟩⟩

/-- What a decoded call with the given id asks for. -/
def judge (inFlight : Int → Bool) (id : Option Int) : Call → Verdict
  | .mods => .respond ⟨id, .registry⟩
  | .cancel target => .cancel target
  | .apply p =>
    match id with
    | none => .respond needsId
    | some n => if inFlight n then .respond (idInUse n) else .register n p

/-- What a line asks for. -/
def dispatch (inFlight : Int → Bool) (line : Text) : Verdict :=
  match Request.parse line with
  | .error e => .respond ⟨none, .ofError e⟩
  | .ok request =>
    match request.call with
    | .error e => .respond ⟨request.id, .ofError e⟩
    | .ok call => judge inFlight request.id call

/-! ## 2. The machine -/

/-- A task that runs an application. -/
structure Task where
  /-- The number that the ledger knows the task by. -/
  ticket : Nat
  id : Int
  params : ApplyParams
  aborted : Bool := false
deriving DecidableEq, Inhabited, Repr

/-- What a task leaves in the queue. -/
structure Completion where
  id : Int
  reply : Reply
deriving DecidableEq, Inhabited, Repr

/-- The state of the loop. -/
structure State where
  ledger : Ledger Nat := {}
  tasks : List Task := []
  queue : List Completion := []
  written : List Response := []
  nextTicket : Nat := 0
  inputOpen : Bool := true
deriving DecidableEq, Inhabited, Repr

/-- The time a request may take, in milliseconds. -/
def timeoutOf (c : Config) : Nat :=
  max 1 c.requestTimeoutMs

/-- The response to a request that took too long. -/
def timedOut (timeout : Nat) (id : Int) : Response :=
  ⟨some id, .error ⟨.error, "request timed out after " ++ toString timeout ++ "ms"⟩⟩

namespace State

/-- Writes a response. -/
def write (s : State) (r : Response) : State :=
  { s with written := s.written ++ [r] }

/-- Aborts the task with the given ticket. -/
def abort (s : State) (ticket : Nat) : State :=
  { s with
    tasks := s.tasks.map fun task =>
      if task.ticket = ticket then { task with aborted := true } else task }

/-- Starts a task and enters it into the ledger. -/
def register (s : State) (id : Int) (deadline : Nat) (p : ApplyParams) : State :=
  match s.ledger.insert id deadline s.nextTicket with
  | .error e => s.write ⟨some id, .ofError e⟩
  | .ok ledger =>
    { s with
      ledger
      tasks := s.tasks ++ [⟨s.nextTicket, id, p, false⟩]
      nextTicket := s.nextTicket + 1 }

/-- Abandons the request under `id`. -/
def cancel (s : State) (id : Int) : State :=
  match s.ledger.cancel id with
  | (none, _) => s
  | (some ticket, ledger) => { s with ledger }.abort ticket

/-- Reads one line at the time `now`. -/
def readLine (c : Config) (now : Nat) (line : Text) (s : State) : State :=
  if line.allBlank then s
  else
    match dispatch s.ledger.contains line with
    | .respond r => s.write r
    | .register id p => s.register id (now + timeoutOf c) p
    | .cancel id => s.cancel id

/-- The task with the given ticket finishes and leaves its completion in the queue. -/
def finish (e : Engine) (ticket : Nat) (s : State) : State :=
  match s.tasks.find? (·.ticket = ticket) with
  | none => s
  | some task =>
    { s with
      tasks := s.tasks.filter (·.ticket ≠ ticket)
      queue := s.queue ++
        [⟨task.id, .ofOutcome task.params.mod (e.run task.params.mod task.params.context)⟩] }

/-- An aborted task ends without a completion. -/
def vanish (ticket : Nat) (s : State) : State :=
  { s with tasks := s.tasks.filter fun task => !(task.ticket = ticket && task.aborted) }

/-- Receives the next completion; one whose request is settled already is dropped. -/
def receive (s : State) : State :=
  match s.queue with
  | [] => s
  | completion :: queue =>
    -- Whichever request is in flight under the id now, this completion settles it.
    match s.ledger.complete completion.id with
    | (none, _) => { s with queue }
    | (some _, ledger) =>
      { s with queue, ledger }.write ⟨some completion.id, completion.reply⟩

/-- Settles every request whose deadline has passed at the time `now`. -/
def sweep (c : Config) (now : Nat) (s : State) : State :=
  let (due, ledger) := s.ledger.expire now
  due.foldl (fun s (id, ticket) => (s.abort ticket).write (timedOut (timeoutOf c) id))
    { s with ledger }

/-- The input ends. -/
def closeInput (s : State) : State :=
  { s with inputOpen := false }

/-- The loop has nothing left to wait for. -/
def done (s : State) : Bool :=
  !s.inputOpen && s.ledger.isEmpty

end State

/-! ## 3. One schedule -/

/-- Reads all lines at the time zero. -/
def readAll (c : Config) (lines : List Text) (s : State) : State :=
  lines.foldl (fun s line => s.readLine c 0 line) s

/-- Lets every task that was not aborted finish, in the order they were started. -/
def finishAll (e : Engine) (s : State) : State :=
  (s.tasks.filter (!·.aborted)).foldl (fun s task => s.finish e task.ticket) s

/-- Receives all completions in the queue. -/
def receiveAll (s : State) : State :=
  s.queue.foldl (fun s _ => s.receive) s

/-- Runs the loop over all lines before any task finishes. With `hold` no task ever finishes,
and the deadlines pass. -/
def runBatch (e : Engine) (hold : Bool) (lines : List Text) : List Response :=
  let s := (readAll e.config lines {}).closeInput
  let s := if hold then s.sweep e.config (timeoutOf e.config) else receiveAll (finishAll e s)
  s.written

end Serve

end AnchoredEdit
