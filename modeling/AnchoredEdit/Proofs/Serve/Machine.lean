/-
`Proofs/Serve/Machine.lean` -- the worker loop as a step relation.

The loop shares its state with tasks that end when they please, with a clock and with whoever
writes the input. `Step` lets any of them go next: a line is read, a task finishes, an aborted
task ends without a word, a completion is received, a sweep looks for deadlines at any time, the
input ends. `Run` is any number of such steps from the start, so a fact about runs holds whatever
the schedule.

What a step did that matters to a client is recorded as events. A run collects them, which is
how "registered", "settled" and "cancelled" become things to count and a request in flight can
be told from an earlier one under the same id.

`Step` says how steps are made. `Change` says what can come of one, with all functions of the
loop opened; it is proved once that a step is a change, and every invariant goes by `Change`.
-/
import AnchoredEdit.Proofs.Serve.Ledger
import AnchoredEdit.Proofs.Syntax.WellFormed
import AnchoredEdit.Serve.Loop

set_option autoImplicit false

namespace AnchoredEdit

/-- The reply to an application is the outcome of running it. -/
def Engine.replyTo (e : Engine) (p : ApplyParams) : Reply :=
  .ofOutcome p.mod (e.run p.mod p.context)

namespace Serve

/-! ## 1. Events -/

/-- What a step did. -/
inductive Event where
  /-- A line was answered at once. -/
  | answered (r : Response)
  /-- An application was entered into the ledger. -/
  | registered (id : Int) (ticket : Nat) (p : ApplyParams)
  /-- A line took the request under this id out of the ledger. -/
  | cancelled (id : Int)
  /-- A line asked for that, and there was no such request. -/
  | ignored (id : Int)
  /-- A completion settled the request under its id. -/
  | completed (id : Int) (reply : Reply)
  /-- A completion came for a request that was settled already. -/
  | dropped (id : Int)
  /-- A deadline settled the request under this id. -/
  | expired (id : Int)
deriving DecidableEq

namespace Event

/-- The response that an event writes. -/
@[simp] def response? (timeout : Nat) : Event → Option Response
  | answered r => some r
  | completed id reply => some ⟨some id, reply⟩
  | expired id => some (timedOut timeout id)
  | _ => none

/-- An application was registered under `id`. -/
@[simp] def isRegistration (id : Int) : Event → Bool
  | registered k _ _ => k = id
  | _ => false

/-- A response was written for the application under `id`, by completion or by timeout. -/
@[simp] def isSettlement (id : Int) : Event → Bool
  | completed k _ => k = id
  | expired k => k = id
  | _ => false

/-- The application under `id` was cancelled. -/
@[simp] def isCancellation (id : Int) : Event → Bool
  | cancelled k => k = id
  | _ => false

end Event

/-! ## 2. Steps and runs -/

namespace State

/-- What reading a line does. -/
def lineEvents (s : State) (line : Text) : List Event :=
  if line.allBlank then []
  else
    match dispatch s.ledger.contains line with
    | .respond r => [.answered r]
    | .register id p => [.registered id s.nextTicket p]
    | .cancel id => if s.ledger.contains id then [.cancelled id] else [.ignored id]

/-- What receiving the next completion does. -/
def receiptEvents (s : State) : List Event :=
  match s.queue with
  | [] => []
  | completion :: _ =>
    if s.ledger.contains completion.id then [.completed completion.id completion.reply]
    else [.dropped completion.id]

/-- What a sweep does. -/
def sweepEvents (now : Nat) (s : State) : List Event :=
  (s.ledger.expire now).1.map fun due => .expired due.1

end State

/-- The loop, and the lines it has yet to read. -/
structure Machine where
  state : State
  input : List Text
deriving DecidableEq

/-- What can happen next, and what it does. The loop goes on until it has nothing to wait for;
tasks go on whether it does or not. -/
inductive Step (e : Engine) : Machine → List Event → Machine → Prop
  | read {s : State} {line : Text} {rest : List Text} (now : Nat) (hopen : s.inputOpen = true) :
      Step e ⟨s, line :: rest⟩ (s.lineEvents line) ⟨s.readLine e.config now line, rest⟩
  | finish {s : State} {input : List Text} {task : Task} (hmem : task ∈ s.tasks) :
      Step e ⟨s, input⟩ [] ⟨s.finish e task.ticket, input⟩
  | vanish {s : State} {input : List Text} {task : Task} (hmem : task ∈ s.tasks)
      (haborted : task.aborted = true) : Step e ⟨s, input⟩ [] ⟨s.vanish task.ticket, input⟩
  | receive {s : State} {input : List Text} (hrunning : s.done = false) (hqueue : s.queue ≠ []) :
      Step e ⟨s, input⟩ s.receiptEvents ⟨s.receive, input⟩
  | sweep {s : State} {input : List Text} (now : Nat) (hrunning : s.done = false) :
      Step e ⟨s, input⟩ (s.sweepEvents now) ⟨s.sweep e.config now, input⟩
  | close {s : State} (hopen : s.inputOpen = true) : Step e ⟨s, []⟩ [] ⟨s.closeInput, []⟩

/-- The machine can get to `m` on this input, with these events on the way. -/
inductive Run (e : Engine) (input : List Text) : List Event → Machine → Prop
  | start : Run e input [] ⟨{}, input⟩
  | step {before events : List Event} {m m' : Machine} (hrun : Run e input before m)
      (hstep : Step e m events m') : Run e input (before ++ events) m'

/-- Events and machine may be given in another form. -/
theorem Run.of_eq {e : Engine} {input : List Text} {events events' : List Event} {m m' : Machine}
    (h : Run e input events m) (heq : events = events' ∧ m = m') : Run e input events' m' := by
  obtain ⟨rfl, rfl⟩ := heq
  exact h

/-! ## 3. What a line does -/

/-- The line is a request with this id that makes this call. -/
def Asks (line : Text) (id : Option Int) (call : Call) : Prop :=
  ∃ request, Request.parse line = .ok request ∧ request.id = id ∧ request.call = .ok call

theorem Asks.call_unique {line : Text} {id id' : Option Int} {call call' : Call}
    (h : Asks line id call) (h' : Asks line id' call') : call = call' := by
  obtain ⟨request, hparse, -, hcall⟩ := h
  obtain ⟨request', hparse', -, hcall'⟩ := h'
  rw [hparse] at hparse'
  cases hparse'
  rw [hcall] at hcall'
  exact Except.ok.inj hcall'

variable {inFlight : Int → Bool} {line : Text} {id : Int} {p : ApplyParams} {s s' : State}

/-- Only an application under an id that is not in use is registered. -/
theorem asks_of_dispatch_eq_register (h : dispatch inFlight line = .register id p) :
    Asks line (some id) (.apply p) ∧ inFlight id = false := by
  unfold dispatch at h
  split at h
  · cases h
  · next request hparse =>
    split at h
    · cases h
    · next call hcall =>
      unfold judge at h
      split at h
      · cases h
      · cases h
      · next params =>
        split at h
        · cases h
        · next n hid =>
          split at h
          · cases h
          · next hfree =>
            cases h
            exact ⟨⟨request, hparse, hid, hcall⟩, by simpa using hfree⟩

/-- Only a request to cancel cancels. -/
theorem asks_of_dispatch_eq_cancel (h : dispatch inFlight line = .cancel id) :
    ∃ own, Asks line own (.cancel id) := by
  unfold dispatch at h
  split at h
  · cases h
  · next request hparse =>
    split at h
    · cases h
    · next call hcall =>
      unfold judge at h
      split at h
      · cases h
      · next target =>
        cases h
        exact ⟨request.id, request, hparse, rfl, hcall⟩
      · split at h
        · cases h
        · split at h <;> cases h

/-- A request to cancel is never answered. -/
theorem dispatch_of_asks_cancel {own : Option Int} (h : Asks line own (.cancel id)) :
    dispatch inFlight line = .cancel id := by
  obtain ⟨request, hparse, -, hcall⟩ := h
  simp only [dispatch, hparse, hcall, judge]

/-- The state with one more application in flight, and a task that runs it. -/
def State.enter (s : State) (id : Int) (deadline : Nat) (p : ApplyParams) : State :=
  { s with
    ledger := s.ledger.push ⟨id, deadline, s.nextTicket⟩
    tasks := s.tasks ++ [⟨s.nextTicket, id, p, false⟩]
    nextTicket := s.nextTicket + 1 }

/-- The state without the entry under `id`, whose task is aborted. -/
def State.withdraw (s : State) (id : Int) (ticket : Nat) : State :=
  { s with ledger := s.ledger.erase id }.abort ticket

theorem State.count_enter (s : State) (id : Int) (deadline : Nat) (p : ApplyParams) (k : Int) :
    (s.enter id deadline p).ledger.count k = s.ledger.count k + if id = k then 1 else 0 :=
  Ledger.count_push k

theorem State.count_withdraw (s : State) (id : Int) (ticket : Nat) (k : Int) :
    (s.withdraw id ticket).ledger.count k = if k = id then 0 else s.ledger.count k :=
  Ledger.count_erase k

/-- What a line that is not blank does: it is answered, or it enters an application, or it asks to
cancel, which is never answered. -/
inductive LineEffect (s : State) (line : Text) : Event → State → Prop
  | answer {r : Response} (hother : ∀ own id, ¬ Asks line own (.cancel id)) :
      LineEffect s line (.answered r) (s.write r)
  | enter {id : Int} {deadline : Nat} {p : ApplyParams} (hask : Asks line (some id) (.apply p))
      (hfree : s.ledger.find? id = none) :
      LineEffect s line (.registered id s.nextTicket p) (s.enter id deadline p)
  | withdraw {own : Option Int} {id : Int} {entry : Pending Nat} (hask : Asks line own (.cancel id))
      (hfind : s.ledger.find? id = some entry) :
      LineEffect s line (.cancelled id) (s.withdraw id entry.payload)
  | ignore {own : Option Int} {id : Int} (hask : Asks line own (.cancel id))
      (hfree : s.ledger.find? id = none) : LineEffect s line (.ignored id) s

/-- **A line has an effect**, and its one event is the one recorded. -/
theorem exists_lineEffect (c : Config) (now : Nat) (s : State) (hline : line.allBlank = false) :
    ∃ event, s.lineEvents line = [event] ∧ LineEffect s line event (s.readLine c now line) := by
  have hblank : ¬ line.allBlank = true := by
    rw [hline]
    exact Bool.false_ne_true
  rw [State.lineEvents, State.readLine, if_neg hblank, if_neg hblank]
  cases hverdict : dispatch s.ledger.contains line with
  | respond r =>
    refine ⟨_, rfl, .answer ?_⟩
    intro own id hask
    rw [dispatch_of_asks_cancel hask] at hverdict
    cases hverdict
  | register id p =>
    obtain ⟨hask, hfree⟩ := asks_of_dispatch_eq_register hverdict
    refine ⟨_, rfl, ?_⟩
    -- The id was looked up before, so entering it cannot fail.
    have hregister : s.register id (now + timeoutOf c) p = s.enter id (now + timeoutOf c) p := by
      rw [State.register, Ledger.insert_eq_push hfree]
      rfl
    dsimp only
    rw [hregister]
    exact .enter hask (Ledger.find?_eq_none_iff.mpr (Ledger.contains_eq_false_iff.mp hfree))
  | cancel id =>
    obtain ⟨own, hask⟩ := asks_of_dispatch_eq_cancel hverdict
    dsimp only
    rw [State.cancel, Ledger.cancel, Ledger.complete, Ledger.contains]
    cases hfind : s.ledger.find? id with
    | none => exact ⟨_, rfl, .ignore hask hfind⟩
    | some entry => exact ⟨_, rfl, .withdraw hask hfind⟩

/-- What the state after a line tells of its effect: an answer shows in what is written, a new
application in the tickets, and a cancellation in neither. -/
theorem LineEffect.shows {event : Event} (h : LineEffect s line event s') :
    (∃ r, event = .answered r ∧ s'.written = s.written ++ [r])
      ∨ (∃ id p, event = .registered id s.nextTicket p ∧ s'.written = s.written
          ∧ s'.nextTicket = s.nextTicket + 1
          ∧ s'.tasks = s.tasks ++ [⟨s.nextTicket, id, p, false⟩])
      ∨ (∃ own id, Asks line own (.cancel id)
          ∧ (event = if (s.ledger.find? id).isSome then .cancelled id else .ignored id)
          ∧ s'.written = s.written ∧ s'.nextTicket = s.nextTicket) := by
  cases h with
  | answer hother => exact .inl ⟨_, rfl, rfl⟩
  | enter hask hfree => exact .inr (.inl ⟨_, _, rfl, rfl, rfl, rfl⟩)
  | withdraw hask hfind => exact .inr (.inr ⟨_, _, hask, by rw [hfind]; rfl, rfl, rfl⟩)
  | ignore hask hfree => exact .inr (.inr ⟨_, _, hask, by rw [hfree]; rfl, rfl, rfl⟩)

/-- **A line has one effect only**: the state after it tells which. -/
theorem LineEffect.event_unique {event event' : Event} (h : LineEffect s line event s')
    (h' : LineEffect s line event' s') : event = event' := by
  obtain ⟨r, rfl, hwritten⟩ | ⟨id, p, rfl, hwritten, hticket, htasks⟩
    | ⟨own, id, hask, rfl, hwritten, hticket⟩ := h.shows
  · obtain ⟨r', rfl, hwritten'⟩ | ⟨_, _, -, hwritten', -⟩ | ⟨_, _, -, -, hwritten', -⟩ := h'.shows
    · rw [hwritten, List.append_right_inj] at hwritten'
      cases hwritten'
      rfl
    · simp [hwritten] at hwritten'
    · simp [hwritten] at hwritten'
  · obtain ⟨_, -, hwritten'⟩ | ⟨_, _, rfl, -, -, htasks'⟩ | ⟨_, _, -, -, -, hticket'⟩ := h'.shows
    · simp [hwritten] at hwritten'
    · rw [htasks, List.append_right_inj] at htasks'
      cases htasks'
      rfl
    · omega
  · obtain ⟨_, -, hwritten'⟩ | ⟨_, _, -, -, hticket', -⟩ | ⟨_, _, hask', rfl, -, -⟩ := h'.shows
    · simp [hwritten] at hwritten'
    · omega
    · cases hask.call_unique hask'
      rfl

/-! ## 4. What a step does -/

/-- The task, aborted if its ticket is among the given ones. -/
def Task.abortedBy (tickets : List Nat) (task : Task) : Task :=
  if task.ticket ∈ tickets then { task with aborted := true } else task

@[simp] theorem Task.abortedBy_nil (task : Task) : task.abortedBy [] = task := rfl

@[simp] theorem Task.abortedBy_ticket (tickets : List Nat) (task : Task) :
    (task.abortedBy tickets).ticket = task.ticket := by
  unfold abortedBy
  split <;> rfl

@[simp] theorem Task.abortedBy_id (tickets : List Nat) (task : Task) :
    (task.abortedBy tickets).id = task.id := by
  unfold abortedBy
  split <;> rfl

@[simp] theorem Task.abortedBy_params (tickets : List Nat) (task : Task) :
    (task.abortedBy tickets).params = task.params := by
  unfold abortedBy
  split <;> rfl

theorem Task.abortedBy_of_not_mem {tickets : List Nat} {task : Task} (h : task.ticket ∉ tickets) :
    task.abortedBy tickets = task :=
  if_neg h

theorem Task.abortedBy_cons (ticket : Nat) (tickets : List Nat) (task : Task) :
    task.abortedBy (ticket :: tickets) = (task.abortedBy [ticket]).abortedBy tickets := by
  by_cases h : task.ticket = ticket
  · simp [abortedBy, h]
  · have hone : task.abortedBy [ticket] = task := abortedBy_of_not_mem (by simpa using h)
    rw [hone]
    simp [abortedBy, h]

/-- Aborts the tasks with the given tickets. -/
def State.abortAll (s : State) (tickets : List Nat) : State :=
  { s with tasks := s.tasks.map (·.abortedBy tickets) }

theorem State.abort_eq_abortAll (s : State) (ticket : Nat) :
    s.abort ticket = s.abortAll [ticket] := by
  simp [abort, abortAll, Task.abortedBy]

theorem State.withdraw_eq (s : State) (id : Int) (ticket : Nat) :
    s.withdraw id ticket = { s.abortAll [ticket] with ledger := s.ledger.erase id } := by
  rw [withdraw, abort_eq_abortAll]
  rfl

/-- **A sweep takes out what is due**, aborts the tasks of it and writes one response for each. -/
theorem State.sweep_eq (c : Config) (now : Nat) (s : State) :
    s.sweep c now = { s.abortAll ((s.ledger.expire now).1.map (·.2)) with
      ledger := (s.ledger.expire now).2
      written := s.written
        ++ (s.ledger.expire now).1.map fun due => timedOut (timeoutOf c) due.1 } := by
  have hfold : ∀ (due : List (Int × Nat)) (s : State),
      due.foldl (fun s d => (s.abort d.2).write (timedOut (timeoutOf c) d.1)) s
        = { s.abortAll (due.map (·.2)) with
            written := s.written ++ due.map fun d => timedOut (timeoutOf c) d.1 } := by
    intro due
    induction due with
    | nil =>
      intro s
      simp [abortAll]
    | cons first due ih =>
      -- Aborting one task and then the rest of them is aborting them all.
      intro s
      rw [List.foldl_cons, ih, State.abort_eq_abortAll]
      simp only [abortAll, write, List.map_map, List.map_cons, List.append_assoc,
        List.singleton_append]
      congr 1
      apply List.map_congr_left
      intro task _
      exact (Task.abortedBy_cons _ _ _).symm
  rw [sweep]
  exact hfold _ _

/-- What can come of one step, with the loop's functions opened. -/
inductive Change (e : Engine) (s : State) : List Event → State → Prop
  | skip : Change e s [] s
  | read {line : Text} {event : Event} {s' : State} (heffect : LineEffect s line event s') :
      Change e s [event] s'
  | finish {task : Task} (hfind : s.tasks.find? (·.ticket = task.ticket) = some task) :
      Change e s [] { s with
        tasks := s.tasks.filter (·.ticket ≠ task.ticket)
        queue := s.queue ++ [⟨task.id, e.replyTo task.params⟩] }
  | vanish (ticket : Nat) : Change e s [] (s.vanish ticket)
  | settle {completion : Completion} {rest : List Completion} {entry : Pending Nat}
      (hqueue : s.queue = completion :: rest)
      (hfind : s.ledger.find? completion.id = some entry) :
      Change e s [.completed completion.id completion.reply]
        ({ s with queue := rest, ledger := s.ledger.erase completion.id }.write
          ⟨some completion.id, completion.reply⟩)
  | drop {completion : Completion} {rest : List Completion} (hqueue : s.queue = completion :: rest)
      (hfree : s.ledger.find? completion.id = none) :
      Change e s [.dropped completion.id] { s with queue := rest }
  | sweep (now : Nat) : Change e s (s.sweepEvents now) { s.abortAll
        ((s.ledger.expire now).1.map (·.2)) with
      ledger := (s.ledger.expire now).2
      written := s.written
        ++ (s.ledger.expire now).1.map fun due => timedOut (timeoutOf e.config) due.1 }
  | close : Change e s [] s.closeInput

theorem change_readLine (e : Engine) (now : Nat) (line : Text) (s : State) :
    Change e s (s.lineEvents line) (s.readLine e.config now line) := by
  cases hline : line.allBlank with
  | true =>
    rw [State.lineEvents, State.readLine, if_pos hline, if_pos hline]
    exact .skip
  | false =>
    obtain ⟨event, hevents, heffect⟩ := exists_lineEffect e.config now s hline
    rw [hevents]
    exact .read heffect

theorem change_finish (e : Engine) {task : Task} (hmem : task ∈ s.tasks) :
    Change e s [] (s.finish e task.ticket) := by
  rw [State.finish]
  split
  · next hnone =>
    have := List.find?_eq_none.mp hnone task hmem
    simp at this
  · next found hfound =>
    have hticket : found.ticket = task.ticket := by simpa using List.find?_some hfound
    rw [← hticket] at hfound ⊢
    exact .finish hfound

theorem change_receive (e : Engine) (hqueue : s.queue ≠ []) :
    Change e s s.receiptEvents s.receive := by
  cases hcons : s.queue with
  | nil => exact absurd hcons hqueue
  | cons completion rest =>
    cases hfind : s.ledger.find? completion.id with
    | none =>
      simp only [State.receiptEvents, State.receive, hcons, Ledger.complete, Ledger.contains, hfind]
      exact .drop hcons hfind
    | some entry =>
      simp only [State.receiptEvents, State.receive, hcons, Ledger.complete, Ledger.contains, hfind]
      exact .settle hcons hfind

/-- **Every step is one of these changes.** -/
theorem Step.change {e : Engine} {m m' : Machine} {events : List Event}
    (h : Step e m events m') : Change e m.state events m'.state := by
  cases h with
  | read now hopen => exact change_readLine e now _ _
  | finish hmem => exact change_finish e hmem
  | vanish hmem haborted => exact .vanish _
  | receive hrunning hqueue => exact change_receive e hqueue
  | sweep now hrunning =>
    dsimp only
    rw [State.sweep_eq]
    exact .sweep now
  | close hopen => exact .close

/-! ## 5. An id used twice -/

/-- An engine that can parse one source. -/
def sampleEngine : Engine where
  parser variant source :=
    if variant = .module ∧ source = Tree.sampleCall.source then some Tree.sampleCall else none
  config := .standard
  overflow := .wraps

/-- The first argument is to move behind the second one. -/
def sampleMove : ApplyParams :=
  ⟨.moveRight, Tree.sampleCall.source, .module, .point ⟨0, 99⟩⟩

/-- The second argument is to move before the first one. -/
def sampleReturn : ApplyParams :=
  ⟨.moveLeft, Tree.sampleCall.source, .module, .point ⟨1, 3⟩⟩

/-- A client that changes its mind and keeps the id. -/
def sampleInput : List Text :=
  [Request.applyLine 1 sampleMove,
    (Json.obj [("method", .str "cancel"), ("params", .obj [("id", .ofInt 1)])]).compact,
    Request.applyLine 1 sampleReturn]

/-- The first application has finished; its completion is in the queue. -/
def sampleFinished : State where
  ledger := ⟨[⟨1, timeoutOf .standard, 0⟩]⟩
  queue := [⟨1, sampleEngine.replyTo sampleMove⟩]
  nextTicket := 1

/-- One line is read and its task finishes. -/
theorem run_sampleFinished : Run sampleEngine sampleInput [.registered 1 0 sampleMove]
    ⟨sampleFinished, sampleInput.drop 1⟩ := by
  have hread : Run sampleEngine sampleInput _ _ := Run.start.step (.read 0 rfl)
  have hfinish := hread.step (.finish (show ⟨0, 1, sampleMove, false⟩ ∈ _ by decide +kernel))
  exact hfinish.of_eq (by decide +kernel)

/-- The second application is in flight, and the completion of the first is still in the queue. -/
def sampleReused : State where
  ledger := ⟨[⟨1, timeoutOf .standard, 1⟩]⟩
  tasks := [⟨1, 1, sampleReturn, false⟩]
  queue := [⟨1, sampleEngine.replyTo sampleMove⟩]
  nextTicket := 2

def sampleEvents : List Event :=
  [.registered 1 0 sampleMove, .cancelled 1, .registered 1 1 sampleReturn]

/-- The lines that cancel and use the id again are both read before the completion is received. -/
theorem run_sampleReused : Run sampleEngine sampleInput sampleEvents ⟨sampleReused, []⟩ := by
  have hcancel := run_sampleFinished.step (.read 0 rfl)
  have hagain := hcancel.step (.read 0 (by decide +kernel))
  exact hagain.of_eq (by decide +kernel)

end Serve

end AnchoredEdit
