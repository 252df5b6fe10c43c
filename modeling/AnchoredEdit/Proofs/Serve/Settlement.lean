/-
`Proofs/Serve/Settlement.lean` -- every application that is accepted is settled exactly once.

An application enters the ledger once and leaves it once, by a completion, by a cancellation or by
a deadline; nothing else changes the ledger. Each change therefore balances: what was registered
and what was in flight before equals what was settled or cancelled and what is in flight after.
Summed up over a run that is the account of every id, in any schedule. That nothing stays in the
ledger unattended is part of the trace of a run.
-/
import AnchoredEdit.Proofs.Serve.Trace

set_option autoImplicit false

namespace AnchoredEdit

namespace Serve

variable {e : Engine} {s s' : State} {events : List Event}

/-! ## 1. The account of one change -/

/-- What is in flight under an id is one request in a ledger of distinct ids. -/
theorem count_eq_one_of_find? {l : Ledger Nat} {id : Int} {entry : Pending Nat} (hd : l.Distinct)
    (h : l.find? id = some entry) : l.count id = 1 := by
  have hpos : 0 < l.count id := Ledger.count_pos_iff.mpr ⟨entry, Ledger.mem_of_find? h⟩
  have hle := hd id
  omega

/-- **Every change balances.** -/
theorem Change.balances (h : Change e s events s') (hd : s.ledger.Distinct) (id : Int) :
    events.countP (Event.isRegistration id) + s.ledger.count id
      = events.countP (Event.isSettlement id) + events.countP (Event.isCancellation id)
        + s'.ledger.count id := by
  cases h with
  | skip => simp
  | read heffect =>
    cases heffect with
    | answer hother => simp [State.write]
    | enter hask hfree =>
      rw [State.count_enter]
      simp [Nat.add_comm]
    | @withdraw own k entry hask hfind =>
      have hone := count_eq_one_of_find? hd hfind
      rw [State.count_withdraw]
      by_cases hk : k = id
      · subst hk
        simp [hone]
      · simp [hk, Ne.symm hk]
    | ignore hask hfree => simp
  | finish hfind => simp
  | vanish ticket => simp [State.vanish]
  | @settle completion rest entry hqueue hfind =>
    have hone := count_eq_one_of_find? hd hfind
    simp only [State.write, Ledger.count_erase]
    by_cases hk : completion.id = id
    · subst hk
      simp [hone]
    · simp [hk, Ne.symm hk]
  | drop hqueue hfree => simp
  | sweep now =>
    -- Each entry that a sweep takes out is recorded once, as settled.
    have hsplit : (s.ledger.expire now).1.countP (·.1 = id) + (s.ledger.expire now).2.count id
        = s.ledger.count id := Ledger.count_expire id
    have hexpired : (s.sweepEvents now).countP (Event.isSettlement id)
        = (s.ledger.expire now).1.countP (·.1 = id) := by
      rw [State.sweepEvents, List.countP_map]
      rfl
    have hregistered : (s.sweepEvents now).countP (Event.isRegistration id) = 0 := by
      simp [State.sweepEvents, List.countP_eq_zero]
    have hcancelled : (s.sweepEvents now).countP (Event.isCancellation id) = 0 := by
      simp [State.sweepEvents, List.countP_eq_zero]
    rw [hexpired, hregistered, hcancelled]
    dsimp only
    omega
  | close => simp [State.closeInput]

/-- What is written are the responses of the events. -/
theorem Change.written_eq (h : Change e s events s') :
    s'.written = s.written ++ events.filterMap (Event.response? (timeoutOf e.config)) := by
  cases h with
  | skip => simp
  | read heffect =>
    cases heffect with
    | answer hother => rfl
    | enter hask hfree => simp [State.enter]
    | withdraw hask hfind => simp [State.withdraw, State.abort]
    | ignore hask hfree => simp
  | finish hfind => simp
  | vanish ticket => simp [State.vanish]
  | settle hqueue hfind => rfl
  | drop hqueue hfree => simp
  | sweep now =>
    dsimp only
    rw [State.sweepEvents, List.filterMap_map, List.append_right_inj]
    rw [← List.filterMap_eq_map]
    rfl
  | close => simp [State.closeInput]

/-! ## 2. Runs -/

variable {input : List Text} {m : Machine}

/-- What a run has written are the responses of its events, in order. -/
theorem Run.written_eq (h : Run e input events m) :
    m.state.written = events.filterMap (Event.response? (timeoutOf e.config)) := by
  induction h with
  | start => rfl
  | step hrun hstep ih => rw [hstep.change.written_eq, ih, List.filterMap_append]

/-- **The account of a run.** -/
theorem Run.balances (h : Run e input events m) (id : Int) :
    events.countP (Event.isRegistration id)
      = events.countP (Event.isSettlement id) + events.countP (Event.isCancellation id)
        + m.state.ledger.count id := by
  induction h with
  | start => rfl
  | step hrun hstep ih =>
    have hstep := hstep.change.balances hrun.traced.distinct id
    simp only [List.countP_append]
    omega

/-- What is in flight has a task that nobody aborted, or a completion in the queue. -/
theorem Traced.attended_of_contains (hs : Traced e events s) {id : Int}
    (h : s.ledger.contains id = true) :
    (∃ task ∈ s.tasks, task.id = id ∧ task.aborted = false)
      ∨ ∃ completion ∈ s.queue, completion.id = id := by
  rw [Ledger.contains_iff, Ledger.count_pos_iff] at h
  obtain ⟨entry, hentry, rfl⟩ := h
  obtain ⟨p, hp, hawaits⟩ := hs.entry entry hentry
  rcases hawaits with ⟨task, hmem, hticket, halive⟩ | hqueued
  · exact .inl ⟨task, hmem, hs.id_of_ticket hp hmem hticket, halive⟩
  · exact .inr ⟨_, hqueued, rfl⟩

/-- When the loop has nothing left to wait for, nothing is in flight. -/
theorem State.contains_of_done (h : s.done = true) (id : Int) : s.ledger.contains id = false := by
  rw [State.done, Bool.and_eq_true, Ledger.isEmpty, List.isEmpty_iff] at h
  rw [Ledger.contains_eq_false_iff, Ledger.count, h.2]
  rfl

/-- **Every accepted application is settled exactly once, whatever the schedule.** What is written
is what the events say. Under each id, the registered applications are those answered by
completion or timeout, those cancelled, and the one in flight if there is one. A line that is not
blank has one effect, the one recorded: an answer, a registration, or, if it asks to cancel, no
output. What is in flight has a task that nobody aborted or a completion in the queue, and when
the loop ends nothing is in flight. -/
theorem Run.settles_exactly_once (h : Run e input events m) :
    m.state.written = events.filterMap (Event.response? (timeoutOf e.config))
      ∧ (∀ id, events.countP (Event.isRegistration id)
          = events.countP (Event.isSettlement id) + events.countP (Event.isCancellation id)
            + if m.state.ledger.contains id then 1 else 0)
      ∧ (∀ line now, Text.allBlank line = false →
          ∃ event, m.state.lineEvents line = [event]
            ∧ LineEffect m.state line event (m.state.readLine e.config now line)
            ∧ ∀ event', LineEffect m.state line event' (m.state.readLine e.config now line) →
                event' = event)
      ∧ (∀ id, m.state.ledger.contains id = true →
          (∃ task ∈ m.state.tasks, task.id = id ∧ task.aborted = false)
            ∨ ∃ completion ∈ m.state.queue, completion.id = id)
      ∧ (m.state.done = true → ∀ id, m.state.ledger.contains id = false) := by
  have hs := h.traced
  refine ⟨h.written_eq, ?_, ?_, fun _ => hs.attended_of_contains, State.contains_of_done⟩
  · intro id
    rw [← hs.distinct.count_eq]
    exact h.balances id
  · intro line now hline
    obtain ⟨event, hevents, heffect⟩ := exists_lineEffect e.config now m.state hline
    exact ⟨event, hevents, heffect, fun _ heffect' => heffect'.event_unique heffect⟩

/-- An id used twice: of two applications one was cancelled and one is in flight, attended by a
task. Once a completion is received and the input ends, nothing is in flight. -/
theorem Run.settles_exactly_once_sampleReused :
    Run sampleEngine sampleInput sampleEvents ⟨sampleReused, []⟩
      ∧ sampleEvents.countP (Event.isRegistration 1)
          = sampleEvents.countP (Event.isSettlement 1) + sampleEvents.countP (Event.isCancellation 1)
            + (if sampleReused.ledger.contains 1 then 1 else 0)
      ∧ ((∃ task ∈ sampleReused.tasks, task.id = 1 ∧ task.aborted = false)
          ∨ ∃ completion ∈ sampleReused.queue, completion.id = 1)
      ∧ sampleReused.receive.closeInput.done = true
      ∧ ∀ id, sampleReused.receive.closeInput.ledger.contains id = false := by
  obtain ⟨-, haccount, -, hattended, -⟩ := Run.settles_exactly_once run_sampleReused
  have hend := (run_sampleReused.step (.receive rfl (by decide))).step (.close rfl)
  obtain ⟨-, -, -, -, hsettled⟩ := Run.settles_exactly_once hend
  exact ⟨run_sampleReused, haccount 1, hattended 1 (by decide), rfl, hsettled rfl⟩

end Serve

end AnchoredEdit
