/-
`Proofs/Serve/Attribution.lean` -- whose outcome a response carries.

A completion is matched with the ledger by its id alone, so it settles whatever is in flight under
that id. It always carries the outcome of something registered under the id. Whether that is the
request it settles depends on what else is on the way under the id: a request that is given up
leaves its completion behind if its task had finished, and an id may be used again at once.

Counting settles it. As long as nothing under an id was cancelled or has timed out, there is one
task or completion on the way for each entry, and since what comes of an entry is on the way, the
one that arrives is the entry's own. After a cancellation there can be more, and then a response
can carry the outcome of a request that was given up.
-/
import AnchoredEdit.Proofs.Serve.Trace

set_option autoImplicit false

namespace AnchoredEdit

namespace Serve

variable {e : Engine} {s s' : State} {events : List Event} {id : Int}

/-! ## 1. What is on the way -/

/-- The number of tasks and completions under `id`. -/
def State.senders (s : State) (id : Int) : Nat :=
  s.tasks.countP (·.id = id) + s.queue.countP (·.id = id)

/-- A task that ends is counted no more. -/
theorem countP_tasks_ended {tasks : List Task} {task : Task} (hmem : task ∈ tasks) (id : Int) :
    (tasks.filter (·.ticket ≠ task.ticket)).countP (·.id = id) + (if task.id = id then 1 else 0)
      ≤ tasks.countP (·.id = id) := by
  rw [List.countP_eq_countP_filter_add tasks (·.id = id) (·.ticket ≠ task.ticket)]
  apply Nat.add_le_add_left
  split
  · next hid =>
    apply List.countP_pos_iff.mpr
    refine ⟨task, List.mem_filter.mpr ⟨hmem, ?_⟩, ?_⟩
    · simp
    · simpa using hid
  · exact Nat.zero_le _

/-- Aborting a task does not take it out. -/
@[simp] theorem State.senders_abortAll (s : State) (tickets : List Nat) (id : Int) :
    (s.abortAll tickets).senders id = s.senders id := by
  rw [senders, abortAll, List.countP_map]
  congr 2
  funext task
  simp

/-- **Unless a request under `id` is given up, nothing is on the way but what is in flight.** -/
theorem Change.senders_le (h : Change e s events s') (hd : s.ledger.Distinct)
    (hcancelled : .cancelled id ∉ events) (hexpired : .expired id ∉ events)
    (hle : s.senders id ≤ s.ledger.count id) : s'.senders id ≤ s'.ledger.count id := by
  cases h with
  | skip => exact hle
  | read heffect =>
    cases heffect with
    | answer hother => exact hle
    | @enter k deadline p hask hfree =>
      have hsenders : (s.enter k deadline p).senders id
          = s.senders id + if k = id then 1 else 0 := by
        simp [State.senders, State.enter, List.countP_append, List.countP_cons]
        omega
      rw [hsenders, State.count_enter]
      exact Nat.add_le_add_right hle _
    | @withdraw own k entry hask hfind =>
      have hne : id ≠ k := by
        rintro rfl
        exact hcancelled (List.mem_singleton.mpr rfl)
      have hsenders : (s.withdraw k entry.payload).senders id = s.senders id := by
        rw [State.withdraw_eq]
        exact s.senders_abortAll _ id
      rw [hsenders, State.count_withdraw, if_neg hne]
      exact hle
    | ignore hask hfree => exact hle
  | @finish task hfind =>
    -- The task is counted among the tasks before and in the queue after.
    have hended := countP_tasks_ended (List.mem_of_find?_eq_some hfind) id
    simp only [State.senders, List.countP_append, List.countP_singleton, decide_eq_true_eq] at hle ⊢
    omega
  | vanish ticket =>
    have hended : (s.vanish ticket).tasks.countP (·.id = id) ≤ s.tasks.countP (·.id = id) :=
      List.filter_sublist.countP_le
    simp only [State.senders, State.vanish] at hle hended ⊢
    omega
  | @settle completion rest entry hqueue hfind =>
    -- The completion leaves with the entry; it was the only sender, as the entry is the only one.
    have hone := hd id
    simp only [State.senders, State.write, hqueue, List.countP_cons, Ledger.count_erase,
      decide_eq_true_eq] at hle ⊢
    by_cases hid : completion.id = id
    · rw [if_pos hid] at hle
      rw [if_pos hid.symm]
      omega
    · rw [if_neg hid] at hle
      rw [if_neg (Ne.symm hid)]
      exact hle
  | @drop completion rest hqueue hfree =>
    simp only [State.senders, hqueue, List.countP_cons] at hle ⊢
    omega
  | sweep now =>
    -- What the sweep takes out is recorded, and nothing is recorded under this id.
    have hsplit : (s.ledger.expire now).1.countP (·.1 = id) + (s.ledger.expire now).2.count id
        = s.ledger.count id := Ledger.count_expire id
    have hnone : (s.ledger.expire now).1.countP (·.1 = id) = 0 := by
      rw [List.countP_eq_zero]
      intro due hdue hid
      apply hexpired
      exact List.mem_map.mpr ⟨due, hdue, by rw [of_decide_eq_true hid]⟩
    have hsenders := s.senders_abortAll ((s.ledger.expire now).1.map (·.2)) id
    simp only [State.senders] at hle hsenders ⊢
    omega
  | close => exact hle

/-! ## 2. Runs -/

variable {input : List Text} {m : Machine} {completion : Completion} {rest : List Completion}
  {entry : Pending Nat} {p : ApplyParams}

theorem Run.senders_le (h : Run e input events m) (hcancelled : .cancelled id ∉ events)
    (hexpired : .expired id ∉ events) : m.state.senders id ≤ m.state.ledger.count id := by
  induction h with
  | start => exact Nat.le_refl _
  | step hrun hstep ih =>
    rw [List.mem_append, not_or] at hcancelled hexpired
    exact hstep.change.senders_le hrun.traced.distinct hcancelled.2 hexpired.2
      (ih hcancelled.1 hexpired.1)

/-- **What arrives alone is the entry's own.** If nothing else is on the way under the id, the
completion that arrives carries the outcome of what was registered with the entry. -/
theorem Traced.reply_of_alone (hs : Traced e events s) (hqueue : s.queue = completion :: rest)
    (hfind : s.ledger.find? completion.id = some entry)
    (hp : .registered completion.id entry.payload p ∈ events)
    (halone : s.senders completion.id = 1) : completion.reply = e.replyTo p := by
  obtain ⟨hmem, hid⟩ := Ledger.mem_of_find? hfind
  obtain ⟨q, hq, hawaits⟩ := hs.entry entry hmem
  obtain ⟨-, rfl⟩ := hs.ticket_unique hp hq
  rw [State.senders, hqueue, List.countP_cons, if_pos (decide_eq_true rfl)] at halone
  rcases hawaits with ⟨task, htask, hticket, -⟩ | hqueued
  · -- A task of the entry would be a second sender.
    have htaskid := hs.id_of_ticket hp htask hticket
    have hpos : 0 < s.tasks.countP (·.id = completion.id) :=
      List.countP_pos_iff.mpr ⟨task, htask, decide_eq_true htaskid⟩
    omega
  · rw [hqueue] at hqueued
    rcases List.mem_cons.mp hqueued with rfl | hlater
    · rfl
    · have hpos : 0 < rest.countP (·.id = completion.id) :=
        List.countP_pos_iff.mpr ⟨_, hlater, decide_eq_true hid⟩
      omega

/-- **Whose outcome a response carries.** When a completion meets an entry under its id, the loop
writes a response under the id and removes the entry. The reply is always the outcome of an
application registered under that id. It is the outcome of the very application that registered the
entry if nothing else is on the way under the id, and so whenever no application under the id was
cancelled or has timed out before. -/
theorem Run.response_carries_outcome (h : Run e input events m)
    (hqueue : m.state.queue = completion :: rest)
    (hfind : m.state.ledger.find? completion.id = some entry) :
    ∃ reply, m.state.receive.written = m.state.written ++ [⟨some completion.id, reply⟩]
      ∧ m.state.receive.ledger = m.state.ledger.erase completion.id
      ∧ (∃ ticket q, .registered completion.id ticket q ∈ events ∧ reply = e.replyTo q)
      ∧ ∃ p, .registered completion.id entry.payload p ∈ events
          ∧ (∀ id q, .registered id entry.payload q ∈ events → id = completion.id ∧ q = p)
          ∧ (m.state.senders completion.id = 1 → reply = e.replyTo p)
          ∧ (.cancelled completion.id ∉ events → .expired completion.id ∉ events →
              reply = e.replyTo p) := by
  have hs := h.traced
  obtain ⟨hmem, hid⟩ := Ledger.mem_of_find? hfind
  obtain ⟨p, hp, -⟩ := hs.entry entry hmem
  rw [hid] at hp
  have hreceive : m.state.receive
      = { m.state with queue := rest, ledger := m.state.ledger.erase completion.id }.write
          ⟨some completion.id, completion.reply⟩ := by
    simp only [State.receive, hqueue, Ledger.complete, hfind, Option.map_some]
  refine ⟨completion.reply, ?_, ?_, ?_, p, hp, ?_, ?_, ?_⟩
  · rw [hreceive]
    rfl
  · rw [hreceive]
    rfl
  · apply hs.completion
    rw [hqueue]
    exact List.mem_cons_self
  · intro id q hq
    exact hs.ticket_unique hq hp
  · exact hs.reply_of_alone hqueue hfind hp
  · intro hcancelled hexpired
    -- The completion is on the way itself, so there is exactly one sender.
    apply hs.reply_of_alone hqueue hfind hp
    have hle := h.senders_le hcancelled hexpired
    have hone := hs.distinct completion.id
    have hpos : 0 < m.state.senders completion.id := by
      rw [State.senders, hqueue, List.countP_cons, if_pos (decide_eq_true rfl)]
      omega
    omega

/-- An application that finishes is answered with its own outcome. -/
theorem Run.response_carries_outcome_sampleFinished :
    Run sampleEngine sampleInput [.registered 1 0 sampleMove] ⟨sampleFinished, sampleInput.drop 1⟩
      ∧ sampleFinished.ledger.find? 1 = some ⟨1, timeoutOf .standard, 0⟩
      ∧ sampleFinished.receive.written = [⟨some 1, sampleEngine.replyTo sampleMove⟩]
      ∧ sampleFinished.receive.ledger = sampleFinished.ledger.erase 1 := by
  have hfind : sampleFinished.ledger.find? 1 = some ⟨1, timeoutOf .standard, 0⟩ := by decide
  obtain ⟨reply, hwritten, hledger, -, p, hp, -, -, hown⟩ :=
    Run.response_carries_outcome run_sampleFinished rfl hfind
  cases List.mem_singleton.mp hp
  rw [hown (by simp) (by simp)] at hwritten
  exact ⟨run_sampleFinished, hfind, hwritten, hledger⟩

/-- **A response can carry the outcome of another request.** An application finishes and is then
cancelled; its id is used again before its completion is received. The completion settles the new
application, with the outcome of the old one. -/
theorem late_completion_settles_next : ¬ ∀ (e : Engine) (input : List Text) (events : List Event)
    (m : Machine) (completion : Completion) (rest : List Completion) (entry : Pending Nat)
    (p : ApplyParams), Run e input events m → m.state.queue = completion :: rest →
      m.state.ledger.find? completion.id = some entry →
      .registered completion.id entry.payload p ∈ events →
      m.state.receive.written = m.state.written ++ [⟨some completion.id, e.replyTo p⟩] := by
  intro h
  -- The entry with ticket 1 is that of the second application, the completion is of the first.
  have hwritten := h _ _ _ _ ⟨1, sampleEngine.replyTo sampleMove⟩ [] ⟨1, timeoutOf .standard, 1⟩
    sampleReturn run_sampleReused rfl (by decide) (by decide)
  have hother : sampleReused.receive.written ≠ [⟨some 1, sampleEngine.replyTo sampleReturn⟩] := by
    decide +kernel
  exact hother hwritten

end Serve

end AnchoredEdit
