/-
`Proofs/Serve/Trace.lean` -- where what is in flight came from, and what will come of it.

A registration gives out a ticket, to an entry in the ledger and a task at once. `Traced` says how
far the ticket leads later on. Tasks run what was registered with their ticket; a completion
carries the outcome of something registered under its id, but not of what: it has no ticket. An
entry was registered too, and what comes of it is on the way, as its own task or as its own
outcome in the queue.

The last part is what keeps entries from being stuck. It survives because a task is aborted only
together with its entry, and because a completion that leaves the queue takes the entry under its
id along, whoever sent it.
-/
import AnchoredEdit.Proofs.Serve.Machine

set_option autoImplicit false

namespace AnchoredEdit

namespace Serve

variable {e : Engine} {s s' : State} {events new : List Event}

/-! ## 1. The invariant -/

/-- What comes of the entry is on the way: its task runs and nobody aborted it, or the outcome of
`p` is in the queue under its id. -/
def State.Awaits (e : Engine) (s : State) (entry : Pending Nat) (p : ApplyParams) : Prop :=
  (∃ task ∈ s.tasks, task.ticket = entry.payload ∧ task.aborted = false)
    ∨ ⟨entry.id, e.replyTo p⟩ ∈ s.queue

/-- What holds between steps, after these events. -/
structure Traced (e : Engine) (events : List Event) (s : State) : Prop where
  distinct : s.ledger.Distinct
  /-- Tickets are given out in order. -/
  ticket_lt : ∀ {id ticket p}, .registered id ticket p ∈ events → ticket < s.nextTicket
  /-- A ticket is given out once. -/
  ticket_unique : ∀ {id id' ticket p p'}, .registered id ticket p ∈ events →
    .registered id' ticket p' ∈ events → id = id' ∧ p = p'
  task : ∀ task ∈ s.tasks, .registered task.id task.ticket task.params ∈ events
  completion : ∀ completion ∈ s.queue, ∃ ticket p,
    .registered completion.id ticket p ∈ events ∧ completion.reply = e.replyTo p
  entry : ∀ entry ∈ s.ledger.entries, ∃ p,
    .registered entry.id entry.payload p ∈ events ∧ s.Awaits e entry p

namespace Traced

theorem start : Traced e [] {} where
  distinct := fun _ => Nat.zero_le _
  ticket_lt := by simp
  ticket_unique := by simp
  task := by simp
  completion := by simp
  entry := by simp

/-- Events that register nothing add nothing to the trace. -/
theorem silent (hs : Traced e events s) (hnew : ∀ id ticket p, .registered id ticket p ∉ new) :
    Traced e (events ++ new) s := by
  have hiff : ∀ {id ticket p}, .registered id ticket p ∈ events ++ new ↔
      .registered id ticket p ∈ events := by
    intro id ticket p
    rw [List.mem_append]
    exact or_iff_left (hnew id ticket p)
  constructor
  · exact hs.distinct
  · intro id ticket p h
    exact hs.ticket_lt (hiff.mp h)
  · intro id id' ticket p p' h h'
    exact hs.ticket_unique (hiff.mp h) (hiff.mp h')
  · intro task htask
    exact hiff.mpr (hs.task task htask)
  · intro completion hcompletion
    obtain ⟨ticket, p, hp, hreply⟩ := hs.completion completion hcompletion
    exact ⟨ticket, p, hiff.mpr hp, hreply⟩
  · intro entry hentry
    obtain ⟨p, hp, hawaits⟩ := hs.entry entry hentry
    exact ⟨p, hiff.mpr hp, hawaits⟩

/-- A task with the ticket of a registration runs under its id. -/
theorem id_of_ticket (hs : Traced e events s) {id : Int} {ticket : Nat} {p : ApplyParams}
    {task : Task} (hp : .registered id ticket p ∈ events) (hmem : task ∈ s.tasks)
    (hticket : task.ticket = ticket) : task.id = id := by
  have htask := hs.task task hmem
  rw [hticket] at htask
  exact (hs.ticket_unique htask hp).1

/-! ## 2. What each change keeps -/

/-- **Aborting tasks together with their entries** spares the tasks of the other entries: a ticket
belongs to one id. -/
theorem abortAll (hs : Traced e events s) {l : Ledger Nat} {tickets : List Nat}
    {written : List Response} (hd : l.Distinct)
    (hkept : ∀ entry ∈ l.entries, entry ∈ s.ledger.entries)
    (hgone : ∀ ticket ∈ tickets, ∃ gone ∈ s.ledger.entries, gone.payload = ticket
      ∧ ∀ entry ∈ l.entries, entry.id ≠ gone.id) :
    Traced e events { s.abortAll tickets with ledger := l, written := written } where
  distinct := hd
  ticket_lt := hs.ticket_lt
  ticket_unique := hs.ticket_unique
  task := by
    intro task htask
    obtain ⟨task, hmem, rfl⟩ := List.mem_map.mp htask
    rw [Task.abortedBy_id, Task.abortedBy_ticket, Task.abortedBy_params]
    exact hs.task task hmem
  completion := hs.completion
  entry := by
    intro entry hentry
    obtain ⟨p, hp, hawaits⟩ := hs.entry entry (hkept entry hentry)
    refine ⟨p, hp, ?_⟩
    rcases hawaits with ⟨task, hmem, hticket, halive⟩ | hqueued
    · left
      have hspared : task.ticket ∉ tickets := by
        intro hmem
        obtain ⟨gone, hgone, hpayload, hne⟩ := hgone _ hmem
        obtain ⟨q, hq, -⟩ := hs.entry gone hgone
        rw [hpayload, hticket] at hq
        exact hne entry hentry (hs.ticket_unique hp hq).1
      refine ⟨task, ?_, hticket, halive⟩
      rw [← Task.abortedBy_of_not_mem hspared]
      exact List.mem_map_of_mem hmem
    · exact .inr hqueued

theorem enter (hs : Traced e events s) {id : Int} {deadline : Nat} {p : ApplyParams}
    (hfree : s.ledger.find? id = none) :
    Traced e (events ++ [.registered id s.nextTicket p]) (s.enter id deadline p) where
  distinct := hs.distinct.push hfree
  ticket_lt := by
    intro id ticket p h
    show ticket < s.nextTicket + 1
    rcases List.mem_append.mp h with h | h
    · have := hs.ticket_lt h
      omega
    · cases List.mem_singleton.mp h
      exact Nat.lt_succ_self _
  ticket_unique := by
    intro id id' ticket p p' h h'
    -- The new ticket is above all that were given out before.
    rcases List.mem_append.mp h with h | h
    · rcases List.mem_append.mp h' with h' | h'
      · exact hs.ticket_unique h h'
      · cases List.mem_singleton.mp h'
        exact absurd (hs.ticket_lt h) (Nat.lt_irrefl _)
    · cases List.mem_singleton.mp h
      rcases List.mem_append.mp h' with h' | h'
      · exact absurd (hs.ticket_lt h') (Nat.lt_irrefl _)
      · cases List.mem_singleton.mp h'
        exact ⟨rfl, rfl⟩
  task := by
    intro task htask
    rcases List.mem_append.mp htask with htask | htask
    · exact List.mem_append_left _ (hs.task task htask)
    · rw [List.mem_singleton.mp htask]
      exact List.mem_append_right _ (List.mem_singleton.mpr rfl)
  completion := by
    intro completion hcompletion
    obtain ⟨ticket, q, hq, hreply⟩ := hs.completion completion hcompletion
    exact ⟨ticket, q, List.mem_append_left _ hq, hreply⟩
  entry := by
    intro entry hentry
    rcases Ledger.mem_push.mp hentry with hentry | rfl
    · obtain ⟨q, hq, hawaits⟩ := hs.entry entry hentry
      refine ⟨q, List.mem_append_left _ hq, ?_⟩
      rcases hawaits with ⟨task, hmem, halive⟩ | hqueued
      · exact .inl ⟨task, List.mem_append_left _ hmem, halive⟩
      · exact .inr hqueued
    · refine ⟨p, List.mem_append_right _ (List.mem_singleton.mpr rfl), .inl ?_⟩
      exact ⟨_, List.mem_append_right _ (List.mem_singleton.mpr rfl), rfl, rfl⟩

/-- A task that finishes leaves the outcome of what was registered with its ticket. -/
theorem finish (hs : Traced e events s) {task : Task}
    (hfind : s.tasks.find? (·.ticket = task.ticket) = some task) :
    Traced e events { s with
      tasks := s.tasks.filter (·.ticket ≠ task.ticket)
      queue := s.queue ++ [⟨task.id, e.replyTo task.params⟩] } := by
  have htask := hs.task task (List.mem_of_find?_eq_some hfind)
  constructor
  · exact hs.distinct
  · exact hs.ticket_lt
  · exact hs.ticket_unique
  · intro other hother
    exact hs.task other (List.mem_filter.mp hother).1
  · intro completion hcompletion
    rcases List.mem_append.mp hcompletion with hcompletion | hcompletion
    · exact hs.completion completion hcompletion
    · rw [List.mem_singleton.mp hcompletion]
      exact ⟨task.ticket, task.params, htask, rfl⟩
  · intro entry hentry
    obtain ⟨p, hp, hawaits⟩ := hs.entry entry hentry
    refine ⟨p, hp, ?_⟩
    rcases hawaits with ⟨other, hmem, hticket, halive⟩ | hqueued
    · by_cases hsame : other.ticket = task.ticket
      · -- The task of this entry is the one that finishes.
        rw [← hsame, hticket] at htask
        obtain ⟨hid, rfl⟩ := hs.ticket_unique hp htask
        rw [State.Awaits, hid]
        exact .inr (List.mem_append_right _ (List.mem_singleton.mpr rfl))
      · refine .inl ⟨other, List.mem_filter.mpr ⟨hmem, ?_⟩, hticket, halive⟩
        simpa using hsame
    · exact .inr (List.mem_append_left _ hqueued)

/-- Only aborted tasks end without a completion, and no entry awaits one of them. -/
theorem vanish (hs : Traced e events s) (ticket : Nat) : Traced e events (s.vanish ticket) where
  distinct := hs.distinct
  ticket_lt := hs.ticket_lt
  ticket_unique := hs.ticket_unique
  task := fun task htask => hs.task task (List.mem_filter.mp htask).1
  completion := hs.completion
  entry := by
    intro entry hentry
    obtain ⟨p, hp, hawaits⟩ := hs.entry entry hentry
    refine ⟨p, hp, ?_⟩
    rcases hawaits with ⟨task, hmem, hticket, halive⟩ | hqueued
    · refine .inl ⟨task, List.mem_filter.mpr ⟨hmem, ?_⟩, hticket, halive⟩
      simp [halive]
    · exact .inr hqueued

/-- A completion that is received is of no use to entries under other ids. -/
theorem settle (hs : Traced e events s) {completion : Completion} {rest : List Completion}
    {written : List Response} (hqueue : s.queue = completion :: rest) :
    Traced e events { s with
      queue := rest, ledger := s.ledger.erase completion.id, written := written } where
  distinct := hs.distinct.erase _
  ticket_lt := hs.ticket_lt
  ticket_unique := hs.ticket_unique
  task := hs.task
  completion := by
    intro other hother
    apply hs.completion other
    rw [hqueue]
    exact List.mem_cons_of_mem _ hother
  entry := by
    intro entry hentry
    obtain ⟨hentry, hne⟩ := Ledger.mem_erase.mp hentry
    obtain ⟨p, hp, hawaits⟩ := hs.entry entry hentry
    refine ⟨p, hp, ?_⟩
    rcases hawaits with halive | hqueued
    · exact .inl halive
    · rw [hqueue] at hqueued
      rcases List.mem_cons.mp hqueued with rfl | hqueued
      · exact absurd rfl hne
      · exact .inr hqueued

end Traced

/-! ## 3. Changes and runs -/

/-- **Every change keeps the trace.** -/
theorem Change.traced (h : Change e s new s') (hs : Traced e events s) :
    Traced e (events ++ new) s' := by
  cases h with
  | skip => exact hs.silent (by simp)
  | read heffect =>
    cases heffect with
    | @answer r hother =>
      have hwritten : Traced e events (s.write r) :=
        ⟨hs.distinct, hs.ticket_lt, hs.ticket_unique, hs.task, hs.completion, hs.entry⟩
      exact hwritten.silent (by simp)
    | enter hask hfree => exact hs.enter hfree
    | @withdraw own id entry hask hfind =>
      obtain ⟨hmem, hid⟩ := Ledger.mem_of_find? hfind
      rw [State.withdraw_eq]
      refine (hs.abortAll (hs.distinct.erase id) ?_ ?_).silent (by simp)
      · intro other hother
        exact (Ledger.mem_erase.mp hother).1
      · intro ticket hticket
        refine ⟨entry, hmem, (List.mem_singleton.mp hticket).symm, ?_⟩
        intro other hother
        rw [hid]
        exact (Ledger.mem_erase.mp hother).2
    | ignore hask hfree => exact hs.silent (by simp)
  | finish hfind => exact (hs.finish hfind).silent (by simp)
  | vanish ticket => exact (hs.vanish ticket).silent (by simp)
  | settle hqueue hfind => exact (hs.settle hqueue).silent (by simp)
  | @drop completion rest hqueue hfree =>
    -- Nothing is in flight under the id, so dropping the completion is like settling nothing.
    have hsettled : Traced e events { s with
        queue := rest, ledger := s.ledger.erase completion.id } := hs.settle hqueue
    rw [Ledger.erase_eq_self hfree] at hsettled
    exact hsettled.silent (by simp)
  | sweep now =>
    refine (hs.abortAll hs.distinct.expire ?_ ?_).silent (by simp [State.sweepEvents])
    · intro entry hentry
      exact (Ledger.mem_kept.mp hentry).1
    · intro ticket hticket
      obtain ⟨⟨id, a⟩, hdue, rfl⟩ := List.mem_map.mp hticket
      obtain ⟨gone, hgone, hdeadline, -, hpayload⟩ := Ledger.mem_expired.mp hdue
      refine ⟨gone, hgone, hpayload, ?_⟩
      intro entry hentry hid
      -- An id has one entry, and that is due or it is not.
      obtain ⟨hentry, hlater⟩ := Ledger.mem_kept.mp hentry
      rw [hs.distinct.eq_of_id_eq hentry hgone hid] at hlater
      omega
  | close =>
    have hclosed : Traced e events s.closeInput :=
      ⟨hs.distinct, hs.ticket_lt, hs.ticket_unique, hs.task, hs.completion, hs.entry⟩
    exact hclosed.silent (by simp)

/-- **Every run is traced.** -/
theorem Run.traced {input : List Text} {m : Machine} (h : Run e input events m) :
    Traced e events m.state := by
  induction h with
  | start => exact .start
  | step hrun hstep ih => exact hstep.change.traced ih

end Serve

end AnchoredEdit
