/-
`Proofs/Serve/Batch.lean` -- schedules that read everything first.

A batch is a run in which all lines are read before any task runs, and in which no deadline passes.
A task that is aborted before it runs never does, so in a batch the tasks that finish are those
that nobody aborted. That makes batches simpler than runs in general: for each entry of the ledger
there is exactly one thing on the way, its own task or the completion that task left. `Orderly` says
so, for every id at once.

What is written under an id together with what is on the way under it is settled once the input is
read. Tasks may then finish and completions be received in any order. `runBatch` picks one order.
-/
import AnchoredEdit.Proofs.Serve.Settlement
import Mathlib.Data.List.Nodup

set_option autoImplicit false

namespace AnchoredEdit

namespace Serve

variable {e : Engine} {s s' : State} {events new : List Event} {input : List Text} {m : Machine}
  {task : Task}

/-! ## 1. Tickets -/

theorem Change.nodup_tickets (h : Change e s new s') (hs : Traced e events s)
    (hnodup : (s.tasks.map (·.ticket)).Nodup) : (s'.tasks.map (·.ticket)).Nodup := by
  cases h with
  | skip => exact hnodup
  | read heffect =>
    cases heffect with
    | answer hother => exact hnodup
    | enter hask hfree =>
      rw [State.enter, List.map_append, List.nodup_append]
      refine ⟨hnodup, List.nodup_singleton _, ?_⟩
      -- The new ticket is above all that were given out before.
      intro ticket hticket other hother heq
      obtain ⟨task, htask, rfl⟩ := List.mem_map.mp hticket
      have hlt := hs.ticket_lt (hs.task task htask)
      rw [heq, List.mem_singleton.mp hother] at hlt
      exact Nat.lt_irrefl _ hlt
    | withdraw hask hfind =>
      rw [State.withdraw_eq, State.abortAll, List.map_map]
      simpa [Function.comp_def] using hnodup
    | ignore hask hfree => exact hnodup
  | finish hfind => exact (List.filter_sublist.map _).nodup hnodup
  | vanish ticket => exact (List.filter_sublist.map _).nodup hnodup
  | settle hqueue hfind => exact hnodup
  | drop hqueue hfree => exact hnodup
  | sweep now =>
    dsimp only [State.abortAll]
    rw [List.map_map]
    simpa [Function.comp_def] using hnodup
  | close => exact hnodup

/-- **A ticket is the number of one task.** -/
theorem Run.nodup_tickets (h : Run e input events m) :
    (m.state.tasks.map (·.ticket)).Nodup := by
  induction h with
  | start => exact List.nodup_nil
  | step hrun hstep ih => exact hstep.change.nodup_tickets hrun.traced ih

/-- The task that finishes is the one with the ticket. -/
theorem State.finish_eq (hnodup : (s.tasks.map (·.ticket)).Nodup) (hmem : task ∈ s.tasks) :
    s.finish e task.ticket = { s with
      tasks := s.tasks.filter (·.ticket ≠ task.ticket)
      queue := s.queue ++ [⟨task.id, e.replyTo task.params⟩] } := by
  have hfind : s.tasks.find? (·.ticket = task.ticket) = some task := by
    cases hfound : s.tasks.find? (·.ticket = task.ticket) with
    | none =>
      have hnone := List.find?_eq_none.mp hfound task hmem
      simp at hnone
    | some found =>
      have hticket : found.ticket = task.ticket := by simpa using List.find?_some hfound
      rw [List.inj_on_of_nodup_map hnodup (List.mem_of_find?_eq_some hfound) hmem hticket]
  rw [State.finish, hfind]
  rfl

/-! ## 2. Batches -/

/-- What a schedule comes to that reads all lines before any task runs and in which no deadline
passes. A task that is aborted before it runs never runs, so only the other ones finish. -/
inductive Batch (e : Engine) (input : List Text) : Machine → Prop
  | start : Batch e input ⟨{}, input⟩
  | read {s : State} {line : Text} {rest : List Text} (now : Nat)
      (h : Batch e input ⟨s, line :: rest⟩) : Batch e input ⟨s.readLine e.config now line, rest⟩
  | close {s : State} (h : Batch e input ⟨s, []⟩) (hopen : s.inputOpen = true) :
      Batch e input ⟨s.closeInput, []⟩
  | finish {s : State} {task : Task} (h : Batch e input ⟨s, []⟩) (hmem : task ∈ s.tasks)
      (halive : task.aborted = false) : Batch e input ⟨s.finish e task.ticket, []⟩
  | vanish {s : State} {rest : List Text} {task : Task} (h : Batch e input ⟨s, rest⟩)
      (hmem : task ∈ s.tasks) (haborted : task.aborted = true) :
      Batch e input ⟨s.vanish task.ticket, rest⟩
  | receive {s : State} (h : Batch e input ⟨s, []⟩) (hrunning : s.done = false)
      (hqueue : s.queue ≠ []) : Batch e input ⟨s.receive, []⟩
  | sweep {s : State} {rest : List Text} (now : Nat) (h : Batch e input ⟨s, rest⟩)
      (hrunning : s.done = false) (hearly : ∀ entry ∈ s.ledger.entries, now < entry.deadline) :
      Batch e input ⟨s.sweep e.config now, rest⟩

/-- Reading a line neither closes the input nor completes anything. -/
theorem State.readLine_keeps (c : Config) (now : Nat) (line : Text) (s : State) :
    (s.readLine c now line).inputOpen = s.inputOpen
      ∧ (s.readLine c now line).queue = s.queue := by
  cases hline : line.allBlank with
  | true =>
    rw [readLine, if_pos hline]
    exact ⟨rfl, rfl⟩
  | false =>
    obtain ⟨event, -, heffect⟩ := exists_lineEffect c now s hline
    generalize s.readLine c now line = s' at heffect
    cases heffect <;> exact ⟨rfl, rfl⟩

/-- A sweep that finds nothing due changes nothing. -/
theorem State.sweep_eq_self (c : Config) {now : Nat}
    (hearly : ∀ entry ∈ s.ledger.entries, now < entry.deadline) : s.sweep c now = s := by
  have hexpire : s.ledger.expire now = ([], s.ledger) := by
    have hdue : s.ledger.entries.filter (Ledger.isDue now) = [] := by
      rw [List.filter_eq_nil_iff]
      intro entry hentry
      simpa [Ledger.isDue] using hearly entry hentry
    have hkept : s.ledger.entries.filter (fun entry => !Ledger.isDue now entry)
        = s.ledger.entries := by
      rw [List.filter_eq_self]
      intro entry hentry
      simpa [Ledger.isDue] using hearly entry hentry
    rw [Ledger.expire, hdue, hkept, List.mergeSort_nil]
    rfl
  rw [State.sweep, hexpire]
  rfl

/-- **A batch is a run.** While lines are left, the input is open. -/
theorem Batch.run (h : Batch e input m) :
    (∃ events, Run e input events m) ∧ (m.input ≠ [] → m.state.inputOpen = true) := by
  induction h with
  | start => exact ⟨⟨_, .start⟩, fun _ => rfl⟩
  | read now h ih =>
    obtain ⟨⟨events, hrun⟩, hopen⟩ := ih
    have hopen := hopen (List.cons_ne_nil _ _)
    exact ⟨⟨_, hrun.step (.read now hopen)⟩, fun _ => (State.readLine_keeps _ _ _ _).1.trans hopen⟩
  | close h hopen ih =>
    obtain ⟨⟨events, hrun⟩, -⟩ := ih
    exact ⟨⟨_, hrun.step (.close hopen)⟩, fun hne => absurd rfl hne⟩
  | finish h hmem halive ih =>
    obtain ⟨⟨events, hrun⟩, -⟩ := ih
    exact ⟨⟨_, hrun.step (.finish hmem)⟩, fun hne => absurd rfl hne⟩
  | vanish h hmem haborted ih =>
    obtain ⟨⟨events, hrun⟩, hopen⟩ := ih
    exact ⟨⟨_, hrun.step (.vanish hmem haborted)⟩, hopen⟩
  | receive h hrunning hqueue ih =>
    obtain ⟨⟨events, hrun⟩, -⟩ := ih
    exact ⟨⟨_, hrun.step (.receive hrunning hqueue)⟩, fun hne => absurd rfl hne⟩
  | sweep now h hrunning hearly ih =>
    obtain ⟨⟨events, hrun⟩, hopen⟩ := ih
    refine ⟨⟨_, hrun.step (.sweep now hrunning)⟩, ?_⟩
    rw [State.sweep_eq_self e.config hearly]
    exact hopen

theorem Batch.exists_traced {rest : List Text} (h : Batch e input ⟨s, rest⟩) :
    ∃ events, Traced e events s := by
  obtain ⟨⟨events, hrun⟩, -⟩ := h.run
  exact ⟨events, hrun.traced⟩

theorem Batch.distinct {rest : List Text} (h : Batch e input ⟨s, rest⟩) : s.ledger.Distinct := by
  obtain ⟨events, htraced⟩ := h.exists_traced
  exact htraced.distinct

theorem Batch.nodup_tickets {rest : List Text} (h : Batch e input ⟨s, rest⟩) :
    (s.tasks.map (·.ticket)).Nodup := by
  obtain ⟨⟨events, hrun⟩, -⟩ := h.run
  exact hrun.nodup_tickets

/-! ## 3. What is on the way -/

namespace State

/-- The tasks under `id` that nobody aborted. -/
def running (s : State) (id : Int) : List Task :=
  s.tasks.filter fun task => task.id = id && !task.aborted

/-- The completions under `id`. -/
def completions (s : State) (id : Int) : List Completion :=
  s.queue.filter (·.id = id)

/-- What is on the way under `id`: the replies in the queue, and those of tasks to come. -/
def outstanding (e : Engine) (s : State) (id : Int) : List Reply :=
  (s.completions id).map (·.reply) ++ (s.running id).map fun task => e.replyTo task.params

/-- The responses under `id`, those written and those to come. -/
def prospect (e : Engine) (s : State) (id : Int) : List Response :=
  s.written.filter (·.id = some id) ++ (s.outstanding e id).map (⟨some id, ·⟩)

variable {id : Int}

theorem length_outstanding (e : Engine) (s : State) (id : Int) :
    (s.outstanding e id).length = (s.completions id).length + (s.running id).length := by
  rw [outstanding, List.length_append, List.length_map, List.length_map]

theorem mem_running : task ∈ s.running id ↔
    task ∈ s.tasks ∧ task.id = id ∧ task.aborted = false := by
  simp [running]

theorem running_enter (s : State) (k : Int) (deadline : Nat) (p : ApplyParams) (id : Int) :
    (s.enter k deadline p).running id
      = s.running id ++ if k = id then [⟨s.nextTicket, k, p, false⟩] else [] := by
  rw [running, enter, List.filter_append]
  by_cases hk : k = id <;> simp [running, hk]

theorem running_abortAll (s : State) (tickets : List Nat) (id : Int) :
    (s.abortAll tickets).running id = (s.running id).filter fun task => task.ticket ∉ tickets := by
  have hcounts : ∀ task : Task,
      ((task.abortedBy tickets).id = id && !(task.abortedBy tickets).aborted)
        = (decide (task.ticket ∉ tickets) && (task.id = id && !task.aborted)) := by
    intro task
    by_cases hmem : task.ticket ∈ tickets <;> simp [Task.abortedBy, hmem]
  rw [running, running, abortAll, List.filter_map, List.filter_filter]
  have hfilter : s.tasks.filter ((fun task => task.id = id && !task.aborted)
      ∘ (·.abortedBy tickets)) = s.tasks.filter fun task =>
        decide (task.ticket ∉ tickets) && (task.id = id && !task.aborted) := by
    congr 1
    funext task
    exact hcounts task
  -- The tasks that are left were not aborted, so they are as they were.
  rw [hfilter, ← List.map_id' (s.tasks.filter _), List.map_map]
  apply List.map_congr_left
  intro task htask
  rw [List.mem_filter, Bool.and_eq_true, decide_eq_true_eq] at htask
  exact Task.abortedBy_of_not_mem htask.2.1

end State

/-! ## 4. One thing for each entry -/

/-- For each entry there is one thing on the way, and a task that nobody aborted has an entry with
its ticket. -/
structure State.Orderly (e : Engine) (s : State) : Prop where
  ticket : ∀ task ∈ s.tasks, task.aborted = false →
    ∃ entry ∈ s.ledger.entries, entry.id = task.id ∧ entry.payload = task.ticket
  count : ∀ id, (s.outstanding e id).length = s.ledger.count id

namespace State.Orderly

variable {id : Int} {entry : Pending Nat}

theorem start : State.Orderly e {} where
  ticket := by simp
  count := fun _ => rfl

theorem enter (hs : s.Orderly e) (id : Int) (deadline : Nat) (p : ApplyParams) :
    (s.enter id deadline p).Orderly e where
  ticket := by
    intro task htask halive
    rcases List.mem_append.mp htask with htask | htask
    · obtain ⟨entry, hentry, hid, hticket⟩ := hs.ticket task htask halive
      exact ⟨entry, Ledger.mem_push.mpr (.inl hentry), hid, hticket⟩
    · rw [List.mem_singleton.mp htask]
      exact ⟨_, Ledger.mem_push.mpr (.inr rfl), rfl, rfl⟩
  count := by
    intro k
    rw [length_outstanding, running_enter, count_enter, ← hs.count k, length_outstanding]
    split
    · rw [List.length_append, ← Nat.add_assoc]
      rfl
    · rw [List.append_nil]
      rfl

/-- **Withdrawing an entry aborts what runs under its id**, and nothing else. -/
theorem running_withdraw (hs : s.Orderly e) (htraced : Traced e events s)
    (hfind : s.ledger.find? id = some entry) (k : Int) :
    (s.withdraw id entry.payload).running k = if k = id then [] else s.running k := by
  obtain ⟨hentry, hid⟩ := Ledger.mem_of_find? hfind
  have hrunning : (s.withdraw id entry.payload).running k
      = (s.running k).filter fun task => task.ticket ∉ [entry.payload] := by
    rw [← running_abortAll, withdraw_eq]
    rfl
  rw [hrunning]
  split
  · next hk =>
    -- What runs under the id has the ticket of an entry under it, and there is only this one.
    rw [List.filter_eq_nil_iff]
    intro task htask
    obtain ⟨hmem, htaskid, halive⟩ := mem_running.mp htask
    obtain ⟨other, hother, hotherid, hticket⟩ := hs.ticket task hmem halive
    have heq : other = entry :=
      htraced.distinct.eq_of_id_eq hother hentry (by rw [hotherid, htaskid, hk, hid])
    rw [heq] at hticket
    simp [hticket]
  · next hk =>
    rw [List.filter_eq_self]
    intro task htask
    obtain ⟨hmem, htaskid, -⟩ := mem_running.mp htask
    obtain ⟨p, hp, -⟩ := htraced.entry entry hentry
    have hne : task.ticket ≠ entry.payload := by
      intro hticket
      rw [htraced.id_of_ticket hp hmem hticket, hid] at htaskid
      exact hk htaskid.symm
    simpa using hne

theorem withdraw (hs : s.Orderly e) (htraced : Traced e events s) (hqueue : s.queue = [])
    (hfind : s.ledger.find? id = some entry) : (s.withdraw id entry.payload).Orderly e where
  ticket := by
    intro task htask halive
    have hrunning := hs.running_withdraw htraced hfind task.id
    have hmem : task ∈ (s.withdraw id entry.payload).running task.id :=
      mem_running.mpr ⟨htask, rfl, halive⟩
    rw [hrunning] at hmem
    split at hmem
    · cases hmem
    · next hid =>
      obtain ⟨hmem, -, halive⟩ := mem_running.mp hmem
      obtain ⟨other, hother, hotherid, hticket⟩ := hs.ticket task hmem halive
      refine ⟨other, Ledger.mem_erase.mpr ⟨hother, ?_⟩, hotherid, hticket⟩
      rw [hotherid]
      exact hid
  count := by
    intro k
    have hcount := hs.count k
    have hnone : (s.withdraw id entry.payload).completions k = [] := by
      rw [completions, State.withdraw, State.abort, hqueue]
      rfl
    rw [outstanding, hnone, hs.running_withdraw htraced hfind, count_withdraw]
    split
    · rfl
    · rw [outstanding, completions, hqueue] at hcount
      exact hcount

/-- Under an id there is at most one thing on the way. -/
theorem length_le_one (hs : s.Orderly e) (hd : s.ledger.Distinct) (k : Int) :
    (s.completions k).length + (s.running k).length ≤ 1 := by
  rw [← length_outstanding e, hs.count k]
  exact hd k

/-- **A task that finishes turns into its completion**: what is on the way stays the same. -/
theorem outstanding_finish (hs : s.Orderly e) (hd : s.ledger.Distinct)
    (hnodup : (s.tasks.map (·.ticket)).Nodup) (hmem : task ∈ s.tasks)
    (halive : task.aborted = false) (k : Int) :
    (s.finish e task.ticket).outstanding e k = s.outstanding e k := by
  have hfinish := State.finish_eq (e := e) hnodup hmem
  have hrunning : (s.finish e task.ticket).running k
      = (s.running k).filter (·.ticket ≠ task.ticket) := by
    rw [hfinish, running, running, List.filter_comm]
  have hcompletions : (s.finish e task.ticket).completions k
      = s.completions k ++ if task.id = k then [⟨task.id, e.replyTo task.params⟩] else [] := by
    rw [hfinish, completions, completions, List.filter_append]
    by_cases hk : task.id = k <;> simp [hk]
  rw [outstanding, hrunning, hcompletions]
  by_cases hk : task.id = k
  · -- It is the one thing on the way under its id.
    have hle := hs.length_le_one hd k
    have hin : task ∈ s.running k := mem_running.mpr ⟨hmem, hk, halive⟩
    have hpos := List.length_pos_of_mem hin
    have hnone : s.completions k = [] := List.length_eq_zero_iff.mp (by omega)
    obtain ⟨only, honly⟩ := List.length_eq_one_iff.mp
      (show (s.running k).length = 1 by omega)
    rw [honly, List.mem_singleton] at hin
    subst hin
    simp [outstanding, hnone, honly, hk]
  · rw [if_neg hk, List.append_nil, List.filter_eq_self.mpr, outstanding]
    intro other hother
    obtain ⟨hothermem, hotherid, -⟩ := mem_running.mp hother
    have hne : other.ticket ≠ task.ticket := by
      intro hticket
      rw [List.inj_on_of_nodup_map hnodup hothermem hmem hticket] at hotherid
      exact hk hotherid
    simpa using hne

theorem prospect_finish (hs : s.Orderly e) (hd : s.ledger.Distinct)
    (hnodup : (s.tasks.map (·.ticket)).Nodup) (hmem : task ∈ s.tasks)
    (halive : task.aborted = false) (k : Int) :
    (s.finish e task.ticket).prospect e k = s.prospect e k := by
  rw [prospect, hs.outstanding_finish hd hnodup hmem halive, State.finish_eq hnodup hmem, prospect]

theorem finish (hs : s.Orderly e) (hd : s.ledger.Distinct)
    (hnodup : (s.tasks.map (·.ticket)).Nodup) (hmem : task ∈ s.tasks)
    (halive : task.aborted = false) : (s.finish e task.ticket).Orderly e where
  ticket := by
    rw [State.finish_eq hnodup hmem]
    intro other hother
    exact hs.ticket other (List.mem_filter.mp hother).1
  count := by
    intro k
    rw [hs.outstanding_finish hd hnodup hmem halive, hs.count, State.finish_eq hnodup hmem]

theorem running_vanish (s : State) (ticket : Nat) (k : Int) :
    (s.vanish ticket).running k = s.running k := by
  rw [running, vanish, List.filter_filter, running]
  congr 1
  funext task
  cases task.aborted <;> simp

theorem vanish (hs : s.Orderly e) (ticket : Nat) : (s.vanish ticket).Orderly e where
  ticket := fun task htask => hs.ticket task (List.mem_filter.mp htask).1
  count := by
    intro k
    rw [outstanding, running_vanish]
    exact hs.count k

/-- A completion in the queue has an entry. -/
theorem exists_find? (hs : s.Orderly e) {completion : Completion}
    (hmem : completion ∈ s.queue) : ∃ entry, s.ledger.find? completion.id = some entry := by
  have hcount := hs.count completion.id
  have hin : completion ∈ s.completions completion.id := by simp [completions, hmem]
  have hpos := List.length_pos_of_mem hin
  rw [length_outstanding] at hcount
  cases hfind : s.ledger.find? completion.id with
  | none =>
    rw [Ledger.find?_eq_none_iff] at hfind
    omega
  | some entry => exact ⟨entry, rfl⟩

/-- What receiving a completion comes to when each one has an entry. -/
theorem receive_eq (hs : s.Orderly e) {completion : Completion} {rest : List Completion}
    (hqueue : s.queue = completion :: rest) :
    s.receive = { s with
      queue := rest
      ledger := s.ledger.erase completion.id
      written := s.written ++ [⟨some completion.id, completion.reply⟩] } := by
  obtain ⟨entry, hfind⟩ := hs.exists_find? (hqueue ▸ List.mem_cons_self)
  simp only [State.receive, hqueue, Ledger.complete, hfind, Option.map_some]
  rfl

theorem completions_cons {completion : Completion} {rest : List Completion}
    (hqueue : s.queue = completion :: rest) (k : Int) : s.completions k
      = (if completion.id = k then [completion] else []) ++ rest.filter (·.id = k) := by
  rw [completions, hqueue, List.filter_cons]
  by_cases hk : completion.id = k <;> simp [hk]

/-- A completion is the one thing on the way under its id. -/
theorem alone (hs : s.Orderly e) (hd : s.ledger.Distinct) {completion : Completion}
    {rest : List Completion} (hqueue : s.queue = completion :: rest) :
    rest.filter (·.id = completion.id) = [] ∧ s.running completion.id = [] := by
  have hle := hs.length_le_one hd completion.id
  rw [completions_cons hqueue, if_pos rfl, List.length_append, List.length_singleton] at hle
  constructor
  · exact List.length_eq_zero_iff.mp (by omega)
  · exact List.length_eq_zero_iff.mp (by omega)

theorem receive (hs : s.Orderly e) (hd : s.ledger.Distinct) {completion : Completion}
    {rest : List Completion} (hqueue : s.queue = completion :: rest) : s.receive.Orderly e := by
  obtain ⟨hrest, hrunning⟩ := hs.alone hd hqueue
  rw [hs.receive_eq hqueue]
  constructor
  case ticket =>
    intro task htask halive
    obtain ⟨entry, hentry, hid, hticket⟩ := hs.ticket task htask halive
    -- The entry that goes is under the id of the completion, and there nothing runs.
    refine ⟨entry, Ledger.mem_erase.mpr ⟨hentry, ?_⟩, hid, hticket⟩
    intro hsame
    have hin : task ∈ s.running completion.id :=
      mem_running.mpr ⟨htask, hid.symm.trans hsame, halive⟩
    rw [hrunning] at hin
    cases hin
  case count =>
    intro k
    have hcount := hs.count k
    rw [outstanding, completions_cons hqueue] at hcount
    show ((rest.filter (·.id = k)).map (·.reply)
      ++ (s.running k).map fun task => e.replyTo task.params).length = (s.ledger.erase _).count k
    rw [Ledger.count_erase]
    by_cases hk : completion.id = k
    · subst hk
      rw [hrest, hrunning, if_pos rfl]
      rfl
    · rw [if_neg hk] at hcount
      rw [if_neg (Ne.symm hk)]
      exact hcount

/-- **A completion that is received turns into its response.** -/
theorem prospect_receive (hs : s.Orderly e) (hd : s.ledger.Distinct) {completion : Completion}
    {rest : List Completion} (hqueue : s.queue = completion :: rest) (k : Int) :
    s.receive.prospect e k = s.prospect e k := by
  obtain ⟨hrest, hrunning⟩ := hs.alone hd hqueue
  rw [hs.receive_eq hqueue]
  show (s.written ++ [(⟨some completion.id, completion.reply⟩ : Response)]).filter
      (·.id = some k) ++ ((rest.filter (·.id = k)).map (·.reply)
        ++ (s.running k).map fun task => e.replyTo task.params).map (⟨some k, ·⟩) = _
  rw [prospect, outstanding, completions_cons hqueue, List.filter_append]
  by_cases hk : completion.id = k
  · subst hk
    simp [hrest, hrunning]
  · simp [hk]

end State.Orderly

/-! ## 5. Batches are orderly -/

/-- While lines are left, nothing has finished. -/
theorem Batch.queue_eq_nil (h : Batch e input m) (hinput : m.input ≠ []) :
    m.state.queue = [] := by
  induction h with
  | start => rfl
  | @read s line rest now h ih =>
    exact (s.readLine_keeps e.config now line).2.trans (ih (List.cons_ne_nil _ _))
  | close h hopen ih => exact absurd rfl hinput
  | finish h hmem halive ih => exact absurd rfl hinput
  | vanish h hmem haborted ih => exact ih hinput
  | receive h hrunning hqueue ih => exact absurd rfl hinput
  | sweep now h hrunning hearly ih =>
    rw [State.sweep_eq_self e.config hearly]
    exact ih hinput

/-- What the trace of a run says, and what is special to batches. -/
theorem Batch.orderly (h : Batch e input m) : m.state.Orderly e := by
  induction h with
  | start => exact .start
  | @read s line rest now h ih =>
    obtain ⟨events, htraced⟩ := h.exists_traced
    have hqueue : s.queue = [] := h.queue_eq_nil (List.cons_ne_nil _ _)
    cases hline : line.allBlank with
    | true =>
      dsimp only
      rw [State.readLine, if_pos hline]
      exact ih
    | false =>
      obtain ⟨event, -, heffect⟩ := exists_lineEffect e.config now s hline
      dsimp only
      generalize s.readLine e.config now line = s' at heffect
      cases heffect with
      | answer hother => exact ⟨ih.ticket, ih.count⟩
      | enter hask hfree => exact ih.enter _ _ _
      | withdraw hask hfind => exact ih.withdraw htraced hqueue hfind
      | ignore hask hfree => exact ih
  | close h hopen ih => exact ⟨ih.ticket, ih.count⟩
  | finish h hmem halive ih => exact ih.finish h.distinct h.nodup_tickets hmem halive
  | vanish h hmem haborted ih => exact ih.vanish _
  | receive h hrunning hqueue ih =>
    obtain ⟨completion, rest, hqueue⟩ := List.exists_cons_of_ne_nil hqueue
    exact ih.receive h.distinct hqueue
  | sweep now h hrunning hearly ih =>
    dsimp only
    rw [State.sweep_eq_self e.config hearly]
    exact ih

/-- When the loop has nothing left to wait for, everything that was to come is written. -/
theorem State.Orderly.prospect_of_done (hs : s.Orderly e) (hdone : s.done = true) (k : Int) :
    s.prospect e k = s.written.filter (·.id = some k) := by
  have hcount := hs.count k
  rw [Ledger.contains_eq_false_iff.mp (State.contains_of_done hdone k)] at hcount
  rw [State.prospect, List.length_eq_zero_iff.mp hcount, List.map_nil, List.append_nil]

/-! ## 6. One batch -/

namespace Batch

theorem inputOpen_readAll (c : Config) (lines : List Text) (s : State) :
    (readAll c lines s).inputOpen = s.inputOpen := by
  induction lines generalizing s with
  | nil => rfl
  | cons line lines ih => exact (ih _).trans (s.readLine_keeps c 0 line).1

/-- All lines are read at the time zero. -/
theorem readEach {lines rest : List Text} (h : Batch e input ⟨s, lines ++ rest⟩) :
    Batch e input ⟨readAll e.config lines s, rest⟩ := by
  induction lines generalizing s with
  | nil => exact h
  | cons line lines ih => exact ih (h.read 0)

/-- Tasks finish one after the other, and then none of them is left. -/
theorem finishEach (tasks : List Task) (h : Batch e input ⟨s, []⟩)
    (hmem : ∀ task ∈ tasks, task ∈ s.tasks ∧ task.aborted = false)
    (hnodup : (tasks.map (·.ticket)).Nodup) :
    ∃ s', tasks.foldl (fun s task => s.finish e task.ticket) s = s' ∧ Batch e input ⟨s', []⟩
      ∧ (∀ task ∈ s'.tasks, task ∈ s.tasks ∧ task ∉ tasks) ∧ s'.inputOpen = s.inputOpen := by
  induction tasks generalizing s with
  | nil => exact ⟨s, rfl, h, fun task htask => ⟨htask, List.not_mem_nil⟩, rfl⟩
  | cons task tasks ih =>
    obtain ⟨hin, halive⟩ := hmem task List.mem_cons_self
    rw [List.map_cons, List.nodup_cons] at hnodup
    have hfinish := State.finish_eq (e := e) h.nodup_tickets hin
    have hstep := h.finish hin halive
    rw [hfinish] at hstep
    obtain ⟨s', hfold, hbatch, hleft, hopen⟩ := ih hstep (by
      intro other hother
      obtain ⟨hotherin, hotheralive⟩ := hmem other (List.mem_cons_of_mem _ hother)
      refine ⟨List.mem_filter.mpr ⟨hotherin, decide_eq_true ?_⟩, hotheralive⟩
      intro hticket
      apply hnodup.1
      rw [← hticket]
      exact List.mem_map_of_mem hother) hnodup.2
    refine ⟨s', ?_, hbatch, ?_, hopen⟩
    · rw [List.foldl_cons, hfinish]
      exact hfold
    · intro other hother
      obtain ⟨hotherin, hnot⟩ := hleft other hother
      obtain ⟨hotherin, hne⟩ := List.mem_filter.mp hotherin
      refine ⟨hotherin, ?_⟩
      rw [List.mem_cons, not_or]
      refine ⟨?_, hnot⟩
      rintro rfl
      exact of_decide_eq_true hne rfl

/-- Completions are received one after the other. -/
theorem receiveEach {queue : List Completion} (h : Batch e input ⟨s, []⟩)
    (hqueue : s.queue = queue) :
    ∃ s', queue.foldl (fun s _ => s.receive) s = s' ∧ Batch e input ⟨s', []⟩
      ∧ s'.queue = [] ∧ s'.tasks = s.tasks ∧ s'.inputOpen = s.inputOpen := by
  induction queue generalizing s with
  | nil => exact ⟨s, rfl, h, hqueue, rfl, rfl⟩
  | cons completion rest ih =>
    -- The completion has an entry, so the loop still waits for something.
    have hrunning : s.done = false := by
      obtain ⟨entry, hfind⟩ := h.orderly.exists_find? (hqueue ▸ List.mem_cons_self)
      rw [← Bool.not_eq_true]
      intro hdone
      have hnone := State.contains_of_done hdone completion.id
      rw [Ledger.contains, hfind] at hnone
      cases hnone
    have hstep := h.receive hrunning (by rw [hqueue]; exact List.cons_ne_nil _ _)
    have hreceive := h.orderly.receive_eq hqueue
    rw [hreceive] at hstep
    obtain ⟨s', hfold, hbatch, hempty, htasks, hopen⟩ := ih hstep rfl
    refine ⟨s', ?_, hbatch, hempty, htasks, hopen⟩
    rw [List.foldl_cons, hreceive]
    exact hfold

end Batch

/-- With nothing on the way, nothing is in flight. -/
theorem State.Orderly.isEmpty (hs : s.Orderly e) (hqueue : s.queue = [])
    (htasks : ∀ task ∈ s.tasks, task.aborted = true) : s.ledger.isEmpty = true := by
  rw [Ledger.isEmpty, List.isEmpty_iff, List.eq_nil_iff_forall_not_mem]
  intro entry hentry
  have hpos : 0 < s.ledger.count entry.id := Ledger.count_pos_iff.mpr ⟨entry, hentry, rfl⟩
  have hrunning : s.running entry.id = [] := by
    rw [State.running, List.filter_eq_nil_iff]
    intro task htask
    simp [htasks task htask]
  rw [← hs.count, State.outstanding, State.completions, hqueue, hrunning] at hpos
  exact Nat.lt_irrefl 0 hpos

/-- **`runBatch` is a batch that is done.** -/
theorem exists_batch_runBatch (e : Engine) (input : List Text) :
    ∃ s, Batch e input ⟨s, []⟩ ∧ s.done = true ∧ s.written = runBatch e false input := by
  have hread : Batch e input ⟨readAll e.config input {}, []⟩ :=
    Batch.readEach (by rw [List.append_nil]; exact .start)
  have hclosed := hread.close (Batch.inputOpen_readAll e.config input {})
  obtain ⟨finished, hfinished, hbatch, hleft, hshut⟩ := hclosed.finishEach
    ((readAll e.config input {}).closeInput.tasks.filter (!·.aborted)) (by
      intro task htask
      simpa using htask) ((List.filter_sublist.map _).nodup hclosed.nodup_tickets)
  obtain ⟨last, hlast, hbatch, hqueue, htasks, hopen⟩ := hbatch.receiveEach rfl
  refine ⟨last, hbatch, ?_, ?_⟩
  · have haborted : ∀ task ∈ last.tasks, task.aborted = true := by
      intro task htask
      rw [htasks] at htask
      obtain ⟨hin, hnot⟩ := hleft task htask
      rw [List.mem_filter, not_and] at hnot
      simpa using hnot hin
    rw [State.done, hopen, hshut, hbatch.orderly.isEmpty hqueue haborted]
    rfl
  · rw [← hlast, ← hfinished]
    rfl

end Serve

end AnchoredEdit
