/-
`Proofs/Serve/Independence.lean` -- what one client gets does not depend on the others.

All requests share one ledger, one queue and one output. Still, what is answered under an id is a
function of the lines that concern the id: requests with this id, and requests to cancel it. In a
batch that can be said outright, because when a task ends does not decide what its id is used for
next.

The proof is by what can be seen under the id, which is the responses with it and the applications
that run under it. A line that does not concern the id leaves the view as it is. A line that does
concern it asks the ledger for this id only, so two states with the same view still have the same
view after it. Reading a whole input therefore shows what reading its own lines alone would show,
and once the input is read, what is written or on the way under the id stays the same.
-/
import AnchoredEdit.Proofs.Serve.Batch

set_option autoImplicit false

namespace AnchoredEdit

namespace Serve

variable {e : Engine} {s s' : State} {input input' : List Text} {m : Machine} {k : Int}
  {line : Text}

/-! ## 1. Lines that concern an id -/

/-- The line is a request with the id `k`, or a valid request to cancel `k`. -/
def concerns (k : Int) (line : Text) : Bool :=
  match Request.parse line with
  | .error _ => false
  | .ok request =>
    request.id = some k ||
      match request.call with
      | .ok (.cancel id) => id = k
      | _ => false

theorem concerns_iff : concerns k line = true ↔ ∃ request, Request.parse line = .ok request
    ∧ (request.id = some k ∨ request.call = .ok (.cancel k)) := by
  unfold concerns
  cases Request.parse line with
  | error err => simp
  | ok request =>
    simp only [Except.ok.injEq, exists_eq_left', Bool.or_eq_true, decide_eq_true_eq]
    refine or_congr_right ?_
    cases request.call with
    | error err => simp
    | ok call => cases call <;> simp

/-- The verdict answers under `k`, starts a task under `k` or abandons the request under `k`. -/
def Verdict.isFor (k : Int) : Verdict → Bool
  | respond r => r.id = some k
  | register id _ => id = k
  | cancel id => id = k

theorem of_isFor_judge {inFlight : Int → Bool} {id : Option Int} {call : Call}
    (h : (judge inFlight id call).isFor k = true) : id = some k ∨ call = .cancel k := by
  cases call with
  | mods => exact .inl (of_decide_eq_true h)
  | cancel target => exact .inr (congrArg Call.cancel (of_decide_eq_true h))
  | apply p =>
    left
    cases id with
    | none => cases h
    | some n =>
      simp only [judge] at h
      split at h
      · exact of_decide_eq_true h
      · exact congrArg some (of_decide_eq_true h)

/-- **Only lines that concern an id do something under it**, whatever is in flight. -/
theorem concerns_of_isFor {inFlight : Int → Bool}
    (h : (dispatch inFlight line).isFor k = true) : concerns k line = true := by
  rw [concerns_iff]
  unfold dispatch at h
  split at h
  · cases h
  · next request hparse =>
    refine ⟨request, hparse, ?_⟩
    split at h
    · exact .inl (of_decide_eq_true h)
    · next call hcall =>
      rcases of_isFor_judge h with hid | rfl
      · exact .inl hid
      · exact .inr hcall

/-- **A line that concerns an id asks for this id only.** -/
theorem dispatch_congr {inFlight inFlight' : Int → Bool} (hconcerns : concerns k line = true)
    (hk : inFlight k = inFlight' k) : dispatch inFlight line = dispatch inFlight' line := by
  obtain ⟨request, hparse, hrequest⟩ := concerns_iff.mp hconcerns
  simp only [dispatch, hparse]
  cases hcall : request.call with
  | error err => rfl
  | ok call =>
    cases call with
    | mods => rfl
    | cancel target => rfl
    | apply p =>
      -- An application concerns the id it comes with, and no other.
      have hid : request.id = some k := by
        rcases hrequest with hid | hcancel
        · exact hid
        · rw [hcall] at hcancel
          cases hcancel
      simp only [judge, hid, hk]

/-! ## 2. Views -/

/-- What can be seen under one id. -/
structure View where
  /-- The responses written under the id. -/
  responses : List Response
  /-- The applications that run under the id and that nobody aborted. -/
  running : List ApplyParams

/-- What can be seen under `k`. -/
def State.view (s : State) (k : Int) : View :=
  ⟨s.written.filter (·.id = some k), (s.running k).map (·.params)⟩

/-- What a verdict does to the view of `k`. -/
def View.obey (k : Int) (v : View) : Verdict → View
  | .respond r => if r.id = some k then { v with responses := v.responses ++ [r] } else v
  | .register id p => if id = k then { v with running := v.running ++ [p] } else v
  | .cancel id => if id = k then { v with running := [] } else v

theorem View.obey_of_isFor_eq_false {v : View} {verdict : Verdict}
    (h : verdict.isFor k = false) : v.obey k verdict = v := by
  cases verdict with
  | respond r => exact if_neg (of_decide_eq_false h)
  | register id p => exact if_neg (of_decide_eq_false h)
  | cancel id => exact if_neg (of_decide_eq_false h)

/-- With nothing in the queue, what runs under an id is what is in flight under it. -/
theorem State.Orderly.contains_eq (hs : s.Orderly e) (hqueue : s.queue = []) (k : Int) :
    s.ledger.contains k = !(s.view k).running.isEmpty := by
  have hcount := hs.count k
  rw [State.length_outstanding, State.completions, hqueue, List.filter_nil, List.length_nil,
    Nat.zero_add] at hcount
  rw [Bool.eq_iff_iff, Ledger.contains_iff, ← hcount, State.view]
  simp [List.length_pos_iff]

theorem State.view_write (s : State) (r : Response) (k : Int) :
    (s.write r).view k = (s.view k).obey k (.respond r) := by
  rw [View.obey, view, write, List.filter_append]
  by_cases hr : r.id = some k
  · simp [hr, view, running]
  · simp [hr, view, running]

theorem State.view_register (s : State) {id : Int} (deadline : Nat) (p : ApplyParams)
    (hfree : s.ledger.contains id = false) (k : Int) :
    (s.register id deadline p).view k = (s.view k).obey k (.register id p) := by
  have hregister : s.register id deadline p = s.enter id deadline p := by
    rw [register, Ledger.insert_eq_push hfree]
    rfl
  rw [hregister, View.obey, view, running_enter]
  by_cases hid : id = k
  · simp [hid, view, enter]
  · simp [hid, view, enter]

/-- Cancelling an id clears what runs under it, also if that is nothing. -/
theorem State.Orderly.view_cancel {events : List Event} (hs : s.Orderly e)
    (htraced : Traced e events s) (hqueue : s.queue = []) (id k : Int) :
    (s.cancel id).view k = (s.view k).obey k (.cancel id) := by
  rw [View.obey]
  cases hfind : s.ledger.find? id with
  | none =>
    have hcancel : s.cancel id = s := by
      simp only [State.cancel, Ledger.cancel, Ledger.complete, hfind, Option.map_none]
    rw [hcancel]
    split
    · next hid =>
      -- With nothing in flight under the id, the view has nothing to clear.
      have hnone := hs.contains_eq hqueue k
      rw [← hid, Ledger.contains, hfind] at hnone
      subst hid
      have hempty : (s.view id).running = [] := by simpa using hnone
      rw [← hempty]
    · rfl
  | some entry =>
    have hcancel : s.cancel id = s.withdraw id entry.payload := by
      simp only [State.cancel, Ledger.cancel, Ledger.complete, hfind, Option.map_some]
      rfl
    rw [hcancel, State.view, hs.running_withdraw htraced hfind]
    by_cases hid : id = k
    · rw [if_pos hid.symm, if_pos hid]
      rfl
    · rw [if_neg (Ne.symm hid), if_neg hid]
      rfl

/-- **What a line does to a view** is what its verdict says. -/
theorem Batch.view_readLine {rest : List Text} (h : Batch e input ⟨s, line :: rest⟩) (now : Nat)
    (k : Int) : (s.readLine e.config now line).view k
      = if line.allBlank then s.view k
        else (s.view k).obey k (dispatch s.ledger.contains line) := by
  rw [State.readLine]
  split
  · rfl
  · cases hverdict : dispatch s.ledger.contains line with
    | respond r => exact s.view_write r k
    | register id p =>
      obtain ⟨-, hfree⟩ := asks_of_dispatch_eq_register hverdict
      exact s.view_register _ p hfree k
    | cancel id =>
      obtain ⟨events, htraced⟩ := h.exists_traced
      exact h.orderly.view_cancel htraced (h.queue_eq_nil (List.cons_ne_nil _ _)) id k

/-! ## 3. Two inputs -/

/-- **Other lines are not seen.** -/
theorem Batch.view_of_concerns_eq_false {rest : List Text}
    (h : Batch e input ⟨s, line :: rest⟩) (hother : concerns k line = false) (now : Nat) :
    (s.readLine e.config now line).view k = s.view k := by
  rw [h.view_readLine]
  split
  · rfl
  · apply View.obey_of_isFor_eq_false
    rw [← Bool.not_eq_true]
    intro hfor
    rw [concerns_of_isFor hfor] at hother
    cases hother

/-- **Own lines are seen alike** where the same was seen before. -/
theorem Batch.view_congr {rest rest' : List Text} (h : Batch e input ⟨s, line :: rest⟩)
    (h' : Batch e input' ⟨s', line :: rest'⟩) (hown : concerns k line = true)
    (hview : s.view k = s'.view k) (now now' : Nat) :
    (s.readLine e.config now line).view k = (s'.readLine e.config now' line).view k := by
  have hinflight : s.ledger.contains k = s'.ledger.contains k := by
    have hqueue : s.queue = [] := h.queue_eq_nil (List.cons_ne_nil _ _)
    have hqueue' : s'.queue = [] := h'.queue_eq_nil (List.cons_ne_nil _ _)
    have hcontains : s.ledger.contains k = !(s.view k).running.isEmpty :=
      h.orderly.contains_eq hqueue k
    have hcontains' : s'.ledger.contains k = !(s'.view k).running.isEmpty :=
      h'.orderly.contains_eq hqueue' k
    rw [hcontains, hcontains', hview]
  rw [h.view_readLine, h'.view_readLine, hview, dispatch_congr hown hinflight]

/-- With nothing in the queue, a view tells what is to be expected. -/
theorem State.prospect_eq (hqueue : s.queue = []) (k : Int) :
    s.prospect e k = (s.view k).responses
      ++ (s.view k).running.map fun p => ⟨some k, e.replyTo p⟩ := by
  simp [prospect, outstanding, completions, hqueue, view]

/-- The state after reading only those of the lines that concern `k`. -/
def readOwn (c : Config) (k : Int) (lines : List Text) : State :=
  readAll c (lines.filter (concerns k)) {}

theorem queue_readAll (c : Config) (lines : List Text) (s : State) :
    (readAll c lines s).queue = s.queue := by
  induction lines generalizing s with
  | nil => rfl
  | cons line lines ih => exact (ih _).trans (s.readLine_keeps c 0 line).2

/-- **One more line shows what it shows among its own.** -/
theorem Batch.view_readOwn {before rest : List Text} (h : Batch e input ⟨s, line :: rest⟩)
    (hview : s.view k = (readOwn e.config k before).view k) (now : Nat) :
    (s.readLine e.config now line).view k = (readOwn e.config k (before ++ [line])).view k := by
  rw [readOwn, List.filter_append, List.filter_singleton]
  cases hown : concerns k line with
  | true =>
    have halone : Batch e (before.filter (concerns k) ++ [line])
        ⟨readOwn e.config k before, [line]⟩ := Batch.readEach .start
    rw [cond_true, readAll, List.foldl_append]
    exact h.view_congr halone hown hview now 0
  | false =>
    rw [cond_false, List.append_nil]
    exact (h.view_of_concerns_eq_false hown now).trans hview

/-- **What is written or on the way under an id** is what its own lines, as far as they are read,
make one expect. The induction needs the view while there are lines left to read. -/
theorem Batch.prospect_eq (h : Batch e input m) (k : Int) :
    ∃ before, input = before ++ m.input
      ∧ (m.input ≠ [] → m.state.view k = (readOwn e.config k before).view k)
      ∧ m.state.prospect e k = (readOwn e.config k before).prospect e k := by
  induction h with
  | start => exact ⟨[], rfl, fun _ => rfl, rfl⟩
  | @read s line rest now h ih =>
    -- Nothing has finished yet, so the view is all that is to be expected.
    obtain ⟨before, hinput, hview, -⟩ := ih
    have hread := h.view_readOwn (hview (List.cons_ne_nil _ _)) now
    refine ⟨before ++ [line], by rw [hinput, List.append_assoc]; rfl, fun _ => hread, ?_⟩
    have hqueue : (s.readLine e.config now line).queue = [] :=
      (s.readLine_keeps e.config now line).2.trans (h.queue_eq_nil (List.cons_ne_nil _ _))
    have hqueue' : (readOwn e.config k (before ++ [line])).queue = [] := queue_readAll _ _ _
    dsimp only
    rw [State.prospect_eq hqueue, State.prospect_eq hqueue', hread]
  | close h hopen ih => exact ih
  | finish h hmem halive ih =>
    obtain ⟨before, hinput, -, hprospect⟩ := ih
    refine ⟨before, hinput, fun hne => absurd rfl hne, ?_⟩
    exact (h.orderly.prospect_finish h.distinct h.nodup_tickets hmem halive k).trans hprospect
  | @vanish s rest task h hmem haborted ih =>
    have hrunning := State.Orderly.running_vanish s task.ticket k
    obtain ⟨before, hinput, hview, hprospect⟩ := ih
    refine ⟨before, hinput, ?_, ?_⟩
    · intro hne
      rw [← hview hne, State.view, hrunning]
      rfl
    · rw [← hprospect, State.prospect, State.outstanding, hrunning]
      rfl
  | receive h hrunning hqueue ih =>
    obtain ⟨before, hinput, -, hprospect⟩ := ih
    refine ⟨before, hinput, fun hne => absurd rfl hne, ?_⟩
    obtain ⟨completion, rest, hqueue⟩ := List.exists_cons_of_ne_nil hqueue
    exact (h.orderly.prospect_receive h.distinct hqueue k).trans hprospect
  | sweep now h hrunning hearly ih =>
    dsimp only
    rw [State.sweep_eq_self e.config hearly]
    exact ih

/-- **What a batch answers under an id** is what its own lines alone make one expect. -/
theorem Batch.responses_eq (h : Batch e input ⟨s, []⟩) (hdone : s.done = true) (k : Int) :
    s.written.filter (·.id = some k) = (readOwn e.config k input).prospect e k := by
  obtain ⟨before, hinput, -, hprospect⟩ := h.prospect_eq k
  rw [List.append_nil] at hinput
  rw [hinput, ← hprospect]
  exact (h.orderly.prospect_of_done hdone k).symm

/-- **Requests with different ids do not influence each other.** Two inputs whose lines concerning
`k` are the same, in the same order, get the same responses under `k`, in the same order, whatever
else they contain and wherever it stands. This holds when `runBatch` runs them, and no matter when
lines are read, in which order tasks finish and when completions are received, as long as all
lines are read before any task runs and no deadline passes. -/
theorem responses_depend_on_own_lines (e : Engine) (k : Int)
    (hown : input.filter (concerns k) = input'.filter (concerns k)) :
    (runBatch e false input).filter (·.id = some k)
        = (runBatch e false input').filter (·.id = some k)
      ∧ ∀ s s', Batch e input ⟨s, []⟩ → s.done = true → Batch e input' ⟨s', []⟩ → s'.done = true →
          s.written.filter (·.id = some k) = s'.written.filter (·.id = some k) := by
  have hbatches : ∀ s s', Batch e input ⟨s, []⟩ → s.done = true → Batch e input' ⟨s', []⟩ →
      s'.done = true → s.written.filter (·.id = some k) = s'.written.filter (·.id = some k) := by
    intro s s' h hdone h' hdone'
    rw [h.responses_eq hdone, h'.responses_eq hdone', readOwn, readOwn, hown]
  obtain ⟨s, h, hdone, hwritten⟩ := exists_batch_runBatch e input
  obtain ⟨s', h', hdone', hwritten'⟩ := exists_batch_runBatch e input'
  refine ⟨?_, hbatches⟩
  rw [← hwritten, ← hwritten']
  exact hbatches s s' h hdone h' hdone'

/-- The lines of `sampleInput` among others: no request at all, a blank line, and applications under
another id, one of them cancelled. -/
def sampleCrowd : List Text :=
  ["no request".toList, Request.applyLine 2 sampleMove] ++ sampleInput.take 1
    ++ [[], (Json.obj [("method", .str "cancel"), ("params", .obj [("id", .ofInt 2)])]).compact,
      Request.applyLine 2 sampleReturn]
    ++ sampleInput.drop 1

theorem filter_sampleCrowd :
    sampleCrowd.filter (concerns 1) = sampleInput.filter (concerns 1) := by
  decide +kernel

/-- Both get one response under the id 1, and it is the same. -/
theorem responses_depend_on_own_lines_sampleCrowd :
    sampleCrowd.filter (concerns 1) = sampleInput.filter (concerns 1)
      ∧ ((runBatch sampleEngine false sampleInput).filter (·.id = some 1)).length = 1
      ∧ (runBatch sampleEngine false sampleCrowd).filter (·.id = some 1)
        = (runBatch sampleEngine false sampleInput).filter (·.id = some 1) :=
  ⟨filter_sampleCrowd, by decide +kernel,
    (responses_depend_on_own_lines sampleEngine 1 filter_sampleCrowd).1⟩

end Serve

end AnchoredEdit
