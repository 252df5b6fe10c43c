/-
`Proofs/Serve/Account.lean` -- what enters a ledger, and what becomes of it.

An entry leaves a ledger by one of three routes: it is completed, it is given up, or a sweep finds
its deadline passed. The account of a history is that nothing gets lost or doubled on any of them,
also when ids are used again: what entered is, with multiplicity, what was handed out and what is
still there. One operation balances because ids are distinct, so the entry under an id is the only
one and taking it out leaves all others; a history balances because each of its operations does.

A sweep is the one operation that takes out several entries. It may as well look up which ids are
due, in whatever order they come, take them out one after the other and sort what it got: that is
the same, because an entry that is taken out takes no other with it and because entries with
distinct ids can be sorted by id in one way only.
-/
import AnchoredEdit.Proofs.Serve.Ledger

set_option autoImplicit false

namespace AnchoredEdit

/-- The entry as its owner gets it back, without the deadline. -/
def Pending.pair {α : Type} (entry : Pending α) : Int × α :=
  (entry.id, entry.payload)

namespace Ledger

open scoped List

variable {α : Type} {l : Ledger α} {id : Int} {entry : Pending α} {now : Nat}

/-- The ids that are in flight, each with what was entered under it. -/
def pairs (l : Ledger α) : List (Int × α) :=
  l.entries.map Pending.pair

/-- What the entry under `id` hands out, if there is one. -/
def handOut (id : Int) (payload : Option α) : List (Int × α) :=
  (payload.map fun a => (id, a)).toList

/-! ## 1. One id -/

theorem Distinct.nodup_ids (h : l.Distinct) : (l.entries.map (·.id)).Nodup := by
  rw [List.nodup_iff_count]
  intro id
  rw [List.count_eq_countP, List.countP_map]
  exact h id

/-- **The entry under an id is the only one.** -/
theorem Distinct.filter_eq_toList (h : l.Distinct) (id : Int) :
    l.entries.filter (·.id = id) = (l.find? id).toList := by
  have hlength : (l.entries.filter (·.id = id)).length ≤ 1 := by
    rw [← List.countP_eq_length_filter]
    exact h id
  rw [find?, ← List.head?_filter]
  generalize l.entries.filter (·.id = id) = under at hlength
  cases under with
  | nil => rfl
  | cons first others =>
    cases others with
    | nil => rfl
    | cons second rest =>
      simp only [List.length_cons] at hlength
      omega

/-- Taking out the entry under an id leaves all others. -/
theorem Distinct.perm_complete (h : l.Distinct) (id : Int) :
    (handOut id (l.complete id).1 ++ (l.complete id).2.pairs).Perm l.pairs := by
  have hout : handOut id (l.complete id).1 = (l.entries.filter (·.id = id)).map Pending.pair := by
    rw [h.filter_eq_toList, complete]
    cases hfind : l.find? id with
    | none => rfl
    | some entry =>
      rw [← (mem_of_find? hfind).2]
      rfl
  have hsplit := List.filter_append_perm (fun entry : Pending α => entry.id = id) l.entries
  have hkept : (l.complete id).2.entries
      = l.entries.filter fun entry => !decide (entry.id = id) := by
    simp [complete, Ledger.erase]
  rw [pairs, hout, hkept, ← List.map_append]
  exact hsplit.map Pending.pair

/-! ## 2. Sweeps -/

/-- What a sweep hands out and what it keeps are all there was. -/
theorem perm_expire (l : Ledger α) (now : Nat) :
    ((l.expire now).1 ++ (l.expire now).2.pairs).Perm l.pairs := by
  have hdue : (l.expire now).1.Perm ((l.entries.filter (isDue now)).map Pending.pair) :=
    (List.mergeSort_perm _ _).map Pending.pair
  have hsplit := List.filter_append_perm (isDue now) l.entries
  calc (l.expire now).1 ++ (l.expire now).2.pairs
      ~ (l.entries.filter (isDue now)).map Pending.pair ++ (l.expire now).2.pairs :=
        hdue.append_right _
    _ = (l.entries.filter (isDue now) ++ l.entries.filter fun entry => !isDue now entry).map
          Pending.pair := List.map_append.symm
    _ ~ l.pairs := hsplit.map Pending.pair

theorem pairwise_mergeSort_key {β : Type} (key : β → Int) (l : List β) :
    (l.mergeSort fun a b => key a ≤ key b).Pairwise fun a b => key a ≤ key b := by
  refine (List.pairwise_mergeSort ?_ ?_ l).imp of_decide_eq_true
  · simp only [decide_eq_true_eq]
    omega
  · simp only [Bool.or_eq_true, decide_eq_true_eq]
    omega

/-- What a sweep hands out is sorted by id, and no id comes twice. -/
theorem Distinct.pairwise_expired (h : l.Distinct) (now : Nat) :
    (l.expire now).1.Pairwise fun a b => a.1 < b.1 := by
  have hids : ((l.entries.filter (isDue now)).map (·.id)).Nodup :=
    (List.filter_sublist.map _).nodup h.nodup_ids
  rw [List.Nodup, List.pairwise_map] at hids
  have hapart := hids.perm (List.mergeSort_perm _ fun a b => a.id ≤ b.id).symm Ne.symm
  have hsorted := pairwise_mergeSort_key Pending.id (l.entries.filter (isDue now))
  rw [Ledger.expire, List.pairwise_map]
  refine (hsorted.and hapart).imp ?_
  rintro a b ⟨hle, hne⟩
  exact Int.lt_iff_le_and_ne.mpr ⟨hle, hne⟩

/-- Takes out the entries under the given ids, one after the other. -/
def completeAll : List Int → Ledger α → List (Int × α) × Ledger α
  | [], l => ([], l)
  | id :: ids, l =>
    let rest := completeAll ids (l.complete id).2
    (handOut id (l.complete id).1 ++ rest.1, rest.2)

theorem completeAll_snd (ids : List Int) (l : Ledger α) :
    (completeAll ids l).2 = ⟨l.entries.filter fun entry => entry.id ∉ ids⟩ := by
  induction ids generalizing l with
  | nil =>
    have hall : l.entries.filter (fun entry => entry.id ∉ []) = l.entries := by simp
    rw [hall]
    rfl
  | cons id ids ih =>
    rw [completeAll, ih, complete, erase, List.filter_filter]
    congr 2
    funext entry
    simp [Bool.and_comm]

theorem Distinct.perm_completeAll (h : l.Distinct) (ids : List Int) :
    (completeAll ids l).1 ++ (completeAll ids l).2.pairs ~ l.pairs := by
  induction ids generalizing l with
  | nil => exact .refl _
  | cons id ids ih =>
    rw [completeAll]
    dsimp only
    rw [List.append_assoc]
    exact ((ih (h.erase id)).append_left _).trans (h.perm_complete id)

/-- **A sweep may take out what is due in any order**, one entry after the other, if it sorts what
it gets. -/
theorem Distinct.expire_eq_completeAll (h : l.Distinct) {ids : List Int}
    (hids : ids ~ (l.entries.filter (isDue now)).map (·.id)) :
    l.expire now
      = ((completeAll ids l).1.mergeSort fun a b => a.1 ≤ b.1, (completeAll ids l).2) := by
  have hkept : (completeAll ids l).2 = (l.expire now).2 := by
    rw [completeAll_snd, Ledger.expire]
    congr 1
    apply List.filter_congr
    intro entry hentry
    -- The id of an entry is among the ids that are due if the entry is: no other one has it.
    have hdue : entry.id ∈ ids ↔ isDue now entry = true := by
      rw [hids.mem_iff, List.mem_map]
      constructor
      · rintro ⟨other, hother, hid⟩
        obtain ⟨hother, hdue⟩ := List.mem_filter.mp hother
        rwa [h.eq_of_id_eq hentry hother hid.symm]
      · intro hdue
        exact ⟨entry, List.mem_filter.mpr ⟨hentry, hdue⟩, rfl⟩
    simp [hdue]
  -- Both ways split the same entries and keep the same ones, so they hand out the same.
  have hout : (completeAll ids l).1 ~ (l.expire now).1 := by
    have hsplit := (h.perm_completeAll ids).trans (perm_expire l now).symm
    rw [hkept] at hsplit
    exact (List.perm_append_right_iff _).mp hsplit
  have hsorted := pairwise_mergeSort_key Prod.fst (completeAll ids l).1
  have hexpired : (l.expire now).1.Pairwise fun a b => a.1 ≤ b.1 :=
    (h.pairwise_expired now).imp Int.le_of_lt
  have hsort : (completeAll ids l).1.mergeSort (fun a b => a.1 ≤ b.1) = (l.expire now).1 := by
    refine List.Perm.eq_of_pairwise ?_ hsorted hexpired ((List.mergeSort_perm _ _).trans hout)
    -- Two pairs with one id come from one entry, so sorting by id leaves no choice.
    intro a b ha hb hab hba
    rw [List.mem_mergeSort, hout.mem_iff] at ha
    obtain ⟨entry, hentry, -, haid, hapayload⟩ := mem_expired.mp ha
    obtain ⟨other, hother, -, hbid, hbpayload⟩ := mem_expired.mp hb
    have heq : entry = other := h.eq_of_id_eq hentry hother (by omega)
    rw [Prod.ext_iff, ← haid, ← hbid, ← hapayload, ← hbpayload, heq]
    exact ⟨rfl, rfl⟩
  rw [hsort, hkept]

/-! ## 3. Histories -/

/-- What can be asked of a ledger. -/
inductive Op (α : Type) where
  | insert (id : Int) (deadline : Nat) (payload : α)
  | complete (id : Int)
  | cancel (id : Int)
  | expire (now : Nat)

/-- A ledger, with all that entered it and all that was handed out. -/
structure History (α : Type) where
  ledger : Ledger α := {}
  entered : List (Int × α) := []
  left : List (Int × α) := []

namespace History

/-- Performs one operation. An entry that is refused changes nothing. -/
def perform (h : History α) : Op α → History α
  | .insert id deadline payload =>
    match h.ledger.insert id deadline payload with
    | .error _ => h
    | .ok ledger => { h with ledger, entered := h.entered ++ [(id, payload)] }
  | .complete id =>
    { h with
      ledger := (h.ledger.complete id).2
      left := h.left ++ handOut id (h.ledger.complete id).1 }
  | .cancel id =>
    { h with
      ledger := (h.ledger.cancel id).2
      left := h.left ++ handOut id (h.ledger.cancel id).1 }
  | .expire now =>
    { h with
      ledger := (h.ledger.expire now).2
      left := h.left ++ (h.ledger.expire now).1 }

/-- Performs operations one after the other, on a ledger without entries. -/
def run (ops : List (Op α)) : History α :=
  ops.foldl perform {}

/-- No id is in use twice, and what entered was handed out or is still there. -/
structure Balanced (h : History α) : Prop where
  distinct : h.ledger.Distinct
  perm : h.entered ~ h.left ++ h.ledger.pairs

variable {h : History α}

/-- Handing out entries keeps the balance if nothing gets lost on the way. -/
theorem Balanced.handOut (hb : h.Balanced) {out : List (Int × α)} {ledger : Ledger α}
    (hd : ledger.Distinct) (hout : out ++ ledger.pairs ~ h.ledger.pairs) :
    Balanced { h with ledger, left := h.left ++ out } where
  distinct := hd
  perm := by
    dsimp only
    rw [List.append_assoc]
    exact hb.perm.trans (hout.symm.append_left _)

/-- Nothing enters under an id that is in use, and nothing changes. -/
theorem perform_insert_of_contains (hin : h.ledger.contains id = true) (deadline : Nat)
    (payload : α) : h.perform (.insert id deadline payload) = h := by
  have hrefused : h.ledger.insert id deadline payload
      = .error (.invalidRequest (.alreadyInFlight id)) := by
    rw [Ledger.insert, if_pos hin]
  rw [perform, hrefused]

/-- **Every operation keeps the balance.** -/
theorem Balanced.perform (hb : h.Balanced) (op : Op α) : (h.perform op).Balanced := by
  cases op with
  | insert id deadline payload =>
    cases hin : h.ledger.contains id with
    | true =>
      rw [perform_insert_of_contains hin]
      exact hb
    | false =>
      have hfree : h.ledger.find? id = none := find?_eq_none_iff.mpr (contains_eq_false_iff.mp hin)
      rw [History.perform, insert_eq_push hin]
      refine ⟨hb.distinct.push hfree, ?_⟩
      have hpairs : (h.ledger.push ⟨id, deadline, payload⟩).pairs
          = h.ledger.pairs ++ [(id, payload)] := by
        rw [pairs, push, List.map_append]
        rfl
      dsimp only
      rw [hpairs, ← List.append_assoc]
      exact hb.perm.append_right _
  | complete id => exact hb.handOut (hb.distinct.erase id) (hb.distinct.perm_complete id)
  | cancel id => exact hb.handOut (hb.distinct.erase id) (hb.distinct.perm_complete id)
  | expire now => exact hb.handOut hb.distinct.expire (perm_expire h.ledger now)

/-- **Every history balances.** -/
theorem balanced_run (ops : List (Op α)) : (run ops).Balanced := by
  have hstart : Balanced ({} : History α) := ⟨fun _ => Nat.zero_le _, .refl _⟩
  rw [run]
  generalize ({} : History α) = h at hstart
  induction ops generalizing h with
  | nil => exact hstart
  | cons op ops ih => exact ih _ (hstart.perform op)

end History

/-! ## 4. The account -/

/-- What a sweep at the time `now` does. -/
structure Swept (l : Ledger α) (now : Nat) : Prop where
  /-- It hands out what is due. -/
  mem_out : ∀ id a, (id, a) ∈ (l.expire now).1 ↔
    ∃ entry ∈ l.entries, entry.deadline ≤ now ∧ entry.id = id ∧ entry.payload = a
  /-- It does so by increasing id. -/
  increasing : (l.expire now).1.Pairwise fun a b => a.1 < b.1
  /-- It does not matter in which order what is due is found and taken out. -/
  any_order : ∀ ids, ids ~ (l.entries.filter (isDue now)).map (·.id) →
    l.expire now = ((completeAll ids l).1.mergeSort fun a b => a.1 ≤ b.1, (completeAll ids l).2)
  /-- It keeps all other entries as they are. -/
  mem_kept : ∀ entry, entry ∈ (l.expire now).2.entries ↔
    entry ∈ l.entries ∧ now < entry.deadline
  /-- Nothing that is due by then is left. -/
  settled : ∀ earlier ≤ now, (l.expire now).2.expire earlier = ([], (l.expire now).2)

/-- A sweep right after a sweep finds nothing. -/
theorem expire_expire {earlier : Nat} (hle : earlier ≤ now) :
    (l.expire now).2.expire earlier = ([], (l.expire now).2) := by
  have hlater : ∀ entry ∈ (l.expire now).2.entries, isDue earlier entry = false := by
    intro entry hentry
    have hlt := (mem_kept.mp hentry).2
    simp only [isDue, decide_eq_false_iff_not]
    omega
  have hnone : (l.expire now).2.entries.filter (isDue earlier) = [] := by
    rw [List.filter_eq_nil_iff]
    intro entry hentry
    rw [hlater entry hentry]
    exact Bool.false_ne_true
  have hall : ((l.expire now).2.entries.filter fun entry => !isDue earlier entry)
      = (l.expire now).2.entries := by
    rw [List.filter_eq_self]
    intro entry hentry
    rw [hlater entry hentry]
    rfl
  rw [expire, hnone, hall, List.mergeSort_nil]
  rfl

theorem Distinct.swept (h : l.Distinct) (now : Nat) : l.Swept now where
  mem_out := fun _ _ => mem_expired
  increasing := h.pairwise_expired now
  any_order := fun _ => h.expire_eq_completeAll
  mem_kept := fun _ => mem_kept
  settled := fun _ => expire_expire

/-- **The account of a ledger.** Whatever is asked of a ledger, and in whatever order: what entered
it was handed out or is still there, each pair as often as it entered. An entry is refused exactly
if its id is in use, and then the ledger stays as it is. A sweep hands out what is due, by
increasing id and in whatever order it comes across it, keeps the rest as it is, and leaves nothing
to a sweep right after it. -/
theorem History.accounts_for_entries (ops : List (Op α)) :
    (run ops).entered ~ (run ops).left ++ (run ops).ledger.pairs
      ∧ (∀ id deadline payload,
          ((∃ error, (run ops).ledger.insert id deadline payload = .error error) ↔
            (run ops).ledger.contains id = true)
          ∧ ((run ops).ledger.contains id = true →
              run (ops ++ [.insert id deadline payload]) = run ops))
      ∧ ∀ now, (run ops).ledger.Swept now := by
  have hb := balanced_run ops
  refine ⟨hb.perm, ?_, fun now => hb.distinct.swept now⟩
  intro id deadline payload
  refine ⟨?_, ?_⟩
  · rw [Ledger.insert]
    split
    · next hin => simp [hin]
    · next hout => simp [hout]
  · intro hin
    rw [run, List.foldl_append]
    exact perform_insert_of_contains hin deadline payload

/-- An id that is used again after its entry left. -/
def sampleOps : List (Op String) :=
  [.insert 5 8 "late", .insert 1 60 "long", .insert 5 99 "twice", .complete 5, .insert 5 7 "again",
    .insert 2 10 "short", .cancel 7]

/-- Of two entries under one id the first was handed out and the second is still there. A third is
refused. A sweep comes across the ids that are due as 5 and 2 and hands out 2 before 5. -/
theorem History.accounts_for_entries_sampleOps :
    [(5, "late"), (1, "long"), (5, "again"), (2, "short")]
        ~ [(5, "late")] ++ (run sampleOps).ledger.pairs
      ∧ run (sampleOps ++ [.insert 5 99 "third"]) = run sampleOps
      ∧ (run sampleOps).ledger.expire 10
          = ((completeAll [5, 2] (run sampleOps).ledger).1.mergeSort fun a b => a.1 ≤ b.1,
              (completeAll [5, 2] (run sampleOps).ledger).2)
      ∧ ((run sampleOps).ledger.expire 10).2.expire 9
          = ([], ((run sampleOps).ledger.expire 10).2) := by
  obtain ⟨hperm, hinsert, hswept⟩ := History.accounts_for_entries sampleOps
  exact ⟨hperm, (hinsert 5 99 "third").2 (by decide), (hswept 10).any_order [5, 2] (by decide),
    (hswept 10).settled 9 (by decide)⟩

end Ledger

end AnchoredEdit
