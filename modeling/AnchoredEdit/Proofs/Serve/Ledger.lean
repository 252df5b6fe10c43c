/-
`Proofs/Serve/Ledger.lean` -- how many entries a ledger holds under an id.

Whether something is in flight under an id is a matter of counting: entering adds one, leaving
takes away what is there, and a sweep splits what is there into what it hands out and what it
keeps. In a ledger whose ids are distinct the count is one or zero, so "in flight" and "counted
once" are the same, and an id determines its entry.
-/
import AnchoredEdit.Serve.Ledger

set_option autoImplicit false

namespace AnchoredEdit

namespace Ledger

variable {α : Type} {l l' : Ledger α} {id k : Int} {entry other : Pending α} {now : Nat}

/-! ## 1. Counting -/

/-- The number of entries under `id`. -/
def count (l : Ledger α) (id : Int) : Nat :=
  l.entries.countP (·.id = id)

/-- No id is in use twice. -/
def Distinct (l : Ledger α) : Prop :=
  ∀ id, l.count id ≤ 1

theorem count_pos_iff : 0 < l.count id ↔ ∃ entry ∈ l.entries, entry.id = id := by
  simp [count, List.countP_pos_iff]

theorem mem_of_find? (h : l.find? id = some entry) : entry ∈ l.entries ∧ entry.id = id := by
  refine ⟨List.mem_of_find?_eq_some h, ?_⟩
  simpa using List.find?_some h

theorem find?_eq_none_iff : l.find? id = none ↔ l.count id = 0 := by
  simp [find?, count, List.countP_eq_zero]

theorem contains_eq_false_iff : l.contains id = false ↔ l.count id = 0 := by
  rw [contains, Option.isSome_eq_false_iff, Option.isNone_iff_eq_none, find?_eq_none_iff]

theorem contains_iff : l.contains id = true ↔ 0 < l.count id := by
  rw [← Bool.not_eq_false, contains_eq_false_iff]
  omega

/-- **In a ledger of distinct ids, in flight is counted once.** -/
theorem Distinct.count_eq (h : l.Distinct) (id : Int) :
    l.count id = if l.contains id then 1 else 0 := by
  have hle := h id
  split
  · next hin =>
    rw [contains_iff] at hin
    omega
  · next hout =>
    rw [Bool.not_eq_true, contains_eq_false_iff] at hout
    exact hout

/-- An id determines its entry. -/
theorem Distinct.eq_of_id_eq (h : l.Distinct) (hentry : entry ∈ l.entries)
    (hother : other ∈ l.entries) (hid : entry.id = other.id) : entry = other := by
  have hle : l.entries.countP (·.id = other.id) ≤ 1 := h other.id
  -- The induction goes along the entries: a second one with the id would be counted too.
  generalize l.entries = entries at hentry hother hle
  induction entries with
  | nil => cases hentry
  | cons first rest ih =>
    rw [List.countP_cons] at hle
    have hpos : ∀ p ∈ rest, p.id = other.id → 0 < rest.countP (·.id = other.id) := by
      intro p hp hpid
      exact List.countP_pos_iff.mpr ⟨p, hp, by simpa using hpid⟩
    rcases List.mem_cons.mp hentry with rfl | hentry
    · rcases List.mem_cons.mp hother with rfl | hother
      · rfl
      · have := hpos other hother rfl
        rw [if_pos (decide_eq_true hid)] at hle
        omega
    · have := hpos entry hentry hid
      rcases List.mem_cons.mp hother with rfl | hother
      · rw [if_pos (decide_eq_true rfl)] at hle
        omega
      · exact ih hentry hother (by omega)

/-! ## 2. Entering -/

/-- The ledger with one more entry. -/
def push (l : Ledger α) (entry : Pending α) : Ledger α :=
  ⟨l.entries ++ [entry]⟩

theorem insert_eq_push (h : l.contains id = false) (deadline : Nat) (payload : α) :
    l.insert id deadline payload = .ok (l.push ⟨id, deadline, payload⟩) := by
  rw [insert, if_neg]
  · rfl
  · rw [h]
    exact Bool.false_ne_true

theorem mem_push : other ∈ (l.push entry).entries ↔ other ∈ l.entries ∨ other = entry := by
  rw [push, List.mem_append, List.mem_singleton]

theorem count_push (k : Int) :
    (l.push entry).count k = l.count k + if entry.id = k then 1 else 0 := by
  simp [push, count, List.countP_append, List.countP_cons]

theorem Distinct.push (h : l.Distinct) (hfree : l.find? entry.id = none) :
    (l.push entry).Distinct := by
  intro k
  have hle := h k
  rw [count_push]
  split
  · next hk =>
    have hzero : l.count k = 0 := hk ▸ find?_eq_none_iff.mp hfree
    omega
  · omega

/-! ## 3. Leaving -/

theorem mem_erase : entry ∈ (l.erase id).entries ↔ entry ∈ l.entries ∧ entry.id ≠ id := by
  simp [erase]

theorem count_erase (k : Int) : (l.erase id).count k = if k = id then 0 else l.count k := by
  rw [count, erase, List.countP_filter]
  split
  · next h =>
    subst h
    simp
  · next h =>
    rw [count]
    congr 1
    funext p
    by_cases hp : p.id = k
    · simp [hp, h]
    · simp [hp]

theorem Distinct.erase (h : l.Distinct) (id : Int) : (l.erase id).Distinct := by
  intro k
  have hle := h k
  rw [count_erase]
  split <;> omega

theorem erase_eq_self (h : l.find? id = none) : l.erase id = l := by
  have hfilter : l.entries.filter (·.id ≠ id) = l.entries := by
    rw [List.filter_eq_self]
    intro entry hentry
    simpa using List.find?_eq_none.mp h entry hentry
  rw [erase, hfilter]

/-- What a sweep hands out were the entries whose deadline has passed. -/
theorem mem_expired {a : α} : (id, a) ∈ (l.expire now).1 ↔
    ∃ entry ∈ l.entries, entry.deadline ≤ now ∧ entry.id = id ∧ entry.payload = a := by
  simp [expire, isDue, List.mem_mergeSort, and_assoc]

/-- What a sweep keeps are the entries whose deadline is still to come. -/
theorem mem_kept : entry ∈ (l.expire now).2.entries ↔
    entry ∈ l.entries ∧ now < entry.deadline := by
  simp [expire, isDue]

/-- **A sweep splits the entries under each id.** -/
theorem count_expire (k : Int) :
    (l.expire now).1.countP (·.1 = k) + (l.expire now).2.count k = l.count k := by
  have hdue : (l.expire now).1.countP (·.1 = k)
      = (l.entries.filter (isDue now)).countP (·.id = k) := by
    rw [expire, List.countP_map, List.Perm.countP_eq _ (List.mergeSort_perm _ _)]
    rfl
  have hsplit := List.countP_eq_countP_filter_add l.entries (·.id = k) (isDue now)
  rw [hdue, count, count, hsplit]
  simp [expire]

theorem Distinct.expire (h : l.Distinct) : (l.expire now).2.Distinct := by
  intro k
  have hle := h k
  have hsplit : (l.expire now).1.countP (·.1 = k) + (l.expire now).2.count k = l.count k :=
    count_expire k
  omega

end Ledger

end AnchoredEdit
