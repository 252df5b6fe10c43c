/-
`Proofs/Diff/Search.lean` -- whatever the search finds is a walk.

The search is given two parts of the lists and where they lie. What the parts have in common at the
ends is kept, so it lies in both lists. Between the ends the search divides the parts at some point.
For the script to lead through both parts it does not matter which point that is, as long as it
lies between them: the two halves meet there. That the script is short is another matter.
-/
import AnchoredEdit.Proofs.Diff.Walk

set_option autoImplicit false

namespace AnchoredEdit

namespace Diff

variable {old new ls part : List Text} {i j : Nat}

/-! ## 1. Parts of a list -/

/-- The lines of `part` lie in `ls` from `i` on. -/
structure Lies (ls : List Text) (i : Nat) (part : List Text) : Prop where
  within : i + part.length ≤ ls.length
  reads : stretch ls i part.length = part

theorem Lies.self (ls : List Text) : Lies ls 0 ls where
  within := Nat.le_of_eq (Nat.zero_add _)
  reads := by rw [stretch, List.drop_zero, List.take_length]

/-- **Two parts that follow each other.** -/
theorem lies_append {a b : List Text} :
    Lies ls i (a ++ b) ↔ Lies ls i a ∧ Lies ls (i + a.length) b := by
  constructor
  · rintro ⟨hwithin, hreads⟩
    rw [List.length_append] at hwithin hreads
    rw [stretch_add] at hreads
    obtain ⟨ha, hb⟩ := List.append_inj hreads (length_stretch (by omega))
    exact ⟨⟨by omega, ha⟩, ⟨by omega, hb⟩⟩
  · rintro ⟨⟨_, ha⟩, ⟨hwithin, hb⟩⟩
    constructor
    · rw [List.length_append]
      omega
    · rw [List.length_append, stretch_add, ha, hb]

/-! ## 2. Common ends -/

theorem exists_commonFront (a b : List Text) :
    ∃ c a' b', a = c ++ a' ∧ b = c ++ b' ∧ commonFront a b = c.length := by
  induction a generalizing b with
  | nil => exact ⟨[], [], b, rfl, rfl, by simp [commonFront]⟩
  | cons x a ih =>
    cases b with
    | nil => exact ⟨[], x :: a, [], rfl, rfl, by simp [commonFront]⟩
    | cons y b =>
      by_cases hxy : x = y
      · obtain ⟨c, a', b', ha, hb, hc⟩ := ih b
        refine ⟨x :: c, a', b', ?_, ?_, ?_⟩
        · rw [ha, List.cons_append]
        · rw [hb, hxy, List.cons_append]
        · rw [commonFront, if_pos hxy, hc, List.length_cons]
      · refine ⟨[], x :: a, y :: b, rfl, rfl, ?_⟩
        rw [commonFront, if_neg hxy, List.length_nil]

theorem exists_commonBack (a b : List Text) :
    ∃ c a' b', a = a' ++ c ∧ b = b' ++ c ∧ commonBack a b = c.length := by
  obtain ⟨c, a', b', ha, hb, hc⟩ := exists_commonFront a.reverse b.reverse
  refine ⟨c.reverse, a'.reverse, b'.reverse, ?_, ?_, ?_⟩
  · rw [← List.reverse_append, ← ha, List.reverse_reverse]
  · rw [← List.reverse_append, ← hb, List.reverse_reverse]
  · rw [commonBack, hc, List.length_reverse]

theorem commonFront_le_length (a b : List Text) : commonFront a b ≤ a.length := by
  obtain ⟨c, a', b', rfl, -, hc⟩ := exists_commonFront a b
  rw [hc, List.length_append]
  exact Nat.le_add_right ..

theorem commonBack_le_length (a b : List Text) : commonBack a b ≤ a.length := by
  obtain ⟨c, a', b', rfl, -, hc⟩ := exists_commonBack a b
  rw [hc, List.length_append]
  exact Nat.le_add_left ..

theorem trim_append (front inner back : List Text) :
    trim front.length back.length (front ++ (inner ++ back)) = inner := by
  simp [trim]

/-! ## 3. The search -/

/-- Lines that lie in both lists are kept. -/
theorem walks_equalOp (hold : Lies old i part) (hnew : Lies new j part) :
    Walks (Op.Leads old new) (i, j) (equalOp i j part.length)
      (i + part.length, j + part.length) := by
  unfold equalOp
  by_cases hzero : part.length = 0
  · rw [if_pos hzero, walks_nil, hzero, Nat.add_zero, Nat.add_zero]
  · rw [if_neg hzero, walks_singleton]
    exact ⟨⟨rfl, rfl, hold.within, hnew.within, hold.reads.trans hnew.reads.symm⟩, trivial⟩

theorem walks_exchange {a b : List Text} (hold : Lies old i a) (hnew : Lies new j b) :
    Walks (Op.Leads old new) (i, j) (exchange i j a.length b.length)
      (i + a.length, j + b.length) := by
  unfold exchange
  rw [walks_append]
  refine ⟨(i + a.length, j), ?_, ?_⟩
  · by_cases hzero : a.length = 0
    · rw [if_pos hzero, walks_nil, hzero, Nat.add_zero]
    · rw [if_neg hzero, walks_singleton]
      exact ⟨⟨rfl, rfl, hold.within⟩, Nat.pos_of_ne_zero hzero⟩
  · by_cases hzero : b.length = 0
    · rw [if_pos hzero, walks_nil, hzero, Nat.add_zero]
    · rw [if_neg hzero, walks_singleton]
      exact ⟨⟨rfl, rfl, hnew.within⟩, Nat.pos_of_ne_zero hzero⟩

/-- One round of the search, with the common ends split off. -/
theorem search_append {front back a b : List Text}
    (hfront : commonFront (front ++ (a ++ back)) (front ++ (b ++ back)) = front.length)
    (hback : commonBack (a ++ back) (b ++ back) = back.length) :
    search i j (front ++ (a ++ back)) (front ++ (b ++ back)) =
      equalOp i j front.length
        ++ (match halving? a b with
          | none => exchange (i + front.length) (j + front.length) a.length b.length
          | some ⟨(x, y), _⟩ =>
            search (i + front.length) (j + front.length) (a.take x) (b.take y)
              ++ search (i + front.length + x) (j + front.length + y) (a.drop x) (b.drop y))
        ++ equalOp (i + front.length + a.length) (j + front.length + b.length) back.length := by
  rewrite [search, hfront, List.drop_left, List.drop_left, hback, trim_append, trim_append]
  rfl

/-- **What the search finds leads through both parts.** The induction is on how much there is to
search. -/
theorem walks_search {a b : List Text} (hold : Lies old i a) (hnew : Lies new j b) :
    Walks (Op.Leads old new) (i, j) (search i j a b) (i + a.length, j + b.length) := by
  induction hsize : a.length + b.length using Nat.strongRecOn generalizing i j a b with
  | _ size ih =>
    obtain ⟨front, a', b', rfl, rfl, hfront⟩ := exists_commonFront a b
    obtain ⟨back, a, b, rfl, rfl, hback⟩ := exists_commonBack a' b'
    obtain ⟨holdFront, hold⟩ := lies_append.mp hold
    obtain ⟨hold, holdBack⟩ := lies_append.mp hold
    obtain ⟨hnewFront, hnew⟩ := lies_append.mp hnew
    obtain ⟨hnew, hnewBack⟩ := lies_append.mp hnew
    have hle : a.length + b.length ≤ size := by
      simp only [List.length_append] at hsize
      omega
    rw [search_append hfront hback, walks_append]
    refine ⟨(i + front.length + a.length, j + front.length + b.length), ?_, ?_⟩
    · refine walks_append.mpr ⟨_, walks_equalOp holdFront hnewFront, ?_⟩
      split
      · exact walks_exchange hold hnew
      · next x y hpoint _ =>
        obtain ⟨holdLow, holdHigh⟩ := lies_append.mp ((List.take_append_drop x a).symm ▸ hold)
        obtain ⟨hnewLow, hnewHigh⟩ := lies_append.mp ((List.take_append_drop y b).symm ▸ hnew)
        have hlow := ih _ (Nat.lt_of_lt_of_le hpoint.length_take_lt hle) holdLow hnewLow rfl
        have hhigh := ih _ (Nat.lt_of_lt_of_le hpoint.length_drop_lt hle) holdHigh hnewHigh rfl
        obtain ⟨hx, hy, -, -⟩ := hpoint
        rw [List.length_take_of_le hx, List.length_take_of_le hy] at hlow hhigh
        rw [List.length_drop, List.length_drop, Nat.add_assoc _ x, Nat.add_assoc _ y,
          Nat.add_sub_cancel' hx, Nat.add_sub_cancel' hy] at hhigh
        exact walks_append.mpr ⟨_, hlow, hhigh⟩
    · simp only [List.length_append, ← Nat.add_assoc]
      exact walks_equalOp holdBack hnewBack

end Diff

end AnchoredEdit
