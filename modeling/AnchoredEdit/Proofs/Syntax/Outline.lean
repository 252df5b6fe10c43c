/-
`Proofs/Syntax/Outline.lean` -- the nodes of a subtree down to a depth, in document order.

Going up from a node, each step leads to the parent, so the node that is `k` levels above it is
number `k` on its path to the root. The outline of a subtree lists the nodes whose path leads
through the top within so many steps, in document order and each with its level. It says nothing
of how the nodes are found.

A recursive listing goes the other way: first a node, then the listings of its children. It meets
the same nodes, because a step down from the top is the last step up from below. It meets them in
document order, because the nodes below a child all come before the next child: in pre-order, what
lies between a node and its child hangs below the node.
-/
import AnchoredEdit.Proofs.Syntax.Path

set_option autoImplicit false

namespace AnchoredEdit

namespace Tree

variable {t : Tree} {i j c p top : t.Id}

/-! ## 1. Levels -/

/-- How many levels node `i` lies below `top`; none if it is not in the subtree at `top`. -/
def levelsBelow? (t : Tree) (top i : t.Id) : Option Nat :=
  (i :: t.ancestors i).idxOf? top

/-- No node comes twice on a path. -/
theorem nodup_path (i : t.Id) : (i :: t.ancestors i).Nodup := by
  induction i using ancestors.induct t with
  | case1 i hi =>
    rw [ancestors_of_parent_eq_none hi]
    exact List.pairwise_singleton _ _
  | case2 i p hi ih =>
    rw [List.nodup_cons, ancestors_of_parent hi]
    refine ⟨?_, ih⟩
    intro hmem
    rw [← ancestors_of_parent hi] at hmem
    exact absurd (lt_of_mem_ancestors hmem) (Nat.lt_irrefl _)

/-- **A level is a place on the path.** -/
theorem levelsBelow?_eq_some_iff {k : Nat} :
    t.levelsBelow? top i = some k ↔ (i :: t.ancestors i)[k]? = some top := by
  unfold levelsBelow?
  rw [List.idxOf?_eq_some_iff, List.getElem?_eq_some_iff]
  constructor
  · rintro ⟨hk, htop, -⟩
    exact ⟨hk, htop⟩
  · rintro ⟨hk, htop⟩
    refine ⟨hk, htop, ?_⟩
    intro j hj hjtop
    -- A second place with the same node would be a repetition.
    have hne := List.pairwise_iff_getElem.mp (nodup_path i) j k (by omega) hk hj
    exact hne (hjtop.trans htop.symm)

theorem levelsBelow?_eq_zero_iff : t.levelsBelow? top i = some 0 ↔ i = top := by
  rw [levelsBelow?_eq_some_iff, List.getElem?_cons_zero, Option.some.injEq]

/-- Nothing is above a node that is no ancestor of it. -/
theorem mem_path_of_levelsBelow? {k : Nat} (h : t.levelsBelow? top i = some k) :
    top = i ∨ top ∈ t.ancestors i := by
  rw [levelsBelow?_eq_some_iff] at h
  exact List.mem_cons.mp (List.mem_of_getElem? h)

theorem le_of_levelsBelow? {k : Nat} (h : t.levelsBelow? top i = some k) : top ≤ i := by
  rcases mem_path_of_levelsBelow? h with htop | htop
  · exact Fin.le_of_eq htop
  · exact Fin.le_of_lt (lt_of_mem_ancestors htop)

/-- Seen from the parent, everything above is one level closer. -/
theorem levelsBelow?_of_parent {k : Nat} (h : t.parent i = some p) :
    t.levelsBelow? top i = some (k + 1) ↔ t.levelsBelow? top p = some k := by
  rw [levelsBelow?_eq_some_iff, levelsBelow?_eq_some_iff, List.getElem?_cons_succ,
    ancestors_of_parent h]

/-- **The last step up from below is the first step down from the top.** -/
theorem levelsBelow?_eq_succ_iff {k : Nat} :
    t.levelsBelow? top i = some (k + 1) ↔
      ∃ c, t.parent c = some top ∧ t.levelsBelow? c i = some k := by
  induction k generalizing i with
  | zero =>
    by_cases hroot : t.parent i = none
    · simp [levelsBelow?_eq_some_iff, ancestors_of_parent_eq_none hroot, hroot]
    · obtain ⟨p, hp⟩ := Option.ne_none_iff_exists'.mp hroot
      simp [levelsBelow?_of_parent hp, levelsBelow?_eq_zero_iff, hp]
  | succ k ih =>
    by_cases hroot : t.parent i = none
    · simp [levelsBelow?_eq_some_iff, ancestors_of_parent_eq_none hroot]
    · obtain ⟨p, hp⟩ := Option.ne_none_iff_exists'.mp hroot
      simp only [levelsBelow?_of_parent hp]
      exact ih

/-! ## 2. The outline -/

/-- The nodes of the subtree at `top` down to `levels` levels, in document order, each with its
level. -/
def outline (t : Tree) (top : t.Id) (levels : Nat) : List (t.Id × Nat) :=
  t.ids.filterMap fun i => ((t.levelsBelow? top i).filter (· ≤ levels)).map (i, ·)

theorem mem_outline {levels k : Nat} :
    (i, k) ∈ t.outline top levels ↔ t.levelsBelow? top i = some k ∧ k ≤ levels := by
  unfold outline
  rw [List.mem_filterMap]
  constructor
  · rintro ⟨j, -, h⟩
    rw [Option.map_eq_some_iff] at h
    obtain ⟨l, hl, heq⟩ := h
    rw [Prod.mk.injEq] at heq
    rw [Option.filter_eq_some_iff, decide_eq_true_eq, heq.1, heq.2] at hl
    exact hl
  · rintro ⟨hlevel, hle⟩
    refine ⟨i, List.mem_finRange i, ?_⟩
    rw [hlevel, Option.filter_some, if_pos (decide_eq_true hle), Option.map_some]

theorem pairwise_outline (top : t.Id) (levels : Nat) :
    (t.outline top levels).Pairwise fun a b => a.1 < b.1 := by
  apply List.Pairwise.filterMap _ _ (List.pairwise_lt_finRange _)
  intro i j hlt a ha b hb
  rw [Option.map_eq_some_iff] at ha hb
  obtain ⟨k, -, rfl⟩ := ha
  obtain ⟨l, -, rfl⟩ := hb
  exact hlt

/-! ## 3. The recursive listing -/

/-- Node `i` on level `depth`, then what is below it down to `levels` more levels. -/
def listing (t : Tree) : (levels depth : Nat) → t.Id → List (t.Id × Nat)
  | 0, depth, i => [(i, depth)]
  | levels + 1, depth, i =>
    (i, depth) :: (t.children i).flatMap (listing t levels (depth + 1))

theorem mem_listing {levels depth d : Nat} :
    (j, d) ∈ t.listing levels depth i ↔
      ∃ k, k ≤ levels ∧ t.levelsBelow? i j = some k ∧ d = depth + k := by
  induction levels generalizing depth i with
  | zero =>
    rw [listing, List.mem_singleton, Prod.mk.injEq]
    constructor
    · rintro ⟨hj, hd⟩
      exact ⟨0, Nat.le_refl 0, levelsBelow?_eq_zero_iff.mpr hj, hd⟩
    · rintro ⟨k, hk, hlevel, hd⟩
      obtain rfl : k = 0 := by omega
      exact ⟨levelsBelow?_eq_zero_iff.mp hlevel, hd⟩
  | succ levels ih =>
    rw [listing, List.mem_cons, Prod.mk.injEq, List.mem_flatMap]
    constructor
    · rintro (⟨hj, hd⟩ | ⟨c, hc, hmem⟩)
      · exact ⟨0, Nat.zero_le _, levelsBelow?_eq_zero_iff.mpr hj, hd⟩
      · obtain ⟨k, hk, hlevel, hd⟩ := ih.mp hmem
        refine ⟨k + 1, by omega, ?_, by omega⟩
        exact levelsBelow?_eq_succ_iff.mpr ⟨c, t.mem_children.mp hc, hlevel⟩
    · rintro ⟨k, hk, hlevel, hd⟩
      by_cases hzero : k = 0
      · subst hzero
        exact .inl ⟨levelsBelow?_eq_zero_iff.mp hlevel, hd⟩
      · obtain ⟨k, rfl⟩ : ∃ l, k = l + 1 := ⟨k - 1, by omega⟩
        obtain ⟨c, hc, hbelow⟩ := levelsBelow?_eq_succ_iff.mp hlevel
        exact .inr ⟨c, t.mem_children.mpr hc, ih.mpr ⟨k, by omega, hbelow, by omega⟩⟩

/-- **What is below a child comes before the next child.** -/
theorem WellFormed.lt_of_below (hwf : t.WellFormed) (hi : t.parent i = some p)
    (hj : t.parent j = some p) (hlt : i < j) (hc : i = c ∨ i ∈ t.ancestors c) : c < j := by
  have hpi : p < i := t.lt_of_parent hi
  induction c using ancestors.induct t with
  | case1 c hroot =>
    rw [ancestors_of_parent_eq_none hroot] at hc
    rcases hc with hc | hc
    · exact hc ▸ hlt
    · cases hc
  | case2 c q hq ih =>
    rw [ancestors_of_parent hq, List.mem_cons] at hc
    rcases hc with hc | hc
    · exact hc ▸ hlt
    · have hqj : q < j := ih hc
      -- The parent of `c` is at or below `i`, so it is not at or above `p`.
      have hpq : p < q := by
        rcases hc with hc | hc
        · exact hc ▸ hpi
        · exact Fin.lt_trans hpi (lt_of_mem_ancestors hc)
      rcases Nat.lt_trichotomy c.val j.val with hcj | hcj | hcj
      · exact hcj
      · obtain rfl : c = j := Fin.ext hcj
        rw [hq, Option.some.injEq] at hj
        exact absurd hpq (hj ▸ Nat.lt_irrefl _)
      · -- Otherwise `j` stands between `q` and its child `c` without hanging below `q`.
        have hle : q ≤ p := hwf.preorder c q hq j hqj hcj p hj
        exact absurd hpq (Nat.not_lt.mpr hle)

theorem WellFormed.pairwise_listing (hwf : t.WellFormed) (levels : Nat) :
    ∀ depth i, (t.listing levels depth i).Pairwise fun a b => a.1 < b.1 := by
  induction levels with
  | zero =>
    intro depth i
    exact List.pairwise_singleton _ _
  | succ levels ih =>
    intro depth i
    rw [listing, List.pairwise_cons]
    constructor
    · rintro ⟨j, d⟩ hmem
      obtain ⟨c, hc, hmem⟩ := List.mem_flatMap.mp hmem
      obtain ⟨k, -, hlevel, -⟩ := mem_listing.mp hmem
      exact Nat.lt_of_lt_of_le (t.lt_of_parent (t.mem_children.mp hc)) (le_of_levelsBelow? hlevel)
    · rw [List.pairwise_flatMap]
      refine ⟨fun c _ => ih (depth + 1) c, ?_⟩
      refine (Tree.pairwise_children i).imp_of_mem ?_
      rintro c c' hc hc' hlt ⟨j, d⟩ hj ⟨j', d'⟩ hj'
      obtain ⟨k, -, hlevel, -⟩ := mem_listing.mp hj
      obtain ⟨k', -, hlevel', -⟩ := mem_listing.mp hj'
      have hbefore : j < c' := hwf.lt_of_below (t.mem_children.mp hc) (t.mem_children.mp hc') hlt
        (mem_path_of_levelsBelow? hlevel)
      exact Nat.lt_of_lt_of_le hbefore (le_of_levelsBelow? hlevel')

/-- **The recursive listing is the outline.** -/
theorem WellFormed.listing_eq_outline (hwf : t.WellFormed) (top : t.Id) (levels : Nat) :
    t.listing levels 0 top = t.outline top levels := by
  have hlisting := hwf.pairwise_listing levels 0 top
  have houtline := pairwise_outline top levels
  have hapart : ∀ a b : t.Id × Nat, a.1 < b.1 → a ≠ b := by
    rintro a b hlt rfl
    exact Nat.lt_irrefl _ hlt
  refine List.Perm.eq_of_pairwise ?_ hlisting houtline ?_
  · intro a b _ _ hab hba
    exact absurd hab (Nat.lt_asymm hba)
  · rw [List.perm_ext_iff_of_nodup (hlisting.imp (hapart _ _)) (houtline.imp (hapart _ _))]
    rintro ⟨j, d⟩
    rw [mem_listing, mem_outline]
    constructor
    · rintro ⟨k, hk, hlevel, hd⟩
      obtain rfl : d = k := by omega
      exact ⟨hlevel, hk⟩
    · rintro ⟨hlevel, hk⟩
      exact ⟨d, hk, hlevel, by omega⟩

end Tree

end AnchoredEdit
