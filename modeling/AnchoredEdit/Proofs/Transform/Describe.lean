/-
`Proofs/Transform/Describe.lean` -- which line of a dump around the anchor is marked.

The dump starts at a node above the anchor. The climb to it takes as many steps as it is given,
unless it comes to a node of the top kind or to a root before. The number of steps is the level of
the anchor in the outline of the node reached, so the anchor is listed exactly if the dump goes
that deep. It is never listed twice, because the outline is in document order.
-/
import AnchoredEdit.Proofs.Syntax.Dump
import AnchoredEdit.Proofs.Transform.Move
import AnchoredEdit.Transform.Describe

set_option autoImplicit false

namespace AnchoredEdit

/-! ## 1. The climb -/

namespace Describe

variable {t : Tree} {i p top : t.Id} {levels distance : Nat}

/-- The node `top` is where a climb of at most `levels` steps from `i` ends, after `distance` of
them: no node that was left is of the top kind, and the climb did not stop early for any other
reason than such a node or a root. -/
structure Climbs (t : Tree) (levels : Nat) (i top : t.Id) (distance : Nat) : Prop where
  above : t.levelsBelow? top i = some distance
  within : distance ≤ levels
  passes : ∀ j, ∀ k < distance, t.levelsBelow? j i = some k → t.kind j ≠ topKind
  stops : distance = levels ∨ t.kind top = topKind ∨ t.parent top = none

/-- A climb that ends where it starts. -/
theorem Climbs.stay (h : levels = 0 ∨ t.kind i = topKind ∨ t.parent i = none) :
    Climbs t levels i i 0 where
  above := Tree.levelsBelow?_eq_zero_iff.mpr rfl
  within := Nat.zero_le _
  passes := by
    intro _ _ hk
    exact absurd hk (Nat.not_lt_zero _)
  stops := h.imp_left Eq.symm

/-- One more step at the lower end. -/
theorem Climbs.step (hparent : t.parent i = some p) (hkind : t.kind i ≠ topKind)
    (h : Climbs t levels p top distance) : Climbs t (levels + 1) i top (distance + 1) where
  above := (Tree.levelsBelow?_of_parent hparent).mpr h.above
  within := Nat.succ_le_succ h.within
  passes := by
    intro j k hk hj
    by_cases hzero : k = 0
    · subst hzero
      rw [← Tree.levelsBelow?_eq_zero_iff.mp hj]
      exact hkind
    · obtain ⟨k, rfl⟩ : ∃ l, k = l + 1 := ⟨k - 1, by omega⟩
      exact h.passes j k (by omega) ((Tree.levelsBelow?_of_parent hparent).mp hj)
  stops := h.stops.imp_left (congrArg (· + 1))

/-- **Where the climb ends.** The induction is on the steps that are left. -/
theorem exists_climbs (levels : Nat) (i : t.Id) :
    ∃ distance, Climbs t levels i (climb t levels i) distance := by
  induction levels generalizing i with
  | zero => exact ⟨0, .stay (.inl rfl)⟩
  | succ levels ih =>
    unfold climb
    by_cases hkind : t.kind i = topKind
    · rw [if_pos hkind]
      exact ⟨0, .stay (.inr (.inl hkind))⟩
    · rw [if_neg hkind]
      split
      · next hroot => exact ⟨0, .stay (.inr (.inr hroot))⟩
      · next p hp =>
        obtain ⟨distance, h⟩ := ih p
        exact ⟨distance + 1, h.step hp hkind⟩

end Describe

/-! ## 2. The marked lines -/

namespace Tree

variable {t : Tree} {marked top : t.Id} {levels : Nat}

/-- The lines that end with the mark. -/
def markedLines (lines : List Text) : List Text :=
  lines.filter fun line => mark <:+ line

theorem forall₂_markedLines {nodes : List (t.Id × Nat)} {lines : List Text}
    (h : List.Forall₂ (fun n line => t.ShowsNode marked n.1 n.2 line) nodes lines) :
    List.Forall₂ (fun n line => t.ShowsNode marked n.1 n.2 line)
      (nodes.filter fun n => n.1 = marked) (markedLines lines) := by
  refine List.rel_filter ?_ h
  intro n line hshows
  simp only [decide_eq_true_eq]
  exact hshows.marked_iff.symm

/-- **A node is listed once**, on its level, if the outline goes that deep. -/
theorem filter_outline {k : Nat} (h : t.levelsBelow? top marked = some k) :
    (t.outline top levels).filter (fun n => n.1 = marked)
      = if k ≤ levels then [(marked, k)] else [] := by
  have hmem : ∀ n, n ∈ (t.outline top levels).filter (fun n => n.1 = marked)
      ↔ n = (marked, k) ∧ k ≤ levels := by
    rintro ⟨j, l⟩
    rw [List.mem_filter, mem_outline, decide_eq_true_eq, Prod.mk.injEq]
    constructor
    · rintro ⟨⟨hlevel, hle⟩, rfl⟩
      obtain rfl : k = l := Option.some.inj (h.symm.trans hlevel)
      exact ⟨⟨rfl, rfl⟩, hle⟩
    · rintro ⟨⟨rfl, rfl⟩, hle⟩
      exact ⟨⟨h, hle⟩, rfl⟩
  by_cases hle : k ≤ levels
  · rw [if_pos hle, ← List.perm_singleton]
    have hnodup : ((t.outline top levels).filter fun n => n.1 = marked).Nodup := by
      apply ((pairwise_outline top levels).filter _).imp
      rintro a b hlt rfl
      exact Nat.lt_irrefl _ hlt
    rw [List.perm_ext_iff_of_nodup hnodup (List.pairwise_singleton _ _)]
    intro n
    rw [hmem, List.mem_singleton, and_iff_left hle]
  · rw [if_neg hle, List.eq_nil_iff_forall_not_mem]
    intro n hn
    exact hle ((hmem n).mp hn).2

/-- The marked lines of a dump whose marked node lies `k` levels below its top. -/
theorem markedLines_of_levelsBelow? {lines : List Text} {k : Nat}
    (h : List.Forall₂ (fun n line => t.ShowsNode marked n.1 n.2 line) (t.outline top levels) lines)
    (hlevel : t.levelsBelow? top marked = some k) :
    (k ≤ levels → ∃ line, markedLines lines = [line] ∧ t.ShowsNode marked marked k line)
      ∧ (levels < k → markedLines lines = []) := by
  have hall := forall₂_markedLines h
  rw [filter_outline hlevel] at hall
  constructor
  · intro hle
    rw [if_pos hle, List.forall₂_cons_left_iff] at hall
    obtain ⟨line, rest, hshows, hrest, hlines⟩ := hall
    rw [List.forall₂_nil_left_iff] at hrest
    rw [hrest] at hlines
    exact ⟨line, hlines, hshows⟩
  · intro hlt
    rw [if_neg (Nat.not_le.mpr hlt), List.forall₂_nil_left_iff] at hall
    exact hall

end Tree

/-! ## 3. The dump around the anchor -/

namespace Describe

open Attempt

variable {t : Tree}

/-- **A dump lists the outline of its top and marks the anchor once.** Cut at its line breaks, any
dump shows the nodes of its outline line by line. The dump around an anchor is reported as a failure
of its own class. One line is marked in it, the anchor's, if the anchor lies within the depth that
is shown, and no line otherwise; it does when the climb is no longer than that depth. -/
theorem run_marks_anchor_once (hwf : t.WellFormed) (hnames : t.NamesUnbroken) :
    (∀ (top marked : t.Id) (levels width : Nat),
      ∃ dump lines, t.dump top marked levels width = .ok dump ∧ dump.lines = lines ++ [[]]
        ∧ List.Forall₂ (fun n line => t.ShowsNode marked n.1 n.2 line)
            (t.outline top levels) lines)
    ∧ ∀ (anchor : Anchor) (n : t.Id) (reach : Reach), anchor.node? t = .ok (some n) →
      ∃ message lines top distance,
        run t anchor reach = .error (.declined ⟨.debug, message⟩)
        ∧ Text.lines message.toList = lines ++ [[]]
        ∧ Climbs t reach.ancestorLevels n top distance
        ∧ List.Forall₂ (fun m line => t.ShowsNode n m.1 m.2 line)
            (t.outline top reach.renderDepth) lines
        ∧ (distance ≤ reach.renderDepth →
            ∃ line, Tree.markedLines lines = [line] ∧ t.ShowsNode n n distance line)
        ∧ (reach.renderDepth < distance → Tree.markedLines lines = [])
        ∧ (reach.ancestorLevels ≤ reach.renderDepth →
            ∃ line, Tree.markedLines lines = [line] ∧ t.ShowsNode n n distance line) := by
  refine ⟨fun top marked levels width => hwf.exists_dump hnames top marked levels width, ?_⟩
  intro anchor n reach hanchor
  obtain ⟨distance, hclimbs⟩ := exists_climbs reach.ancestorLevels n
  obtain ⟨dump, lines, hdump, hlines, hshows⟩ := hwf.exists_dump hnames
    (climb t reach.ancestorLevels n) n reach.renderDepth reach.textWidth
  obtain ⟨hone, hnone⟩ := Tree.markedLines_of_levelsBelow? hshows hclimbs.above
  refine ⟨String.ofList dump, lines, _, distance, ?_, ?_, hclimbs, hshows, hone, hnone, ?_⟩
  · unfold run
    rw [hanchor, ofChecked_ok, ok_bind, need, ok_bind]
    simp only [hdump, ofChecked_ok, ok_bind]
  · rw [String.toList_ofList]
    exact hlines
  · intro hle
    exact hone (Nat.le_trans hclimbs.within hle)

/-- The anchor is a name inside of the first argument. Two steps up from it are within three levels
of the dump. -/
theorem run_marks_anchor_once_sampleCall :
    Tree.sampleCall.WellFormed ∧ Tree.sampleCall.NamesUnbroken
      ∧ (Anchor.point ⟨0, 4⟩).node? Tree.sampleCall = .ok (some ⟨8, by decide⟩)
      ∧ ∃ message lines top distance,
        run Tree.sampleCall (.point ⟨0, 4⟩) ⟨2, 3, 40⟩ = .error (.declined ⟨.debug, message⟩)
        ∧ Text.lines message.toList = lines ++ [[]]
        ∧ Climbs Tree.sampleCall 2 ⟨8, by decide⟩ top distance
        ∧ ∃ line, Tree.markedLines lines = [line]
          ∧ Tree.sampleCall.ShowsNode ⟨8, by decide⟩ ⟨8, by decide⟩ distance line := by
  have hnames : Tree.sampleCall.NamesUnbroken := by decide
  have hinnermost : Tree.sampleCall.innermostAt ⟨0, 4⟩ = some ⟨8, by decide⟩ := by decide +kernel
  have hnode : (Anchor.point ⟨0, 4⟩).node? Tree.sampleCall = .ok (some ⟨8, by decide⟩) :=
    congrArg Except.ok hinnermost
  obtain ⟨message, lines, top, distance, hrun, hlines, hclimbs, -, -, -, hone⟩ :=
    (run_marks_anchor_once Tree.sampleCall_wellFormed hnames).2 _ _ ⟨2, 3, 40⟩ hnode
  exact ⟨Tree.sampleCall_wellFormed, hnames, hnode, message, lines, top, distance, hrun, hlines,
    hclimbs, hone (by decide)⟩

end Describe

end AnchoredEdit
