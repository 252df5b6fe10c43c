/-
`Proofs/Syntax/WellFormed.lean` -- trees that belong to their source.

A parser promises more of a tree than the arena's type says. The arena is in pre-order with
one root; each node's bytes are cut out of the source between two characters, lie inside its
parent's bytes and, among siblings, follow each other without overlap; and a node's lines and
columns are those of its bytes. `Tree.WellFormed` is that promise.

What proofs use of it is one relation, `t.Reads i before text after`: the source is `before`,
then node `i`, then `after`, and the node covers exactly `text`. Every node reads something.
A sibling further on reads its text out of what comes after, so cutting the source along several
nodes is a matter of naming the pieces.
-/
import AnchoredEdit.Proofs.Text.Extent
import AnchoredEdit.Syntax.Tree

set_option autoImplicit false

namespace AnchoredEdit

namespace Tree

/-! ## 1. The promise of a parser -/

/-- The offset of the first byte of node `i`. -/
abbrev startByte (t : Tree) (i : t.Id) : Nat :=
  (t.label i).startByte

/-- The offset behind the last byte of node `i`. -/
abbrev endByte (t : Tree) (i : t.Id) : Nat :=
  (t.label i).endByte

/-- The number of bytes of node `i`. -/
def size (t : Tree) (i : t.Id) : Nat :=
  t.endByte i - t.startByte i

/-- The tree belongs to its source. -/
structure WellFormed (t : Tree) : Prop where
  /-- Only the root has no parent. -/
  eq_root : ∀ i, t.parent i = none → i = t.root
  /-- Document order is pre-order: what stands between a node and a child of it lies below
  the node. -/
  preorder : ∀ i p, t.parent i = some p → ∀ k, p < k → k < i →
    ∀ q, t.parent k = some q → p ≤ q
  /-- No node ends before it starts. -/
  start_le_end : ∀ i, t.startByte i ≤ t.endByte i
  /-- A node starts at the position of its first byte, which is a place to cut. -/
  start_at : ∀ i, t.source.positionAt? (t.startByte i) = some (t.span i).start
  /-- A node stops at the position behind its last byte, which is a place to cut. -/
  stop_at : ∀ i, t.source.positionAt? (t.endByte i) = some (t.span i).stop
  /-- A node lies inside its parent. -/
  nested : ∀ i p, t.parent i = some p →
    t.startByte p ≤ t.startByte i ∧ t.endByte i ≤ t.endByte p
  /-- Siblings follow each other. -/
  disjoint : ∀ i p, t.parent i = some p → ∀ j, t.parent j = some p → i < j →
    t.endByte i ≤ t.startByte j

/-- A parse of `f([á,1],b)` with a line break before `1`: the first argument covers two lines,
and its first line has more bytes than characters. -/
def sampleCall : Tree :=
  (ofRows? "f([á,\n1],b)".toList .module [
    ⟨0, ⟨"program", true, none, ⟨⟨0, 0⟩, ⟨1, 5⟩⟩, 0, 12⟩⟩,
    ⟨1, ⟨"expression_statement", true, none, ⟨⟨0, 0⟩, ⟨1, 5⟩⟩, 0, 12⟩⟩,
    ⟨2, ⟨"call_expression", true, none, ⟨⟨0, 0⟩, ⟨1, 5⟩⟩, 0, 12⟩⟩,
    ⟨3, ⟨"identifier", true, some "function", ⟨⟨0, 0⟩, ⟨0, 1⟩⟩, 0, 1⟩⟩,
    ⟨3, ⟨"arguments", true, some "arguments", ⟨⟨0, 1⟩, ⟨1, 5⟩⟩, 1, 12⟩⟩,
    ⟨4, ⟨"(", false, none, ⟨⟨0, 1⟩, ⟨0, 2⟩⟩, 1, 2⟩⟩,
    ⟨4, ⟨"array", true, none, ⟨⟨0, 2⟩, ⟨1, 2⟩⟩, 2, 9⟩⟩,
    ⟨5, ⟨"[", false, none, ⟨⟨0, 2⟩, ⟨0, 3⟩⟩, 2, 3⟩⟩,
    ⟨5, ⟨"identifier", true, none, ⟨⟨0, 3⟩, ⟨0, 5⟩⟩, 3, 5⟩⟩,
    ⟨5, ⟨",", false, none, ⟨⟨0, 5⟩, ⟨0, 6⟩⟩, 5, 6⟩⟩,
    ⟨5, ⟨"number", true, none, ⟨⟨1, 0⟩, ⟨1, 1⟩⟩, 7, 8⟩⟩,
    ⟨5, ⟨"]", false, none, ⟨⟨1, 1⟩, ⟨1, 2⟩⟩, 8, 9⟩⟩,
    ⟨4, ⟨",", false, none, ⟨⟨1, 2⟩, ⟨1, 3⟩⟩, 9, 10⟩⟩,
    ⟨4, ⟨"identifier", true, none, ⟨⟨1, 3⟩, ⟨1, 4⟩⟩, 10, 11⟩⟩,
    ⟨4, ⟨")", false, none, ⟨⟨1, 4⟩, ⟨1, 5⟩⟩, 11, 12⟩⟩]).get (by decide)

theorem sampleCall_wellFormed : sampleCall.WellFormed where
  eq_root := by decide
  preorder := by decide
  start_le_end := by decide
  start_at := by decide
  stop_at := by decide
  nested := by decide
  disjoint := by decide

/-! ## 2. What a node reads -/

/-- In the source, node `i` stands between `before` and `after` and covers `text`. -/
structure Reads (t : Tree) (i : t.Id) (before text after : Text) : Prop where
  source : t.source = before ++ text ++ after
  startByte : t.startByte i = before.byteLength
  endByte : t.endByte i = (before ++ text).byteLength
  start : (t.span i).start = before.extent
  stop : (t.span i).stop = (before ++ text).extent

variable {t : Tree} {i j : t.Id} {before text after : Text}

/-- The first byte of a node determines where it starts. -/
theorem WellFormed.start_eq (hwf : t.WellFormed) (hsource : t.source = before ++ after)
    (hstart : t.startByte i = before.byteLength) : (t.span i).start = before.extent := by
  have h := hwf.start_at i
  rw [hsource, hstart, Text.positionAt?_append] at h
  exact (Option.some.inj h).symm

theorem WellFormed.stop_eq (hwf : t.WellFormed) (hsource : t.source = before ++ after)
    (hend : t.endByte i = before.byteLength) : (t.span i).stop = before.extent := by
  have h := hwf.stop_at i
  rw [hsource, hend, Text.positionAt?_append] at h
  exact (Option.some.inj h).symm

/-- The bytes of a node determine what it reads. -/
theorem WellFormed.reads (hwf : t.WellFormed) (hsource : t.source = before ++ text ++ after)
    (hstart : t.startByte i = before.byteLength)
    (hend : t.endByte i = (before ++ text).byteLength) : t.Reads i before text after where
  source := hsource
  startByte := hstart
  endByte := hend
  start := hwf.start_eq (by rw [hsource, List.append_assoc]) hstart
  stop := hwf.stop_eq hsource hend

/-- **Every node reads something.** -/
theorem WellFormed.exists_reads (hwf : t.WellFormed) (i : t.Id) :
    ∃ before text after, t.Reads i before text after := by
  obtain ⟨a, a', ha, halen, -⟩ := Text.positionAt?_eq_some_iff.mp (hwf.start_at i)
  obtain ⟨b, b', hb, hblen, -⟩ := Text.positionAt?_eq_some_iff.mp (hwf.stop_at i)
  -- The two cuts, in front of the node and behind it, come in that order.
  have hle : a.byteLength ≤ b.byteLength := by
    rw [halen, hblen]
    exact hwf.start_le_end i
  obtain ⟨m, hbm, -⟩ := Text.exists_append_of_byteLength_le (ha ▸ hb) hle
  refine ⟨a, m, b', hwf.reads ?_ halen.symm ?_⟩
  · rw [← hbm, hb]
  · rw [← hbm, hblen]

/-- **A node further on** reads its text out of what comes after. -/
theorem WellFormed.exists_reads_after (hwf : t.WellFormed) (hi : t.Reads i before text after)
    (hle : t.endByte i ≤ t.startByte j) :
    ∃ gap text' after', after = gap ++ text' ++ after'
      ∧ t.Reads j (before ++ text ++ gap) text' after' := by
  obtain ⟨b, y, v, hj⟩ := hwf.exists_reads j
  have hsource : before ++ text ++ after = b ++ (y ++ v) := by
    rw [← hi.source, hj.source, List.append_assoc]
  obtain ⟨gap, rfl, hafter⟩ := Text.exists_append_of_byteLength_le hsource (by
    rw [← hi.endByte, ← hj.startByte]
    exact hle)
  exact ⟨gap, y, v, by rw [hafter, List.append_assoc], hj⟩

namespace Reads

variable {before' text' after' gap : Text}

theorem text_eq (h : t.Reads i before text after) : t.text i = .ok text :=
  Text.slice_eq_ok h.source h.startByte h.endByte

theorem size_eq (h : t.Reads i before text after) : t.size i = text.byteLength := by
  rw [size, h.startByte, h.endByte, Text.byteLength_append]
  omega

theorem textBetween_eq (hi : t.Reads i before text after)
    (hj : t.Reads j (before ++ text ++ gap) text' after') : t.textBetween i j = .ok gap := by
  have hsource : t.source = before ++ text ++ gap ++ (text' ++ after') := by
    rw [hj.source]
    simp only [List.append_assoc]
  exact Text.slice_eq_ok hsource hi.endByte hj.startByte

theorem textBefore_eq (hi : t.Reads i before text after)
    (hj : t.Reads j (before ++ gap) text' after') : t.textBefore i j = .ok gap := by
  have hsource : t.source = before ++ gap ++ (text' ++ after') := by
    rw [hj.source]
    simp only [List.append_assoc]
  exact Text.slice_eq_ok hsource hi.startByte hj.startByte

theorem textThrough_eq (hi : t.Reads i before text after)
    (hj : t.Reads j (before ++ gap) text' after') :
    t.textThrough i j = .ok (gap ++ text') := by
  have hsource : t.source = before ++ (gap ++ text') ++ after' := by
    rw [hj.source]
    simp only [List.append_assoc]
  refine Text.slice_eq_ok hsource hi.startByte ?_
  rw [← List.append_assoc]
  exact hj.endByte

/-- A node contains the positions that lie in its text. -/
theorem covers_iff (h : t.Reads i before text after) {p : Position} :
    t.covers i p = true ↔ ∃ q, q < text.extent ∧ p = before.extent + q := by
  rw [covers, Span.contains_iff, h.start, h.stop, Text.extent_append]
  constructor
  · rintro ⟨hstart, hstop⟩
    obtain ⟨q, rfl⟩ := Position.exists_eq_add_of_le hstart
    exact ⟨q, Position.add_lt_add_iff_left.mp hstop, rfl⟩
  · rintro ⟨q, hq, rfl⟩
    exact ⟨Position.le_add_right _ _, Position.add_lt_add_iff_left.mpr hq⟩

end Reads

end Tree

end AnchoredEdit
