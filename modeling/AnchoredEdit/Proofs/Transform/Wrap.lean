/-
`Proofs/Transform/Wrap.lean` -- what wrapping a reference leaves behind.

The reference that is wrapped is found in two steps: the closest reference at the cursor, and
then a climb through the chains it is the object of. The climb only ever goes up, so what it
reaches still contains the cursor. The wrapped text is an arrow, the reference as it was, and a
call; the cursor moves with the reference.
-/
import AnchoredEdit.Proofs.Transform.Move
import AnchoredEdit.Transform.Wrap

set_option autoImplicit false

namespace AnchoredEdit

namespace Wrap

open Attempt

variable {t : Tree} {p : Position} {i j : t.Id}

/-- The chain around a node is its parent. -/
theorem parent_of_outerChain? (h : outerChain? t i = some j) : t.parent i = some j :=
  (Option.filter_eq_some_iff.mp h).1

theorem wrappableFrom_of_outerChain?_eq_none (hi : ¬ isWrappable t i = true)
    (h : outerChain? t i = none) : wrappableFrom t i = none := by
  rw [wrappableFrom, if_neg hi]
  split
  · rfl
  · next k hk => rw [h] at hk; cases hk

theorem wrappableFrom_of_outerChain? (hi : ¬ isWrappable t i = true)
    (h : outerChain? t i = some j) : wrappableFrom t i = wrappableFrom t j := by
  rw [wrappableFrom, if_neg hi]
  split
  · next hnone => rw [h] at hnone; cases hnone
  · next k hk =>
    rw [h] at hk
    cases hk
    rfl

/-- **The climb goes up.** -/
theorem mem_path_of_wrappableFrom (h : wrappableFrom t i = some j) :
    j = i ∨ j ∈ t.ancestors i := by
  induction i using wrappableFrom.induct t with
  | case1 i hi =>
    rw [wrappableFrom, if_pos hi] at h
    cases h
    exact .inl rfl
  | case2 i hi hnone =>
    rw [wrappableFrom_of_outerChain?_eq_none hi hnone] at h
    cases h
  | case3 i hi k hk ih =>
    -- One step up is to the parent, and the rest of the climb starts there.
    rw [wrappableFrom_of_outerChain? hi hk] at h
    rw [Tree.ancestors_of_parent (parent_of_outerChain? hk), List.mem_cons]
    exact .inr (ih h)

/-- The reference that is wrapped at `p`: the climb from the closest reference reaches it. -/
def Target (t : Tree) (p : Position) (weight : Nat) (i : t.Id) : Prop :=
  ∃ resolved, t.smallestAround (t.allOfKind referenceKinds) p weight = some resolved
    ∧ wrappableFrom t resolved = some i

/-- The reference that is wrapped contains the cursor. -/
theorem Target.covers {weight : Nat} (h : Target t p weight i) (hwf : t.WellFormed) :
    t.covers i p = true := by
  obtain ⟨resolved, hresolved, hi⟩ := h
  have hcovers := Tree.covers_of_smallestAround hresolved
  rcases mem_path_of_wrappableFrom hi with rfl | hi
  · exact hcovers
  · exact hwf.covers_ancestor hi hcovers

/-- A wrap with all that goes into it: the reference that is wrapped, the source cut along it, and
how far into the reference the cursor is. -/
structure Made (t : Tree) (p : Position) (weight : Nat) where
  node : t.Id
  (before text after : Text)
  distance : Position
  found : Target t p weight node
  reads : t.Reads node before text after
  inside : distance < text.extent
  point_eq : p = before.extent + distance

/-- A reference to wrap is wrapped. -/
theorem Target.exists_made {weight : Nat} (h : Target t p weight i) (hwf : t.WellFormed) :
    ∃ m : Made t p weight, m.node = i := by
  obtain ⟨before, text, after, hreads⟩ := hwf.exists_reads i
  obtain ⟨q, hq, hp⟩ := hreads.covers_iff.mp (h.covers hwf)
  exact ⟨{
    node := i, before, text, after, distance := q, found := h, reads := hreads, inside := hq
    point_eq := hp }, rfl⟩

namespace Made

variable {weight : Nat} {call : Text} {parser : Parser}

/-- Where the cursor belongs after the wrap. -/
def target (m : Made t p weight) : Position :=
  (m.before ++ arrow).extent + m.distance

/-- The edit of a wrap that puts the cursor at `cursor`. -/
def edit (m : Made t p weight) (call : Text) (cursor : Position) : Edit where
  span := t.span m.node
  replaced := m.text
  replacement := arrow ++ m.text ++ call
  cursor := some cursor

/-- What is left to do once the reference to wrap is known. -/
theorem run_eq (m : Made t p weight) (o : Overflow) (parser : Parser) :
    run t o parser p weight = callOf t parser m.text >>= fun call =>
      ofChecked (p.carry o (t.span m.node).start (t.span m.node).start arrow) >>= fun cursor =>
        .ok (m.edit call cursor) := by
  obtain ⟨resolved, hresolved, hwrap⟩ := m.found
  unfold run
  rw [hresolved, need, ok_bind, hwrap, need, ok_bind, m.reads.text_eq, ofChecked_ok, ok_bind]
  rfl

/-- **The reference is wrapped** if its call is known. -/
theorem lands_run (m : Made t p weight) (hcall : callOf t parser m.text = .ok call)
    (o : Overflow) :
    Lands o (m.before ++ arrow).extent m.distance (m.edit call) (run t o parser p weight) := by
  have hlands := lands_carry o m.before.extent m.distance (Text.advance_extent m.before arrow)
    (m.edit call)
  rw [← m.point_eq] at hlands
  rw [m.run_eq, hcall, ok_bind, m.reads.start]
  exact hlands

/-- With room for the source and the arrow, the cursor stays in its words. -/
theorem fits (m : Made t p weight) (hroom : p.HasRoom (t.source.byteLength + arrow.byteLength)) :
    (m.before ++ arrow).extent.Fits ∧ m.target.Fits := by
  have hsize : (m.before ++ arrow ++ m.text ++ m.after).byteLength
      ≤ t.source.byteLength + arrow.byteLength := by
    rw [m.reads.source]
    simp only [Text.byteLength_append]
    omega
  exact Text.fits_of_hasRoom m.inside m.point_eq (hroom.mono hsize)

end Made

/-- A reference is wrapped at `p`, or nothing matches there. -/
theorem exists_made_or_declines (hwf : t.WellFormed) (o : Overflow) (parser : Parser)
    (p : Position) (weight : Nat) :
    Nonempty (Made t p weight) ∨ (run t o parser p weight).Declines := by
  unfold run
  cases hresolved : t.smallestAround (t.allOfKind referenceKinds) p weight with
  | none => exact .inr ⟨_, rfl⟩
  | some resolved =>
    cases hwrap : wrappableFrom t resolved with
    | none => exact .inr ⟨.notWrappable, by rw [need, ok_bind, hwrap]; rfl⟩
    | some i =>
      obtain ⟨m, -⟩ := Target.exists_made ⟨resolved, hresolved, hwrap⟩ hwf
      exact .inl ⟨m⟩

/-- **What a successful wrap is.** -/
theorem exists_made_of_run_eq_ok (hwf : t.WellFormed) {o : Overflow} {parser : Parser}
    {weight : Nat} {e : Edit} (h : run t o parser p weight = .ok e) :
    ∃ (m : Made t p weight) (call : Text), callOf t parser m.text = .ok call
      ∧ e = m.edit call m.target.wrap ∧ (o = .faults → m.target.Fits) := by
  rcases exists_made_or_declines hwf o parser p weight with ⟨⟨m⟩⟩ | ⟨why, hwhy⟩
  · have hrun := h
    rw [m.run_eq] at hrun
    obtain ⟨call, hcall, -⟩ := bind_eq_ok_iff.mp hrun
    exact ⟨m, call, hcall, (m.lands_run hcall o).eq_of_ok h⟩
  · rw [hwhy] at h
    cases h

end Wrap

end AnchoredEdit
