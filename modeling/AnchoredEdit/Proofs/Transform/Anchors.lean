/-
`Proofs/Transform/Anchors.lean` -- a position and the node captured there are the same anchor.

Whoever asks for an edit may say where the cursor is, or hand over a description of the node that
was under it. The description carries the cursor along, so transformations that go by the cursor
see no difference. Those that go by the node find the same one, provided nothing around it looks
the same. One transformation takes two ways that have little in common: deleting a function ranks
all declarations around a cursor by size, and climbs from a captured node. The two ways may end at
different nodes, but never at different spans, and the span is all that the edit is made of.

A description may also fit no node of the tree: its span is unknown, its text is stale, or several
nodes look like it. Transformations that act on a node decline then. Those that act at a position
only take the position from the description, and do what they do there.
-/
import AnchoredEdit.Proofs.Syntax.Closest
import AnchoredEdit.Proofs.Syntax.Locate
import AnchoredEdit.Proofs.Transform.MoveRule

set_option autoImplicit false

namespace AnchoredEdit

variable {t : Tree} {i : t.Id} {p : Position} {d : Descriptor} {weight : Nat}

/-! ## 1. Deleting a function -/

/-- Deleting goes by the span of the declaration, not by the declaration. -/
theorem Delete.function_congr (hwf : t.WellFormed) {a b : Anchor} {x y : Option t.Id}
    (ha : Delete.functionAt t a weight = .ok x) (hb : Delete.functionAt t b weight = .ok y)
    (hspan : x.map t.span = y.map t.span) :
    Delete.function t a weight = Delete.function t b weight := by
  unfold Delete.function
  rw [ha, hb]
  simp only [Attempt.ofChecked_ok, Attempt.ok_bind]
  cases x with
  | none =>
    cases y with
    | none => rfl
    | some j => cases hspan
  | some i =>
    cases y with
    | none => cases hspan
    | some j =>
      have hij : t.span i = t.span j := Option.some.inj hspan
      simp only [Attempt.need, Attempt.ok_bind]
      rw [hwf.text_eq_of_span_eq hij, hij]

/-- **The closest declaration at a position and the nearest one above the node there** give the
same edit. -/
theorem Delete.function_point_eq_node (hwf : t.WellFormed) (hw : t.Ranks weight)
    (hi : t.innermostAt p = some i) (hlocate : t.locate d = .ok (some i)) :
    Delete.function t (.point p) weight = Delete.function t (.node d) weight := by
  have hnode : Delete.functionAt t (.node d) weight
      = .ok (t.nearestOfKind i Delete.functionKinds) := by
    rw [Delete.functionAt, hlocate]
    rfl
  exact Delete.function_congr hwf rfl hnode (hwf.spansNested.span_smallestAround hw hi)

/-! ## 2. All transformations -/

/-- Transformations that go by the node do the same for anchors that designate the same node. -/
theorem Delete.element_congr {a b : Anchor} (h : a.node? t = b.node? t) :
    Delete.element t a = Delete.element t b := by
  rw [Delete.element, Delete.element, h]

theorem Describe.run_congr {a b : Anchor} {reach : Describe.Reach} (h : a.node? t = b.node? t) :
    Describe.run t a reach = Describe.run t b reach := by
  rw [Describe.run, Describe.run, h]

/-- **Acting at a position is acting on the node captured there.** For a position in the tree
there is a node to capture, and its description can be made. If no node around it has both its
span and its kind, then every transformation comes to the same at the position and at the
description: the same edit, or the same refusal. The weight of a line has to be above every
column, which is what makes sizes follow the nesting of nodes. -/
theorem Mod.attempt_point_eq_node {c : Config} (hwf : t.WellFormed) (hw : t.Ranks c.lineWeight)
    (hp : t.covers t.root p = true) :
    ∃ i d, t.innermostAt p = some i ∧ t.describe i (some p) = .ok d
      ∧ ((∀ j ∈ t.ancestors i, ¬ (t.span j = t.span i ∧ t.kind j = t.kind i)) →
          ∀ (m : Mod) (o : Overflow) (parser : Parser),
            m.attempt o parser t (.point p) c = m.attempt o parser t (.node d) c) := by
  obtain ⟨i, hi⟩ := hwf.spansNested.exists_innermostAt hp
  obtain ⟨text, -, hdescribe⟩ := hwf.exists_describe i (some p)
  refine ⟨i, _, hi, hdescribe, ?_⟩
  intro hdistinct m o parser
  have hlocate := hwf.locate_of_innermostAt hi hdescribe hdistinct
  have hnode : (Anchor.point p).node? t
      = (Anchor.node ⟨t.span i, text, t.kind i, some p⟩).node? t := by
    rw [Anchor.node?, Anchor.node?, hi, hlocate]
    rfl
  cases m with
  | moveLeft => rfl
  | moveRight => rfl
  | pointFreeToAnon => rfl
  | deleteFunction => exact Delete.function_point_eq_node hwf hw hi hlocate
  | deleteClosestTag => exact Delete.element_congr hnode
  | debugNodeUnderCursor => exact Describe.run_congr hnode

/-! ## 3. Descriptions that fit no node -/

/-- The transformation acts on the node that its anchor designates. The others act at the
position that the anchor stands for. -/
def Mod.actsOnNode : Mod → Bool
  | deleteFunction | deleteClosestTag | debugNodeUnderCursor => true
  | moveLeft | moveRight | pointFreeToAnon => false

/-- Whatever needs a node declines where the anchor designates none. -/
theorem Attempt.declines_of_node?_eq_none {α : Type} {a : Anchor} {f : t.Id → Attempt α}
    (h : a.node? t = .ok none) :
    (Attempt.ofChecked (a.node? t) >>= fun found =>
      Attempt.need .noNode found >>= f).Declines := by
  rw [h]
  exact ⟨.noNode, rfl⟩

theorem Delete.function_declines_of_locate (h : t.locate d = .ok none) :
    (Delete.function t (.node d) weight).Declines := by
  have hat : Delete.functionAt t (.node d) weight = .ok none := by
    rw [Delete.functionAt, h]
    rfl
  rw [Delete.function, hat]
  exact ⟨.noFunction, rfl⟩

/-- Outside of all nodes there is no reference. -/
theorem Wrap.run_declines_of_innermostAt (hwf : t.WellFormed) {o : Overflow} {parser : Parser}
    (hp : t.innermostAt p = none) : (Wrap.run t o parser p weight).Declines := by
  have hnone : t.smallestAround (t.allOfKind Wrap.referenceKinds) p weight = none := by
    rw [Option.eq_none_iff_forall_ne_some]
    intro i hi
    have hcovers := Tree.covers_of_smallestAround hi
    obtain ⟨j, hj⟩ := hwf.spansNested.exists_innermostAt hcovers
    rw [hp] at hj
    cases hj
  rw [Wrap.run, hnone]
  exact ⟨.noReference, rfl⟩

/-- Outside of all nodes there is nothing to move. -/
theorem Move.run_declines_of_innermostAt {o : Overflow} {dir : Direction}
    (hp : t.innermostAt p = none) : (Move.run t o p dir).Declines := by
  apply Move.run_declines_of_sequenceAround
  rw [Tree.sequenceAround, hp]
  rfl

/-- **A description that fits no node.** A transformation that acts on a node declines, because
nothing matches. One that acts at a position does not look at the node: it comes to what it comes
to at the recorded cursor, or at the start of the described span if none was recorded, and it
declines as well if that position lies outside of the tree. -/
theorem Mod.attempt_of_locate_eq_none {m : Mod} {o : Overflow} {parser : Parser} {c : Config}
    (hwf : t.WellFormed) (hlocate : t.locate d = .ok none) :
    (m.actsOnNode = true → (m.attempt o parser t (.node d) c).Declines)
      ∧ (m.actsOnNode = false →
          m.attempt o parser t (.node d) c
              = m.attempt o parser t (.point (d.cursor.getD d.span.start)) c
            ∧ (t.innermostAt (d.cursor.getD d.span.start) = none →
                (m.attempt o parser t (.node d) c).Declines)) := by
  have hnode : (Anchor.node d).node? t = .ok none := hlocate
  cases m with
  | moveLeft => exact ⟨nofun, fun _ => ⟨rfl, Move.run_declines_of_innermostAt⟩⟩
  | moveRight => exact ⟨nofun, fun _ => ⟨rfl, Move.run_declines_of_innermostAt⟩⟩
  | pointFreeToAnon => exact ⟨nofun, fun _ => ⟨rfl, Wrap.run_declines_of_innermostAt hwf⟩⟩
  | deleteFunction => exact ⟨fun _ => Delete.function_declines_of_locate hlocate, nofun⟩
  | deleteClosestTag => exact ⟨fun _ => Attempt.declines_of_node?_eq_none hnode, nofun⟩
  | debugNodeUnderCursor => exact ⟨fun _ => Attempt.declines_of_node?_eq_none hnode, nofun⟩

/-- A description of the first argument of `sampleCall` from before it was changed. -/
def Tree.sampleStale : Descriptor :=
  ⟨⟨⟨0, 2⟩, ⟨1, 2⟩⟩, "[é,\n1]".toList, "array", some ⟨0, 99⟩⟩

theorem Tree.locate_sampleStale : sampleCall.locate sampleStale = .ok none := rfl

/-- The stale description neither deletes markup nor shows the tree. -/
theorem Mod.attempt_of_locate_eq_none_sampleStale :
    Tree.sampleCall.WellFormed ∧ Tree.sampleCall.locate Tree.sampleStale = .ok none
      ∧ (Mod.deleteClosestTag.attempt .wraps (fun _ _ => some Tree.sampleCall) Tree.sampleCall
          (.node Tree.sampleStale) .standard).Declines
      ∧ (Mod.debugNodeUnderCursor.attempt .wraps (fun _ _ => some Tree.sampleCall)
          Tree.sampleCall (.node Tree.sampleStale) .standard).Declines :=
  ⟨Tree.sampleCall_wellFormed, Tree.locate_sampleStale,
    (Mod.attempt_of_locate_eq_none Tree.sampleCall_wellFormed Tree.locate_sampleStale).1 rfl,
    (Mod.attempt_of_locate_eq_none Tree.sampleCall_wellFormed Tree.locate_sampleStale).1 rfl⟩

/-- **A stale description still moves text**: the argument that it no longer describes trades
places with its neighbour. -/
theorem Mod.stale_description_moves :
    Tree.sampleCall.WellFormed ∧ Tree.sampleCall.locate Tree.sampleStale = .ok none
      ∧ Mod.moveRight.attempt .wraps (fun _ _ => some Tree.sampleCall) Tree.sampleCall
          (.node Tree.sampleStale) .standard = .ok Move.sampleEdit
      ∧ ¬ (Mod.moveRight.attempt .wraps (fun _ _ => some Tree.sampleCall) Tree.sampleCall
          (.node Tree.sampleStale) .standard).Declines := by
  have hrun : Mod.moveRight.attempt .wraps (fun _ _ => some Tree.sampleCall) Tree.sampleCall
      (.node Tree.sampleStale) .standard = .ok Move.sampleEdit := Move.run_sampleCall .wraps
  refine ⟨Tree.sampleCall_wellFormed, Tree.locate_sampleStale, hrun, ?_⟩
  rintro ⟨why, hwhy⟩
  rw [hrun] at hwhy
  cases hwhy

/-! ## 4. One function inside another -/

/-- A parse of `function f(){function g(){}}` with a line break in the inner body: the inner
function stops at a smaller column than it starts at. -/
def Tree.sampleFunctions : Tree :=
  (ofRows? "function f()\x7bfunction g()\x7b\n\x7d\x7d".toList .script [
    ⟨0, ⟨"program", true, none, ⟨⟨0, 0⟩, ⟨1, 2⟩⟩, 0, 29⟩⟩,
    ⟨1, ⟨"function_declaration", true, none, ⟨⟨0, 0⟩, ⟨1, 2⟩⟩, 0, 29⟩⟩,
    ⟨2, ⟨"function", false, none, ⟨⟨0, 0⟩, ⟨0, 8⟩⟩, 0, 8⟩⟩,
    ⟨2, ⟨"identifier", true, some "name", ⟨⟨0, 9⟩, ⟨0, 10⟩⟩, 9, 10⟩⟩,
    ⟨2, ⟨"formal_parameters", true, some "parameters", ⟨⟨0, 10⟩, ⟨0, 12⟩⟩, 10, 12⟩⟩,
    ⟨3, ⟨"(", false, none, ⟨⟨0, 10⟩, ⟨0, 11⟩⟩, 10, 11⟩⟩,
    ⟨3, ⟨")", false, none, ⟨⟨0, 11⟩, ⟨0, 12⟩⟩, 11, 12⟩⟩,
    ⟨2, ⟨"statement_block", true, some "body", ⟨⟨0, 12⟩, ⟨1, 2⟩⟩, 12, 29⟩⟩,
    ⟨3, ⟨"\x7b", false, none, ⟨⟨0, 12⟩, ⟨0, 13⟩⟩, 12, 13⟩⟩,
    ⟨3, ⟨"function_declaration", true, none, ⟨⟨0, 13⟩, ⟨1, 1⟩⟩, 13, 28⟩⟩,
    ⟨4, ⟨"function", false, none, ⟨⟨0, 13⟩, ⟨0, 21⟩⟩, 13, 21⟩⟩,
    ⟨4, ⟨"identifier", true, some "name", ⟨⟨0, 22⟩, ⟨0, 23⟩⟩, 22, 23⟩⟩,
    ⟨4, ⟨"formal_parameters", true, some "parameters", ⟨⟨0, 23⟩, ⟨0, 25⟩⟩, 23, 25⟩⟩,
    ⟨5, ⟨"(", false, none, ⟨⟨0, 23⟩, ⟨0, 24⟩⟩, 23, 24⟩⟩,
    ⟨5, ⟨")", false, none, ⟨⟨0, 24⟩, ⟨0, 25⟩⟩, 24, 25⟩⟩,
    ⟨4, ⟨"statement_block", true, some "body", ⟨⟨0, 25⟩, ⟨1, 1⟩⟩, 25, 28⟩⟩,
    ⟨5, ⟨"\x7b", false, none, ⟨⟨0, 25⟩, ⟨0, 26⟩⟩, 25, 26⟩⟩,
    ⟨5, ⟨"\x7d", false, none, ⟨⟨1, 0⟩, ⟨1, 1⟩⟩, 27, 28⟩⟩,
    ⟨3, ⟨"\x7d", false, none, ⟨⟨1, 1⟩, ⟨1, 2⟩⟩, 28, 29⟩⟩]).get (by decide)

theorem Tree.sampleFunctions_wellFormed : sampleFunctions.WellFormed where
  eq_root := by decide
  preorder := by decide
  start_le_end := by decide
  start_at := by decide
  stop_at := by decide
  nested := by decide
  disjoint := by decide

theorem Tree.sampleFunctions_ranks : sampleFunctions.Ranks Config.standard.lineWeight where
  weight_lt := by decide
  start_lt := by decide
  stop_lt := by decide
  le_extent := by decide
  extent_lt := by decide

/-- In the body of the inner function, at a column past the end of its line, the position and the
captured body delete the same function. -/
theorem Mod.attempt_point_eq_node_sampleFunctions :
    Tree.sampleFunctions.WellFormed
      ∧ Tree.sampleFunctions.Ranks Config.standard.lineWeight
      ∧ Tree.sampleFunctions.covers Tree.sampleFunctions.root ⟨0, 99⟩ = true
      ∧ ∃ d, Tree.sampleFunctions.describe ⟨15, by decide⟩ (some ⟨0, 99⟩) = .ok d
        ∧ Mod.deleteFunction.attempt .wraps (fun _ _ => some Tree.sampleFunctions)
            Tree.sampleFunctions (.node d) .standard
          = .ok {
              span := ⟨⟨0, 13⟩, ⟨1, 1⟩⟩, replaced := "function g()\x7b\n\x7d".toList
              replacement := [], cursor := some ⟨0, 13⟩ } := by
  have hp : Tree.sampleFunctions.covers Tree.sampleFunctions.root ⟨0, 99⟩ = true := by decide
  obtain ⟨i, d, hi, hd, hsame⟩ := Mod.attempt_point_eq_node Tree.sampleFunctions_wellFormed
    Tree.sampleFunctions_ranks hp
  have hinnermost : Tree.sampleFunctions.innermostAt ⟨0, 99⟩ = some ⟨15, by decide⟩ := by
    decide +kernel
  obtain rfl : i = ⟨15, by decide⟩ := Option.some.inj (hi.symm.trans hinnermost)
  refine ⟨Tree.sampleFunctions_wellFormed, Tree.sampleFunctions_ranks, hp, d, hd, ?_⟩
  rw [← hsame (by decide +kernel)]
  exact Attempt.eq_ok_of_toOption (by decide +kernel)

end AnchoredEdit
