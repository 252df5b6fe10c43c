/-
`Proofs/Transform/MoveRule.lean` -- the rule by which siblings move.

The rule is about the tree alone. Take the innermost node at the cursor, the nearest node above
it whose children form a sequence, and the child of that node which leads down to the cursor.
Whether that child can move depends on its place among the operands, branches or items of the
sequence, and what comes out is the source with two of them exchanged.

The program asks for positions instead: which operand, which branch, which item contains the
cursor. On the path to the cursor the two ways of asking have the same answer, whatever comments
and empty nodes there are besides, and where the rule does not allow a move it is declined. Where
it does allow one, only the cursor can be in the way: it may belong at a position that is not made
of words, and sums that leave their words may be faults.
-/
import AnchoredEdit.Proofs.Transform.Exact

set_option autoImplicit false

namespace AnchoredEdit

namespace Move

open Exchange

variable {t : Tree} {o : Overflow} {p : Position} {d : Direction} {parent c i : t.Id}

/-! ## 1. The rule -/

/-- The child `c` of `parent` can move in direction `d`. An operator or a colon can always go;
a first one can only go right, a last one only left. -/
inductive Movable (parent c : t.Id) (d : Direction) : Prop
  | operand {left operator right : t.Id} (hkind : t.kind parent ∈ operandKinds)
      (hparts : t.parts parent = [left, operator, right])
      (hchild : c = operator ∨ c = left ∧ d = .right ∨ c = right ∧ d = .left)
  | branch {condition question consequence colon alternative : t.Id}
      (hkind : t.kind parent = branchKind)
      (hparts : t.parts parent = [condition, question, consequence, colon, alternative])
      (hchild : c = colon ∨ c = consequence ∧ d = .right ∨ c = alternative ∧ d = .left)
  | item {other : t.Id} (hoperands : t.kind parent ∉ operandKinds)
      (hbranches : t.kind parent ≠ branchKind)
      (hadjacent : d = .right ∧ [c, other] <:+: t.items parent
        ∨ d = .left ∧ [other, c] <:+: t.items parent)

/-- What the source becomes when the child `c` of `parent` moves in direction `d`. What stands
between operands and between branches is kept; what stands between items becomes a separator.
Behind the alternative nothing of the conditional is kept, which matters only if something is
there. -/
inductive Rewritten (parent c : t.Id) (d : Direction) : Text → Prop
  | operand {left operator right : t.Id} {u l m r v : Text} (hkind : t.kind parent ∈ operandKinds)
      (hparts : t.parts parent = [left, operator, right])
      (hleft : t.Reads left u l (m ++ r ++ v)) (hright : t.Reads right (u ++ l ++ m) r v) :
      Rewritten parent c d (u ++ r ++ m ++ l ++ v)
  | branch {condition question consequence colon alternative : t.Id} {u h x m y tail v : Text}
      (hkind : t.kind parent = branchKind)
      (hparts : t.parts parent = [condition, question, consequence, colon, alternative])
      (hparent : t.Reads parent u (h ++ x ++ m ++ y ++ tail) v)
      (hconsequence : t.Reads consequence (u ++ h) x (m ++ y ++ tail ++ v))
      (halternative : t.Reads alternative (u ++ h ++ x ++ m) y (tail ++ v))
      (htail : t.endByte parent = t.endByte alternative → tail = []) :
      Rewritten parent c d (u ++ h ++ y ++ m ++ x ++ v)
  | item {first second : t.Id} {u a g b v : Text} (hoperands : t.kind parent ∉ operandKinds)
      (hbranches : t.kind parent ≠ branchKind)
      (hadjacent : [first, second] <:+: t.items parent)
      (hmoved : c = first ∧ d = .right ∨ c = second ∧ d = .left)
      (hfirst : t.Reads first u a (g ++ b ++ v)) (hsecond : t.Reads second (u ++ a ++ g) b v) :
      Rewritten parent c d (u ++ b ++ separator ++ a ++ v)

/-! ## 2. Positions and paths agree -/

theorem Movable.of_possible (hwf : t.WellFormed) (hi : t.innermostAt p = some i)
    (hc : t.LeadsTo parent c i) (h : Possible t p d parent) : Movable parent c d := by
  obtain ⟨x, j, n, ho, hcarries, hcovers⟩ := h
  -- Whatever the exchange carries is a child that contains the cursor.
  have hpart : j ∈ t.parts parent → c = j := fun hj =>
    ((hwf.covers_iff_eq hi hc (Tree.parent_of_mem_parts hj)).mp hcovers).symm
  have hitem : j ∈ t.items parent → c = j := fun hj =>
    ((hwf.covers_iff_eq hi hc (Tree.parent_of_mem_items hj)).mp hcovers).symm
  cases ho with
  | operands hkind hparts hjoint =>
    refine .operand (List.contains_iff_mem.mp hkind) hparts ?_
    cases hcarries with
    | first => exact .inr (.inl ⟨hpart (by simp [hparts]), rfl⟩)
    | second => exact .inr (.inr ⟨hpart (by simp [hparts]), rfl⟩)
    | hinge hj =>
      cases hj
      exact .inl (hpart (by simp [hparts]))
  | branches hkind hparts hjoint =>
    refine .branch hkind hparts ?_
    cases hcarries with
    | first => exact .inr (.inl ⟨hpart (by simp [hparts]), rfl⟩)
    | second => exact .inr (.inr ⟨hpart (by simp [hparts]), rfl⟩)
    | hinge hj =>
      cases hj
      exact .inl (hpart (by simp [hparts]))
  | items hoperands hbranches hadjacent =>
    have hkind : t.kind parent ∉ operandKinds := by simpa using hoperands
    cases hcarries with
    | first =>
      obtain rfl := hitem (hadjacent.subset (by simp))
      exact .item hkind hbranches (.inl ⟨rfl, hadjacent⟩)
    | second =>
      obtain rfl := hitem (hadjacent.subset (by simp))
      exact .item hkind hbranches (.inr ⟨rfl, hadjacent⟩)
    | hinge hj => cases hj

theorem Movable.possible (hwf : t.WellFormed) (hi : t.innermostAt p = some i)
    (hc : t.LeadsTo parent c i) (h : Movable parent c d) : Possible t p d parent := by
  have hcovers : t.covers c p = true := (hwf.covers_iff_eq hi hc hc.parent_eq).mpr rfl
  cases h with
  | operand hkind hparts hchild =>
    obtain ⟨s, hl⟩ := (inOrder_operands hwf hparts []).exists_layout hwf
    have ho := Offered.operands (List.contains_iff_mem.mpr hkind) hparts hl.textBetween_eq
    rcases hchild with rfl | ⟨rfl, rfl⟩ | ⟨rfl, rfl⟩
    · exact ⟨_, _, _, ho, .hinge rfl, hcovers⟩
    · exact ⟨_, _, _, ho, .first, hcovers⟩
    · exact ⟨_, _, _, ho, .second, hcovers⟩
  | branch hkind hparts hchild =>
    obtain ⟨s, hl⟩ := (inOrder_branches hwf hparts []).exists_layout hwf
    have ho := Offered.branches hkind hparts hl.textBetween_eq
    rcases hchild with rfl | ⟨rfl, rfl⟩ | ⟨rfl, rfl⟩
    · exact ⟨_, _, _, ho, .hinge rfl, hcovers⟩
    · exact ⟨_, _, _, ho, .first, hcovers⟩
    · exact ⟨_, _, _, ho, .second, hcovers⟩
  | item hoperands hbranches hadjacent =>
    have hkind : operandKinds.contains (t.kind parent) = false := by simpa using hoperands
    rcases hadjacent with ⟨rfl, hadjacent⟩ | ⟨rfl, hadjacent⟩
    · exact ⟨_, _, _, .items hkind hbranches hadjacent, .first, hcovers⟩
    · exact ⟨_, _, _, .items hkind hbranches hadjacent, .second, hcovers⟩

/-! ## 3. What a move comes to -/

/-- The result of an exchange that goes with the child `c` is what the rule says. -/
theorem Rewritten.of_offered (hwf : t.WellFormed) {x : Exchange t} {s : Pieces} {j : t.Id}
    {byte : Nat} (ho : x.Offered parent) (hl : x.Layout s) (hcarries : x.Carries d j byte)
    (hitem : j ∈ t.items parent → c = j) : Rewritten parent c d (s.result x.joint) := by
  cases ho with
  | operands hkind hparts hjoint =>
    obtain ⟨hfirst, hsecond⟩ := hl.reads_pair rfl rfl
    cases hl.joint_eq hjoint
    rw [hl.result_eq rfl]
    exact .operand (List.contains_iff_mem.mp hkind) hparts hfirst hsecond
  | branches hkind hparts hjoint =>
    cases hl.joint_eq hjoint
    -- The edit covers the whole node, so the node reads what is replaced.
    have hparent : t.Reads parent s.before s.replaced s.after :=
      hwf.reads hl.source hl.startByte hl.endByte
    have hresult : s.result s.middle
        = s.before ++ s.head ++ s.second ++ s.middle ++ s.first ++ s.after := by
      simp only [Pieces.result, Pieces.replacement, List.append_assoc]
    rw [hresult]
    exact .branch hkind hparts hparent hl.first hl.second hl.tail_eq_nil
  | @items first second hoperands hbranches hadjacent =>
    obtain ⟨hfirst, hsecond⟩ := hl.reads_pair rfl rfl
    have hmoved : c = first ∧ d = .right ∨ c = second ∧ d = .left := by
      cases hcarries with
      | first => exact .inl ⟨hitem (hadjacent.subset (by simp)), rfl⟩
      | second => exact .inr ⟨hitem (hadjacent.subset (by simp)), rfl⟩
      | hinge hj => cases hj
    rw [hl.result_eq rfl]
    exact .item (by simpa using hoperands) hbranches hadjacent hmoved hfirst hsecond

/-! ## 4. The complete rule -/

theorem run_declines_of_sequenceAround (h : t.sequenceAround p = none) :
    (run t o p d).Declines := by
  rw [run, h]
  exact ⟨_, rfl⟩

theorem Movable.exists_made (hwf : t.WellFormed) (hi : t.innermostAt p = some i)
    (haround : t.sequenceAround p = some parent) (hc : t.LeadsTo parent c i)
    (h : Movable parent c d) : Nonempty (Made t p d) :=
  (h.possible hwf hi hc).exists_made hwf haround

/-- **The child that leads to the cursor is movable, or the move is declined.** -/
theorem movable_or_declines (hwf : t.WellFormed) (hi : t.innermostAt p = some i)
    (haround : t.sequenceAround p = some parent) (hc : t.LeadsTo parent c i) :
    Movable parent c d ∨ (run t o p d).Declines := by
  rcases possible_or_declines hwf o p d with ⟨parent', haround', hpossible⟩ | hdeclines
  · obtain rfl : parent = parent' := Option.some.inj (haround.symm.trans haround')
    exact .inl (.of_possible hwf hi hc hpossible)
  · exact .inr hdeclines

/-- **A move succeeds exactly if the child that leads to the cursor is movable**, where no cursor
leaves its words for good. -/
theorem run_eq_ok_iff_movable (hwf : t.WellFormed) (hi : t.innermostAt p = some i)
    (haround : t.sequenceAround p = some parent) (hc : t.LeadsTo parent c i)
    (hroom : o = .wraps ∨ p.HasRoom (t.source.byteLength + separator.byteLength)) :
    (∃ e, run t o p d = .ok e) ↔ Movable parent c d := by
  constructor
  · rintro ⟨e, he⟩
    rcases movable_or_declines (o := o) hwf hi haround hc with hmovable | ⟨why, hwhy⟩
    · exact hmovable
    · rw [hwhy] at he
      cases he
  · intro hmovable
    obtain ⟨m⟩ := hmovable.exists_made hwf hi haround hc
    exact m.exists_run hwf o hroom

/-- **The result of a successful move is the source rewritten by the rule.** -/
theorem exists_rewritten (hwf : t.WellFormed) (hi : t.innermostAt p = some i)
    (haround : t.sequenceAround p = some parent) (hc : t.LeadsTo parent c i) {e : Edit}
    (h : run t o p d = .ok e) :
    ∃ result, e.spliceInto? t.source = some result ∧ Rewritten parent c d result := by
  obtain ⟨m, rfl, -⟩ := exists_made_of_run_eq_ok hwf h
  obtain rfl : parent = m.parent := Option.some.inj (haround.symm.trans m.around)
  have hitem : m.node ∈ t.items m.parent → c = m.node := fun hj =>
    ((hwf.covers_iff_eq hi hc (Tree.parent_of_mem_items hj)).mp m.covers).symm
  exact ⟨_, (m.replaces _).splice, .of_offered hwf m.offered m.layout m.carries hitem⟩

/-- **What moving a sibling does.** Without a node at the cursor, or without a sequence around
that node, the move is declined. Otherwise one child of the sequence leads to the cursor; the
move succeeds exactly if that child is movable, the result is then the rewritten source, and a
child that is not movable is declined.

Where sums that leave their words are refused, the column of the cursor has to leave room for the
bytes of the source and of a separator. Without that room, a child that is movable is moved, or the
position of its cursor is refused. -/
theorem run_follows_rule (hwf : t.WellFormed) (o : Overflow) (p : Position) (d : Direction) :
    (t.innermostAt p = none → (run t o p d).Declines)
      ∧ ∀ i, t.innermostAt p = some i →
        ((∀ parent, ¬ t.Nearest sequenceKinds i parent) → (run t o p d).Declines)
          ∧ ∀ parent, t.Nearest sequenceKinds i parent →
            (∃ c, t.LeadsTo parent c i)
              ∧ ∀ c, t.LeadsTo parent c i →
                (o = .wraps ∨ p.HasRoom (t.source.byteLength + separator.byteLength) →
                    ((∃ e, run t o p d = .ok e) ↔ Movable parent c d))
                  ∧ (Movable parent c d → (∃ e, run t o p d = .ok e) ∨ (run t o p d).Overflows)
                  ∧ (¬ Movable parent c d → (run t o p d).Declines)
                  ∧ ∀ e, run t o p d = .ok e → ∃ result,
                      e.spliceInto? t.source = some result ∧ Rewritten parent c d result := by
  constructor
  · intro hi
    apply run_declines_of_sequenceAround
    rw [Tree.sequenceAround, hi]
    rfl
  intro i hi
  constructor
  · intro hnone
    apply run_declines_of_sequenceAround
    rw [Option.eq_none_iff_forall_ne_some]
    intro parent hparent
    obtain ⟨i', hi', hnearest⟩ := Tree.sequenceAround_eq_some_iff.mp hparent
    obtain rfl : i = i' := Option.some.inj (hi.symm.trans hi')
    exact hnone parent hnearest
  · intro parent hnearest
    have haround := Tree.sequenceAround_eq_some_iff.mpr ⟨i, hi, hnearest⟩
    constructor
    · exact Tree.exists_leadsTo_of_mem_ancestors hnearest.mem_ancestors
    · intro c hc
      refine ⟨run_eq_ok_iff_movable hwf hi haround hc, ?_,
        (movable_or_declines hwf hi haround hc).resolve_left,
        fun e he => exists_rewritten hwf hi haround hc he⟩
      intro hmovable
      obtain ⟨m⟩ := hmovable.exists_made hwf hi haround hc
      exact (m.lands_run hwf o).ok_or_overflows

/-- The first argument of a call leads to the cursor, and it can move right. -/
theorem run_follows_rule_sampleCall :
    Tree.sampleCall.WellFormed
      ∧ Tree.sampleCall.innermostAt ⟨0, 99⟩ = some ⟨6, by decide⟩
      ∧ Tree.sampleCall.Nearest sequenceKinds ⟨6, by decide⟩ ⟨4, by decide⟩
      ∧ Tree.sampleCall.LeadsTo ⟨4, by decide⟩ ⟨6, by decide⟩ ⟨6, by decide⟩
      ∧ Movable (t := Tree.sampleCall) ⟨4, by decide⟩ ⟨6, by decide⟩ .right
      ∧ ∃ result, sampleEdit.spliceInto? Tree.sampleCall.source = some result
          ∧ Rewritten (t := Tree.sampleCall) ⟨4, by decide⟩ ⟨6, by decide⟩ .right result := by
  have hi : Tree.sampleCall.innermostAt ⟨0, 99⟩ = some ⟨6, by decide⟩ := by decide +kernel
  have hnearest : Tree.sampleCall.Nearest sequenceKinds ⟨6, by decide⟩ ⟨4, by decide⟩ :=
    Tree.enclosingOfKind_eq_some_iff.mp (by decide +kernel)
  have hc : Tree.sampleCall.LeadsTo ⟨4, by decide⟩ ⟨6, by decide⟩ ⟨6, by decide⟩ :=
    ⟨by decide, .inl rfl⟩
  have hrule := run_follows_rule Tree.sampleCall_wellFormed .wraps ⟨0, 99⟩ .right
  obtain ⟨-, hmove⟩ := (hrule.2 _ hi).2 _ hnearest
  obtain ⟨hiff, -, -, hresult⟩ := hmove _ hc
  have hrun := run_sampleCall .wraps
  exact ⟨Tree.sampleCall_wellFormed, hi, hnearest, hc, (hiff (.inl rfl)).mp ⟨_, hrun⟩,
    hresult _ hrun⟩

end Move

end AnchoredEdit
