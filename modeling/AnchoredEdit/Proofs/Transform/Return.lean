/-
`Proofs/Transform/Return.lean` -- moving there and back.

After a move the source is parsed again, and nothing but the cursor connects the new tree with
the old one. If the new tree has the two exchanged nodes where the move put them, then the cursor
is on one of them again, or on the operator or colon between them, and the move in the opposite
direction is the same exchange once more. For that the cursor must not have wrapped around, so its
column has to leave room for the bytes of the result.

Operands and branches come back exactly, and so does the cursor. Items come back with a separator
between them, so the source comes back exactly if a separator stood there in the first place.

The layout of the second exchange is the layout of the first one, turned around: the pieces are
the same, and the two that trade places have done so.
-/
import AnchoredEdit.Proofs.Transform.Exact

set_option autoImplicit false

namespace AnchoredEdit

/-- A kind of node whose exchanges go around an operator or a colon. -/
def Move.Hinged (kind : String) : Prop :=
  kind ∈ Move.operandKinds ∨ kind = Move.branchKind

/-- Node `i` covers `size` bytes from byte `start` on. -/
structure Tree.StandsAt (t : Tree) (i : t.Id) (start size : Nat) : Prop where
  startByte : t.startByte i = start
  endByte : t.endByte i = start + size

namespace Exchange

open Move

variable {t t' : Tree} {parent i : t.Id} {parent' j : t'.Id} {x : Exchange t} {y : Exchange t'}
  {s : Pieces}

/-! ## 1. Exchanges by the kind of the node -/

theorem Offered.hinged_iff (h : x.Offered parent) :
    Hinged (t.kind parent) ↔ ∃ i, x.hinge = some i := by
  cases h with
  | @operands _ operator _ _ hkind hparts hjoint =>
    exact iff_of_true (.inl (List.contains_iff_mem.mp hkind)) ⟨operator, rfl⟩
  | @branches _ _ _ colon _ _ hkind hparts hjoint =>
    exact iff_of_true (.inr hkind) ⟨colon, rfl⟩
  | items hoperands hbranches hadjacent =>
    refine iff_of_false ?_ ?_
    · rintro (h | h)
      · rw [List.contains_iff_mem.mpr h] at hoperands
        cases hoperands
      · exact hbranches h
    · rintro ⟨i, ⟨⟩⟩

theorem Offered.joint_eq_separator (h : x.Offered parent) (hkind : ¬ Hinged (t.kind parent)) :
    x.joint = separator := by
  cases h with
  | operands hk hparts hjoint => exact absurd (.inl (List.contains_iff_mem.mp hk)) hkind
  | branches hk hparts hjoint => exact absurd (.inr hk) hkind
  | items hoperands hbranches hadjacent => rfl

/-- The edit of the branches covers the whole node. -/
theorem Offered.opens_closes_of_branches (h : x.Offered parent)
    (hkind : t.kind parent = branchKind) : x.opens = parent ∧ x.closes = parent := by
  cases h with
  | operands hk hparts hjoint =>
    rw [hkind] at hk
    exact absurd hk (by decide)
  | branches hk hparts hjoint => exact ⟨rfl, rfl⟩
  | items hoperands hbranches hadjacent => exact absurd hkind hbranches

/-- Any other edit covers the two nodes and what is between them. -/
theorem Offered.opens_closes (h : x.Offered parent) (hkind : t.kind parent ≠ branchKind) :
    x.opens = x.first ∧ x.closes = x.second := by
  cases h with
  | operands hk hparts hjoint => exact ⟨rfl, rfl⟩
  | branches hk hparts hjoint => exact absurd hk hkind
  | items hoperands hbranches hadjacent => exact ⟨rfl, rfl⟩

/-! ## 2. The exchange that leads back -/

/-- The nodes of `y` stand where the exchange `x` puts its nodes, with first and second turned
around. -/
structure Turned (x : Exchange t) (y : Exchange t') : Prop where
  first : t'.StandsAt y.first (t.startByte x.first) (t.size x.second)
  hinge : ∀ i j, x.hinge = some i → y.hinge = some j → t'.StandsAt j
    (t.startByte x.first + t.size x.second + (t.startByte i - t.endByte x.first)) (t.size i)
  second : t'.StandsAt y.second
    (t.startByte x.first + t.size x.second + x.joint.byteLength) (t.size x.first)

/-- The pieces of the result, cut along the same exchange. -/
def Pieces.turned (s : Pieces) (joint : Text) : Pieces where
  before := s.before
  head := s.head
  first := s.second
  middle := joint
  second := s.first
  tail := []
  after := s.after

theorem Pieces.result_eq_turned (s : Pieces) (joint : Text) : s.result joint
    = (s.turned joint).before ++ (s.turned joint).replaced ++ (s.turned joint).after := by
  simp only [result, replacement, turned, replaced, List.append_nil]

/-- What stands where a node went reads what that node read. -/
theorem Turned.reads_hinge (h : x.Turned y) (hwf' : t'.WellFormed) (ho : x.Offered parent)
    (hl : x.Layout s) (hsource : t'.source = s.result x.joint) {m₁ text m₂ : Text}
    (hi : x.hinge = some i) (hj : y.hinge = some j) (hmiddle : s.middle = m₁ ++ text ++ m₂)
    (hreads : t.Reads i (s.before ++ s.head ++ s.first ++ m₁) text
      (m₂ ++ s.second ++ s.tail ++ s.after)) :
    t'.Reads j (s.before ++ s.head ++ s.second ++ m₁) text (m₂ ++ s.first ++ s.after) := by
  have hat := h.hinge i j hi hj
  have hstart : t'.startByte j = (s.before ++ s.head ++ s.second ++ m₁).byteLength := by
    rw [hat.startByte, hl.first.startByte, hl.second.size_eq, hreads.startByte, hl.first.endByte]
    simp only [Text.byteLength_append]
    omega
  refine hwf'.reads ?_ hstart ?_
  · rw [hsource, Pieces.result, Pieces.replacement, ho.joint_eq_of_hinge hi hl, hmiddle]
    simp only [List.append_assoc]
  · rw [hat.endByte, ← hat.startByte, hstart, hreads.size_eq, ← Text.byteLength_append]

/-- **The layout of the exchange that leads back.** Its outer ends have to be the ends of what
was written. -/
theorem Turned.layout (h : x.Turned y) (hwf' : t'.WellFormed) (ho : x.Offered parent)
    (ho' : y.Offered parent') (hkind : t'.kind parent' = t.kind parent) (hl : x.Layout s)
    (hsource : t'.source = s.result x.joint)
    (hopens : t'.startByte y.opens = s.before.byteLength)
    (hcloses : t'.endByte y.closes = t'.endByte y.second) :
    y.Layout (s.turned x.joint) := by
  have hturned := hsource.trans (s.result_eq_turned x.joint)
  have hend : t'.endByte y.second
      = ((s.turned x.joint).before ++ (s.turned x.joint).replaced).byteLength := by
    rw [h.second.endByte, hl.first.startByte, hl.first.size_eq, hl.second.size_eq]
    simp only [Pieces.replaced, Pieces.turned, List.append_nil, Text.byteLength_append]
    omega
  constructor
  case source => exact hturned
  case startByte => exact hopens
  case start =>
    exact hwf'.start_eq (hturned.trans (List.append_assoc ..)) hopens
  case first =>
    refine hwf'.reads ?_ (h.first.startByte.trans hl.first.startByte) ?_
    · rw [hturned]
      simp only [Pieces.replaced, Pieces.turned, List.append_assoc]
    · rw [h.first.endByte, hl.first.startByte, hl.second.size_eq, ← Text.byteLength_append]
      rfl
  case hinge =>
    intro j hj
    -- The kinds agree, so the first exchange went around a hinge as well.
    obtain ⟨i, hi⟩ := ho.hinged_iff.mp (hkind ▸ ho'.hinged_iff.mpr ⟨j, hj⟩)
    obtain ⟨m₁, text, m₂, hmiddle, hreads⟩ := hl.hinge i hi
    refine ⟨m₁, text, m₂, (ho.joint_eq_of_hinge hi hl).trans hmiddle, ?_⟩
    have hback := h.reads_hinge hwf' ho hl hsource hi hj hmiddle hreads
    simpa only [Pieces.turned, List.append_nil] using hback
  case second =>
    refine hwf'.reads ?_ ?_ ?_
    · rw [hturned]
      simp only [Pieces.replaced, Pieces.turned, List.append_assoc]
    · rw [h.second.startByte, hl.first.startByte, hl.second.size_eq]
      simp only [Pieces.turned, Text.byteLength_append]
    · rw [hend]
      simp only [Pieces.replaced, Pieces.turned, List.append_assoc, List.append_nil]
  case endByte => exact hcloses.trans hend
  case stop => exact hwf'.stop_eq hturned (hcloses.trans hend)

/-- **The carried node is carried back.** Its copy is the node at the cursor of the second
exchange, and the copy of the copy starts where the node was, provided that what stands between
the two is what stood there at first. -/
theorem Copy.turned {d : Direction} {before text after lead rest : Text}
    (hcopy : x.Copy s d i before text after lead rest) (h : x.Turned y) (hwf' : t'.WellFormed)
    (ho : x.Offered parent) (ho' : y.Offered parent') (hkind : t'.kind parent' = t.kind parent)
    (hl : x.Layout s) (hsource : t'.source = s.result x.joint) :
    ∃ j after' lead' rest', y.Copy (s.turned x.joint) d.opposite j lead text after' lead' rest'
      ∧ (y.joint = s.middle → lead' = before) := by
  cases hcopy with
  -- What went right as the first of the two comes back as the second, and the other way round.
  | first => exact ⟨_, _, _, _, .second, fun _ => rfl⟩
  | second => exact ⟨_, _, _, _, .first, fun hjoint => by rw [hjoint]; rfl⟩
  | @hinge d i m₁ text m₂ hi hmiddle hreads =>
    obtain ⟨j, hj⟩ := ho'.hinged_iff.mp (hkind ▸ ho.hinged_iff.mpr ⟨i, hi⟩)
    have hback := h.reads_hinge hwf' ho hl hsource hi hj hmiddle hreads
    have hmiddle' : (s.turned x.joint).middle = m₁ ++ text ++ m₂ :=
      (ho.joint_eq_of_hinge hi hl).trans hmiddle
    refine ⟨j, _, _, _, .hinge hj hmiddle' ?_, fun _ => rfl⟩
    simpa only [Pieces.turned, List.append_nil] using hback

/-- Exchanging the two once more, with what stood between them, gives what was replaced. -/
theorem Pieces.turned_replacement (s : Pieces) (joint : Text) (htail : s.tail = []) :
    (s.turned joint).replacement s.middle = s.replaced := by
  simp only [replacement, turned, replaced, htail, List.append_nil]

end Exchange

namespace Move

open Exchange

variable {t t' : Tree} {o : Overflow} {p cursor : Position} {d : Direction} {e : Edit}
  {parent i : t.Id} {parent' : t'.Id} {x : Exchange t} {y : Exchange t'} {byte : Nat}

/-! ## 3. There and back -/

/-- In another tree, the result of the move `m` has the node `parent'` around the new cursor, of
the same kind as before, and it offers the exchange `y` that leads back. Branches are rewritten
as a whole: there the old node ends with its second branch, and the new one is what was written. -/
structure Made.Back (m : Made t p d) (parent' : t'.Id) (y : Exchange t') : Prop where
  wellFormed : t'.WellFormed
  source : t'.source = m.result
  around : t'.sequenceAround m.target = some parent'
  kind : t'.kind parent' = t.kind m.parent
  offered : y.Offered parent'
  turned : m.exchange.Turned y
  whole : t.kind m.parent = branchKind → t.endByte m.parent = t.endByte m.exchange.second
    ∧ t'.StandsAt parent' (t.startByte m.parent)
        (m.pieces.replacement m.exchange.joint).byteLength

namespace Made.Back

variable {m : Made t p d}

/-- The way back reaches from one end of what was written to the other. -/
theorem ends (h : m.Back parent' y) : t'.startByte y.opens = m.pieces.before.byteLength
    ∧ t'.endByte y.closes = t'.endByte y.second := by
  have hfirst := m.layout.first
  by_cases hbranch : t.kind m.parent = branchKind
  · obtain ⟨-, hwhole⟩ := h.whole hbranch
    obtain ⟨hopens, -⟩ := m.offered.opens_closes_of_branches hbranch
    obtain ⟨hopens', hcloses'⟩ := h.offered.opens_closes_of_branches (h.kind.trans hbranch)
    have hstart : t.startByte m.parent = m.pieces.before.byteLength := by
      rw [← hopens, m.layout.startByte]
    constructor
    · rw [hopens', hwhole.startByte, hstart]
    · -- Both are the end of the replacement, once as a length and once summed up piece by piece.
      rw [hcloses', hwhole.endByte, hstart, h.turned.second.endByte, hfirst.startByte,
        hfirst.size_eq, m.layout.second.size_eq]
      simp only [Pieces.replacement, Text.byteLength_append]
      omega
  · obtain ⟨hopens, -⟩ := m.offered.opens_closes hbranch
    obtain ⟨hopens', hcloses'⟩ := h.offered.opens_closes (by rw [h.kind]; exact hbranch)
    constructor
    · rw [hopens', h.turned.first.startByte, ← hopens, m.layout.startByte]
    · rw [hcloses']

theorem layout (h : m.Back parent' y) : y.Layout (m.pieces.turned m.exchange.joint) :=
  h.turned.layout h.wellFormed m.offered h.offered h.kind m.layout h.source h.ends.1 h.ends.2

/-- Nothing behind the second node was lost on the way there. -/
theorem tail_eq_nil (h : m.Back parent' y) : m.pieces.tail = [] := by
  apply m.layout.tail_eq_nil
  by_cases hbranch : t.kind m.parent = branchKind
  · rw [(m.offered.opens_closes_of_branches hbranch).2, (h.whole hbranch).1]
  · rw [(m.offered.opens_closes hbranch).2]

/-- The two are joined in the same way on both moves. -/
theorem joint_eq_joint (h : m.Back parent' y) : y.joint = m.exchange.joint := by
  by_cases hhinged : Hinged (t.kind m.parent)
  · obtain ⟨j, hj⟩ := h.offered.hinged_iff.mp (h.kind ▸ hhinged)
    exact h.offered.joint_eq_of_hinge hj h.layout
  · rw [h.offered.joint_eq_separator (h.kind ▸ hhinged), m.offered.joint_eq_separator hhinged]

/-- The move back adds no bytes. -/
theorem byteLength_result (h : m.Back parent' y) :
    ((m.pieces.turned m.exchange.joint).result y.joint).byteLength = t'.source.byteLength := by
  rw [h.source, h.joint_eq_joint]
  simp only [Made.result, Pieces.result, Pieces.replacement, Pieces.turned,
    Text.byteLength_append]
  omega

/-- **The move back succeeds.** If the two are joined by what stood between them at first, it
writes what was replaced, and the cursor is where it was. -/
theorem exists_run (h : m.Back parent' y) (o : Overflow)
    (hroom : p.HasRoom t'.source.byteLength) : ∃ e', run t' o m.target d.opposite = .ok e'
      ∧ e'.spliceInto? t'.source = some ((m.pieces.turned m.exchange.joint).result y.joint)
      ∧ (y.joint = m.pieces.middle → e'.replacement = m.pieces.replaced ∧ e'.cursor = some p) := by
  obtain ⟨j, after, lead, rest, hcopy, hlead⟩ :=
    m.copy.turned h.turned h.wellFormed m.offered h.offered h.kind m.layout h.source
  have hlands := lands_run_of_copy o h.wellFormed h.offered h.layout hcopy m.inside rfl h.around
  rw [← h.byteLength_result, hcopy.result_eq h.offered h.layout] at hroom
  obtain ⟨hstart, hcursor⟩ := Text.fits_of_hasRoom m.inside m.point_eq hroom
  refine ⟨_, hlands.fits hstart hcursor, (h.layout.replaces _ _).splice, ?_⟩
  intro hjoint
  constructor
  · rw [hjoint]
    exact m.pieces.turned_replacement _ h.tail_eq_nil
  · rw [hlead hjoint]
    exact congrArg some m.point_eq.symm

/-- Around a hinge the two are joined by what stood between them at first. -/
theorem joint_eq (h : m.Back parent' y) (hhinged : Hinged (t.kind m.parent)) :
    y.joint = m.pieces.middle := by
  obtain ⟨i, hi⟩ := m.offered.hinged_iff.mp hhinged
  calc y.joint = m.exchange.joint := h.joint_eq_joint
    _ = m.pieces.middle := m.offered.joint_eq_of_hinge hi m.layout

/-- With what stood between them at first, the source comes back. -/
theorem result_eq_source (h : m.Back parent' y) (hjoint : y.joint = m.pieces.middle) :
    (m.pieces.turned m.exchange.joint).result y.joint = t.source := by
  rw [Pieces.result, hjoint, m.pieces.turned_replacement _ h.tail_eq_nil, m.layout.source]
  rfl

/-- Items come back with a separator between them. -/
theorem result_eq_of_items (h : m.Back parent' y) (hitems : ¬ Hinged (t.kind m.parent)) :
    (m.pieces.turned m.exchange.joint).result y.joint
      = m.pieces.before ++ m.pieces.first ++ separator ++ m.pieces.second ++ m.pieces.after := by
  have hbranch : t'.kind parent' ≠ branchKind := fun hbranch => hitems (.inr (h.kind ▸ hbranch))
  rw [h.layout.result_eq (h.offered.opens_closes hbranch).1,
    h.offered.joint_eq_separator (h.kind ▸ hitems)]
  rfl

end Made.Back

/-- A parse of a conditional on two lines: its branches and the colon are on the second line, and
the first branch has `n` bytes. -/
def sampleBranches (source : Text) (n : Nat) : Tree :=
  (Tree.ofRows? source .module [
    ⟨0, ⟨"program", true, none, ⟨⟨0, 0⟩, ⟨1, 5⟩⟩, 0, 8⟩⟩,
    ⟨1, ⟨"ternary_expression", true, none, ⟨⟨0, 0⟩, ⟨1, 5⟩⟩, 0, 8⟩⟩,
    ⟨2, ⟨"identifier", true, none, ⟨⟨0, 0⟩, ⟨0, 1⟩⟩, 0, 1⟩⟩,
    ⟨2, ⟨"?", false, none, ⟨⟨0, 1⟩, ⟨0, 2⟩⟩, 1, 2⟩⟩,
    ⟨2, ⟨"identifier", true, none, ⟨⟨1, 0⟩, ⟨1, n⟩⟩, 3, 3 + n⟩⟩,
    ⟨2, ⟨":", false, none, ⟨⟨1, n⟩, ⟨1, n + 1⟩⟩, 3 + n, 4 + n⟩⟩,
    ⟨2, ⟨"identifier", true, none, ⟨⟨1, n + 1⟩, ⟨1, 5⟩⟩, 4 + n, 8⟩⟩]).get rfl

/-- The exchange of the two branches. -/
def sampleExchange (source : Text) (n : Nat) : Exchange (sampleBranches source n) :=
  ⟨(1 : Fin 7), (4 : Fin 7), some (5 : Fin 7), (6 : Fin 7), (1 : Fin 7), [':']⟩

theorem sampleExchange_offered {source : Text} {n : Nat}
    (h : (sampleBranches source n).textBetween (sampleExchange source n).first
      (sampleExchange source n).second = .ok [':']) :
    (sampleExchange source n).Offered (sampleExchange source n).opens :=
  .branches rfl rfl h

end Move

end AnchoredEdit
