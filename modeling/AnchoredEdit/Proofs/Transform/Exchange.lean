/-
`Proofs/Transform/Exchange.lean` -- two children that trade places, and where everything goes.

Operands, branches and items are exchanged by three pieces of code that compute their texts
and positions each in their own way. Seen from the tree they do one thing: two children of a
node trade places, something stands between them afterwards, and the edit may reach further
to the left and right than the two. `Exchange` names the nodes of such a trade, `Offered` says
which trades a node offers, and `Carries` says which node goes along with the cursor in which
direction and at which byte its copy starts. These three are about bytes only.

`Pieces` is the same thing as texts: the source cut along the exchange. In a tree that belongs
to its source every offered exchange has such a layout, and the copy of the carried node can be
pointed out in the text that results.
-/
import AnchoredEdit.Proofs.Syntax.Path
import AnchoredEdit.Transform.Move

set_option autoImplicit false

namespace AnchoredEdit

/-! ## 1. Exchanges a node offers -/

/-- Two nodes that trade places. -/
structure Exchange (t : Tree) where
  /-- The edit starts where this node starts. -/
  opens : t.Id
  first : t.Id
  /-- What the two trade places around: an operator or a colon. -/
  hinge : Option t.Id
  second : t.Id
  /-- The edit ends where this node ends. -/
  closes : t.Id
  /-- What stands between the two afterwards. -/
  joint : Text

namespace Exchange

open Move

variable {t : Tree}

/-- The exchanges that the node `parent` offers: its two operands, its two branches, or two
neighbours among its items. The edit of the branches covers the whole node; items are joined
by a separator, whatever stood between them. -/
inductive Offered (parent : t.Id) : Exchange t → Prop
  | operands {left operator right : t.Id} {middle : Text}
      (hkind : operandKinds.contains (t.kind parent) = true)
      (hparts : t.parts parent = [left, operator, right])
      (hjoint : t.textBetween left right = .ok middle) :
      Offered parent ⟨left, left, some operator, right, right, middle⟩
  | branches {condition question consequence colon alternative : t.Id} {between : Text}
      (hkind : t.kind parent = branchKind)
      (hparts : t.parts parent = [condition, question, consequence, colon, alternative])
      (hjoint : t.textBetween consequence alternative = .ok between) :
      Offered parent ⟨parent, consequence, some colon, alternative, parent, between⟩
  | items {first second : t.Id}
      (hoperands : operandKinds.contains (t.kind parent) = false)
      (hbranches : t.kind parent ≠ branchKind)
      (hadjacent : [first, second] <:+: t.items parent) :
      Offered parent ⟨first, first, none, second, second, separator⟩

/-- `x.Carries d i n`: when the cursor is on node `i`, the exchange is made in direction `d`,
and the copy of `i` starts at byte `n` of the result. The first of the two can only go right,
the second only left, and on the hinge any direction will do. -/
inductive Carries (x : Exchange t) : Direction → t.Id → Nat → Prop
  | first : Carries x .right x.first
      (t.startByte x.first + t.size x.second + x.joint.byteLength)
  | second : Carries x .left x.second (t.startByte x.first)
  | hinge {d : Direction} {i : t.Id} (h : x.hinge = some i) : Carries x d i
      (t.startByte x.first + t.size x.second + (t.startByte i - t.endByte x.first))

/-! ## 2. The source cut along an exchange -/

/-- A source as the pieces that an exchange of `first` and `second` tells apart. -/
structure Pieces where
  before : Text
  head : Text
  first : Text
  middle : Text
  second : Text
  tail : Text
  after : Text

namespace Pieces

variable (s : Pieces)

/-- The text that the edit replaces. -/
def replaced : Text :=
  s.head ++ s.first ++ s.middle ++ s.second ++ s.tail

/-- The text that stands there afterwards. -/
def replacement (joint : Text) : Text :=
  s.head ++ s.second ++ joint ++ s.first

/-- The whole source afterwards. -/
def result (joint : Text) : Text :=
  s.before ++ s.replacement joint ++ s.after

/-- The edit that makes the exchange. -/
def edit (joint : Text) (cursor : Position) : Edit where
  span := ⟨s.before.extent, (s.before ++ s.replaced).extent⟩
  replaced := s.replaced
  replacement := s.replacement joint
  cursor := some cursor

end Pieces

/-- The source of the tree, cut along the exchange `x`, is `s`. -/
structure Layout (x : Exchange t) (s : Pieces) : Prop where
  source : t.source = s.before ++ s.replaced ++ s.after
  startByte : t.startByte x.opens = s.before.byteLength
  start : (t.span x.opens).start = s.before.extent
  first : t.Reads x.first (s.before ++ s.head) s.first
    (s.middle ++ s.second ++ s.tail ++ s.after)
  hinge : ∀ i, x.hinge = some i → ∃ m₁ text m₂, s.middle = m₁ ++ text ++ m₂
    ∧ t.Reads i (s.before ++ s.head ++ s.first ++ m₁) text
        (m₂ ++ s.second ++ s.tail ++ s.after)
  second : t.Reads x.second (s.before ++ s.head ++ s.first ++ s.middle) s.second
    (s.tail ++ s.after)
  endByte : t.endByte x.closes = (s.before ++ s.replaced).byteLength
  stop : (t.span x.closes).stop = (s.before ++ s.replaced).extent

namespace Layout

variable {x : Exchange t} {s : Pieces}

/-- Where nothing in front of the first node is rewritten, there is no head. -/
theorem head_eq_nil (h : x.Layout s) (hopens : x.opens = x.first) : s.head = [] := by
  have hstart := h.first.startByte
  rw [← hopens, h.startByte, Text.byteLength_append] at hstart
  rw [← Text.byteLength_eq_zero_iff]
  omega

/-- Where the edit ends with the second node, there is no tail. -/
theorem tail_eq_nil (h : x.Layout s) (hcloses : t.endByte x.closes = t.endByte x.second) :
    s.tail = [] := by
  rw [h.endByte, h.second.endByte] at hcloses
  simp only [Pieces.replaced, Text.byteLength_append] at hcloses
  rw [← Text.byteLength_eq_zero_iff]
  omega

/-- Two nodes, the second one further on, are a layout of their own exchange. -/
theorem of_reads {i j : t.Id} {u a g b v joint : Text} (hi : t.Reads i u a (g ++ b ++ v))
    (hj : t.Reads j (u ++ a ++ g) b v) :
    Layout ⟨i, i, none, j, j, joint⟩ ⟨u, [], a, g, b, [], v⟩ := by
  have hreplaced : u ++ a ++ g ++ b = u ++ Pieces.replaced ⟨u, [], a, g, b, [], v⟩ := by
    simp only [Pieces.replaced, List.nil_append, List.append_nil, List.append_assoc]
  constructor
  case source =>
    rw [hj.source, hreplaced]
  case startByte => exact hi.startByte
  case start => exact hi.start
  case first => simpa only [List.append_nil] using hi
  case hinge => nofun
  case second => simpa only [List.append_nil, List.nil_append] using hj
  case endByte => rw [hj.endByte, hreplaced]
  case stop => rw [hj.stop, hreplaced]

theorem textBetween_eq (h : x.Layout s) : t.textBetween x.first x.second = .ok s.middle :=
  h.first.textBetween_eq h.second

theorem textThrough_eq (h : x.Layout s) :
    t.textThrough x.first x.second = .ok (s.first ++ s.middle ++ s.second) := by
  have hsecond : t.Reads x.second (s.before ++ s.head ++ (s.first ++ s.middle)) s.second
      (s.tail ++ s.after) := by
    rw [← List.append_assoc]
    exact h.second
  exact h.first.textThrough_eq hsecond

/-- Where the two nodes and nothing else is rewritten, there are five pieces. -/
theorem reads_pair (h : x.Layout s) (hopens : x.opens = x.first) (hcloses : x.closes = x.second) :
    t.Reads x.first s.before s.first (s.middle ++ s.second ++ s.after)
      ∧ t.Reads x.second (s.before ++ s.first ++ s.middle) s.second s.after := by
  have hhead := h.head_eq_nil hopens
  have htail := h.tail_eq_nil (by rw [hcloses])
  have hfirst := h.first
  have hsecond := h.second
  rw [hhead, htail, List.append_nil, List.append_nil] at hfirst
  rw [hhead, htail, List.append_nil, List.nil_append] at hsecond
  exact ⟨hfirst, hsecond⟩

/-- What becomes of the source then. -/
theorem result_eq (h : x.Layout s) (hopens : x.opens = x.first) (joint : Text) :
    s.result joint = s.before ++ s.second ++ joint ++ s.first ++ s.after := by
  rw [Pieces.result, Pieces.replacement, h.head_eq_nil hopens]
  simp only [List.nil_append, List.append_assoc]

/-- The edit of an exchange that rewrites the two nodes and nothing else. -/
theorem edit_eq (h : x.Layout s) (hopens : x.opens = x.first) (hcloses : x.closes = x.second)
    (joint : Text) (cursor : Position) : s.edit joint cursor = {
      span := ⟨(t.span x.first).start, (t.span x.second).stop⟩
      replaced := s.first ++ s.middle ++ s.second
      replacement := s.second ++ joint ++ s.first
      cursor := some cursor } := by
  have hhead := h.head_eq_nil hopens
  have htail := h.tail_eq_nil (by rw [hcloses])
  rw [← hopens, ← hcloses, h.start, h.stop, Pieces.edit, Pieces.replaced,
    Pieces.replacement, hhead, htail]
  simp only [List.nil_append, List.append_nil]

/-- Where what stands between the two is kept, it is the middle piece. -/
theorem joint_eq (h : x.Layout s) (hjoint : t.textBetween x.first x.second = .ok x.joint) :
    x.joint = s.middle := by
  rw [h.textBetween_eq] at hjoint
  exact (Except.ok.inj hjoint).symm

end Layout

/-! ## 3. Every offered exchange has a layout -/

/-- What the nodes of an exchange have to satisfy for the source to be cut along them: they
come in order. -/
structure InOrder (x : Exchange t) : Prop where
  opens : t.startByte x.opens ≤ t.startByte x.first
  hinge : ∀ i, x.hinge = some i →
    t.endByte x.first ≤ t.startByte i ∧ t.endByte i ≤ t.startByte x.second
  second : t.endByte x.first ≤ t.startByte x.second
  closes : t.endByte x.second ≤ t.endByte x.closes

theorem InOrder.exists_layout {x : Exchange t} (h : x.InOrder) (hwf : t.WellFormed) :
    ∃ s, x.Layout s := by
  obtain ⟨front, a, w, hfirst⟩ := hwf.exists_reads x.first
  obtain ⟨m, b, rest, rfl, hsecond⟩ := hwf.exists_reads_after hfirst h.second
  -- The two outer cuts: in front of the first node, and behind the second one.
  obtain ⟨u, text, z, hopens⟩ := hwf.exists_reads x.opens
  have hfront : u ++ (text ++ z) = front ++ (a ++ (m ++ b ++ rest)) := by
    rw [← List.append_assoc, ← hopens.source, hfirst.source, List.append_assoc]
  obtain ⟨head, rfl, -⟩ := Text.exists_append_of_byteLength_le hfront (by
    rw [← hopens.startByte, ← hfirst.startByte]
    exact h.opens)
  obtain ⟨y, text', v, hcloses⟩ := hwf.exists_reads x.closes
  have hback : u ++ head ++ a ++ m ++ b ++ rest = y ++ text' ++ v := by
    rw [← hsecond.source, hcloses.source]
  obtain ⟨tail, hy, rfl⟩ := Text.exists_append_of_byteLength_le hback (by
    rw [← hsecond.endByte, ← hcloses.endByte]
    exact h.closes)
  have hend : y ++ text' = u ++ (head ++ a ++ m ++ b ++ tail) := by
    rw [hy]
    simp only [List.append_assoc]
  refine ⟨⟨u, head, a, m, b, tail, v⟩, ?_⟩
  constructor
  case source =>
    rw [hcloses.source, hend]
    rfl
  case startByte => exact hopens.startByte
  case start => exact hopens.start
  case first => simpa only [List.append_assoc] using hfirst
  case second => exact hsecond
  case endByte =>
    rw [hcloses.endByte, hend]
    rfl
  case stop =>
    rw [hcloses.stop, hend]
    rfl
  case hinge =>
    -- The hinge is read behind the first node; its end cuts the middle once more.
    intro i hi
    obtain ⟨hfi, his⟩ := h.hinge i hi
    obtain ⟨m₁, o, w, hw, hreads⟩ := hwf.exists_reads_after hfirst hfi
    have hmid : m₁ ++ o ++ w = m ++ (b ++ (tail ++ v)) := by
      rw [← hw]
      simp only [List.append_assoc]
    obtain ⟨m₂, rfl, rfl⟩ := Text.exists_append_of_byteLength_le hmid (by
      have hle := his
      rw [hreads.endByte, hsecond.startByte] at hle
      simp only [Text.byteLength_append] at hle ⊢
      omega)
    exact ⟨m₁, o, m₂, rfl, by simpa only [List.append_assoc] using hreads⟩

theorem inOrder_operands (hwf : t.WellFormed) {parent left operator right : t.Id}
    (hparts : t.parts parent = [left, operator, right]) (joint : Text) :
    InOrder ⟨left, left, some operator, right, right, joint⟩ := by
  have hsorted := hwf.pairwise_parts parent
  rw [hparts] at hsorted
  simp only [List.pairwise_cons, List.mem_cons, List.not_mem_nil, forall_eq_or_imp, or_false,
    forall_eq] at hsorted
  obtain ⟨⟨hlo, hlr⟩, hor, -⟩ := hsorted
  constructor
  case opens => exact Nat.le_refl _
  case hinge =>
    rintro i ⟨⟩
    exact ⟨hlo, hor⟩
  case second => exact hlr
  case closes => exact Nat.le_refl _

/-- Branches are rewritten together with the node that holds them, so the outer cuts are that
node's own ends. -/
theorem inOrder_branches (hwf : t.WellFormed)
    {parent condition question consequence colon alternative : t.Id}
    (hparts : t.parts parent = [condition, question, consequence, colon, alternative])
    (joint : Text) : InOrder ⟨parent, consequence, some colon, alternative, parent, joint⟩ := by
  have hsorted := hwf.pairwise_parts parent
  have hchild : ∀ i ∈ t.parts parent, t.parent i = some parent :=
    fun i => Tree.parent_of_mem_parts
  rw [hparts] at hsorted hchild
  simp only [List.pairwise_cons, List.mem_cons, List.not_mem_nil, forall_eq_or_imp, or_false,
    forall_eq] at hsorted hchild
  obtain ⟨-, -, ⟨hxc, hxy⟩, hcy, -⟩ := hsorted
  obtain ⟨-, -, hx, -, hy⟩ := hchild
  constructor
  case opens => exact (hwf.nested _ _ hx).1
  case hinge =>
    rintro i ⟨⟩
    exact ⟨hxc, hcy⟩
  case second => exact hxy
  case closes => exact (hwf.nested _ _ hy).2

theorem inOrder_items (hwf : t.WellFormed) {parent first second : t.Id}
    (hadjacent : [first, second] <:+: t.items parent) (joint : Text) :
    InOrder ⟨first, first, none, second, second, joint⟩ := by
  have hsorted := (hwf.pairwise_items parent).sublist hadjacent.sublist
  constructor
  case opens => exact Nat.le_refl _
  case hinge => rintro i ⟨⟩
  case second => exact List.rel_of_pairwise_cons hsorted (List.mem_singleton_self second)
  case closes => exact Nat.le_refl _

theorem Offered.exists_layout {parent : t.Id} {x : Exchange t} (h : x.Offered parent)
    (hwf : t.WellFormed) : ∃ s, x.Layout s := by
  cases h with
  | operands hkind hparts hjoint => exact (inOrder_operands hwf hparts _).exists_layout hwf
  | branches hkind hparts hjoint => exact (inOrder_branches hwf hparts _).exists_layout hwf
  | items hoperands hbranches hadjacent =>
    exact (inOrder_items hwf hadjacent _).exists_layout hwf

/-! ## 4. The copy of the carried node -/

/-- Around a hinge the exchange keeps what stands between the two nodes. -/
theorem Offered.joint_eq_of_hinge {parent i : t.Id} {x : Exchange t} {s : Pieces}
    (h : x.Offered parent) (hi : x.hinge = some i) (hl : x.Layout s) : x.joint = s.middle := by
  cases h with
  | operands hkind hparts hjoint => exact hl.joint_eq hjoint
  | branches hkind hparts hjoint => exact hl.joint_eq hjoint
  | items hoperands hbranches hadjacent => cases hi

/-- What stands between the two afterwards is what stood there before, or a separator. -/
theorem Offered.joint_eq_or {parent : t.Id} {x : Exchange t} {s : Pieces} (h : x.Offered parent)
    (hl : x.Layout s) : x.joint = s.middle ∨ x.joint = separator := by
  cases h with
  | operands hkind hparts hjoint => exact .inl (hl.joint_eq hjoint)
  | branches hkind hparts hjoint => exact .inl (hl.joint_eq hjoint)
  | items hoperands hbranches hadjacent => exact .inr rfl

/-- What becomes of the carried node `i`: in the source it stands between `before` and `after`
and reads `text`, and its copy in the result stands between `lead` and `rest`. -/
inductive Copy (x : Exchange t) (s : Pieces) :
    Direction → t.Id → (before text after lead rest : Text) → Prop
  | first : Copy x s .right x.first
      (s.before ++ s.head) s.first (s.middle ++ s.second ++ s.tail ++ s.after)
      (s.before ++ s.head ++ s.second ++ x.joint) s.after
  | second : Copy x s .left x.second
      (s.before ++ s.head ++ s.first ++ s.middle) s.second (s.tail ++ s.after)
      (s.before ++ s.head) (x.joint ++ s.first ++ s.after)
  | hinge {d : Direction} {i : t.Id} {m₁ text m₂ : Text} (hi : x.hinge = some i)
      (hmiddle : s.middle = m₁ ++ text ++ m₂)
      (hreads : t.Reads i (s.before ++ s.head ++ s.first ++ m₁) text
        (m₂ ++ s.second ++ s.tail ++ s.after)) :
      Copy x s d i
        (s.before ++ s.head ++ s.first ++ m₁) text (m₂ ++ s.second ++ s.tail ++ s.after)
        (s.before ++ s.head ++ s.second ++ m₁) (m₂ ++ s.first ++ s.after)

section Copy

variable {parent i : t.Id} {x : Exchange t} {s : Pieces} {d : Direction} {n : Nat}
  {before text after lead rest : Text}

theorem Copy.reads (h : x.Copy s d i before text after lead rest) (hl : x.Layout s) :
    t.Reads i before text after := by
  cases h with
  | first => exact hl.first
  | second => exact hl.second
  | hinge hi hmiddle hreads => exact hreads

/-- The copy is a part of what the edit writes. -/
theorem Copy.exists_replacement (h : x.Copy s d i before text after lead rest)
    (ho : x.Offered parent) (hl : x.Layout s) :
    ∃ l r, lead = s.before ++ l ∧ rest = r ++ s.after
      ∧ s.replacement x.joint = l ++ text ++ r := by
  cases h with
  | first =>
    refine ⟨s.head ++ s.second ++ x.joint, [], ?_, rfl, ?_⟩
    · simp only [List.append_assoc]
    · simp only [Pieces.replacement, List.append_assoc, List.append_nil]
  | second =>
    refine ⟨s.head, x.joint ++ s.first, rfl, rfl, ?_⟩
    simp only [Pieces.replacement, List.append_assoc]
  | @hinge d i m₁ text m₂ hi hmiddle hreads =>
    -- Only here does it matter that the joint is the old middle.
    refine ⟨s.head ++ s.second ++ m₁, m₂ ++ s.first, ?_, rfl, ?_⟩
    · simp only [List.append_assoc]
    · rw [ho.joint_eq_of_hinge hi hl, hmiddle]
      simp only [Pieces.replacement, List.append_assoc]

/-- The result reads the copy between `lead` and `rest`. -/
theorem Copy.result_eq (h : x.Copy s d i before text after lead rest) (ho : x.Offered parent)
    (hl : x.Layout s) : s.result x.joint = lead ++ text ++ rest := by
  obtain ⟨l, r, rfl, rfl, hreplacement⟩ := h.exists_replacement ho hl
  rw [Pieces.result, hreplacement]
  simp only [List.append_assoc]

/-- **The carried node has a copy**, and it starts at the byte that `Carries` names. -/
theorem Carries.exists_copy (h : x.Carries d i n) (hl : x.Layout s) :
    ∃ before text after lead rest, x.Copy s d i before text after lead rest
      ∧ lead.byteLength = n := by
  have hstart := hl.first.startByte
  have hsize := hl.second.size_eq
  cases h with
  | first =>
    refine ⟨_, _, _, _, _, .first, ?_⟩
    simp only [hstart, hsize, Text.byteLength_append]
  | second => exact ⟨_, _, _, _, _, .second, hstart.symm⟩
  | hinge hi =>
    obtain ⟨m₁, text, m₂, hmiddle, hreads⟩ := hl.hinge i hi
    refine ⟨_, _, _, _, _, .hinge hi hmiddle hreads, ?_⟩
    rw [hstart, hsize, hreads.startByte, hl.first.endByte]
    simp only [Text.byteLength_append]
    omega

end Copy

end Exchange

end AnchoredEdit
