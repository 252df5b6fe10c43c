/-
`Proofs/Syntax/Forest.lean` -- ordered trees, and the arena that holds one.

A parser finds ordered trees. `Forest` is how a cursor goes through them: from a node there is a way
to the first node below it and to the node next to it. In pre-order each subtree is a block: a node,
then everything below it, then what is next to it. `nodes` lays a forest out in that order with each
node linked to its parent, and it is what linking the rows of the forest gives.

All that the arena says is read off the blocks. What is below a node is the block right behind it,
and links into a block come from the block or go to the node it hangs from. So the nodes that link
to a node are the roots of the forest below it, in their order, and no others.
-/
import AnchoredEdit.Syntax.Tree

set_option autoImplicit false

namespace AnchoredEdit

/-- Ordered trees next to each other: none, or a first one, given by the label of its root and what
is below the root, and the ones next to it. -/
inductive Forest where
  | nil
  | cons (label : Label) (below next : Forest)
deriving DecidableEq, Inhabited, Repr

namespace Forest

/-! ## 1. Pre-order -/

/-- The number of nodes. -/
def size : Forest → Nat
  | nil => 0
  | cons _ below next => 1 + below.size + next.size

/-- The labels in pre-order. -/
def labels : Forest → List Label
  | nil => []
  | cons label below next => label :: (below.labels ++ next.labels)

/-- The rows of the forest in pre-order, when its roots have `depth` ancestors. -/
def rows : Nat → Forest → List Row
  | _, nil => []
  | depth, cons label below next =>
    ⟨depth, label⟩ :: (below.rows (depth + 1) ++ next.rows depth)

/-- The indices of the roots, when the forest is laid out from `start` on. -/
def roots : Nat → Forest → List Nat
  | _, nil => []
  | start, cons _ below next => start :: next.roots (start + 1 + below.size)

/-- The forest laid out in pre-order from `start` on, hanging from `parent`: each node, and what is
below it. -/
def layout : Option Nat → Nat → Forest → List (Node × Forest)
  | _, _, nil => []
  | parent, start, cons label below next =>
    (⟨label, parent⟩, below) :: (below.layout (some start) (start + 1)
      ++ next.layout parent (start + 1 + below.size))

/-- The nodes of the layout. -/
def nodes (parent : Option Nat) (start : Nat) (f : Forest) : List Node :=
  (f.layout parent start).map (·.1)

theorem nodes_cons (parent : Option Nat) (start : Nat) (label : Label) (below next : Forest) :
    (cons label below next).nodes parent start
      = ⟨label, parent⟩ :: (below.nodes (some start) (start + 1)
        ++ next.nodes parent (start + 1 + below.size)) := by
  rw [nodes, layout, List.map_cons, List.map_append]
  rfl

@[simp] theorem length_layout (parent : Option Nat) (start : Nat) (f : Forest) :
    (f.layout parent start).length = f.size := by
  induction f generalizing parent start with
  | nil => rfl
  | cons label below next ihbelow ihnext =>
    rw [layout, size, List.length_cons, List.length_append, ihbelow, ihnext]
    omega

@[simp] theorem length_nodes (parent : Option Nat) (start : Nat) (f : Forest) :
    (f.nodes parent start).length = f.size := by
  rw [nodes, List.length_map, length_layout]

theorem map_label_nodes (parent : Option Nat) (start : Nat) (f : Forest) :
    (f.nodes parent start).map (·.label) = f.labels := by
  induction f generalizing parent start with
  | nil => rfl
  | cons label below next ihbelow ihnext =>
    rw [nodes_cons, List.map_cons, List.map_append, ihbelow, ihnext, labels]

/-- **A node is followed by what is below it.** -/
theorem layout_split {f : Forest} {parent : Option Nat} {start k : Nat} {node : Node}
    {below : Forest} (h : (f.layout parent start)[k]? = some (node, below)) :
    ∃ before after, f.layout parent start = before ++ (node, below)
        :: (below.layout (some (start + k)) (start + k + 1) ++ after) ∧ before.length = k := by
  induction f generalizing parent start k with
  | nil => cases h
  | cons label first next ihfirst ihnext =>
    rw [layout] at h ⊢
    cases k with
    | zero =>
      cases h
      exact ⟨[], _, rfl, rfl⟩
    | succ k =>
      rw [List.getElem?_cons_succ] at h
      -- Behind the first root comes what is below it, and then what is next to it.
      by_cases hk : k < first.size
      · rw [List.getElem?_append_left (by rw [length_layout]; exact hk)] at h
        obtain ⟨before, after, hsplit, rfl⟩ := ihfirst h
        refine ⟨(⟨label, parent⟩, first) :: before,
          after ++ next.layout parent (start + 1 + first.size), ?_, rfl⟩
        have hindex : start + 1 + before.length = start + (before.length + 1) := by omega
        rw [hsplit, hindex]
        simp only [List.cons_append, List.append_assoc]
      · rw [List.getElem?_append_right (by rw [length_layout]; omega), length_layout] at h
        obtain ⟨before, after, hsplit, hlength⟩ := ihnext h
        refine ⟨(⟨label, parent⟩, first) :: (first.layout (some start) (start + 1) ++ before),
          after, ?_, ?_⟩
        · have hindex : start + 1 + first.size + (k - first.size) = start + (k + 1) := by omega
          rw [hsplit, hindex]
          simp only [List.cons_append, List.append_assoc]
        · rw [List.length_cons, List.length_append, length_layout, hlength]
          omega

/-- The block of a node lies inside of the block it is in. -/
theorem size_le_of_layout {f : Forest} {parent : Option Nat} {start k : Nat} {node : Node}
    {below : Forest} (h : (f.layout parent start)[k]? = some (node, below)) :
    k + 1 + below.size ≤ f.size := by
  obtain ⟨before, after, hsplit, rfl⟩ := layout_split h
  have hlength := congrArg List.length hsplit
  rw [length_layout, List.length_append, List.length_cons, List.length_append,
    length_layout] at hlength
  omega

/-- What is below a node is laid out right behind it. -/
theorem getElem?_layout_below {f : Forest} {parent : Option Nat} {start k m : Nat} {node : Node}
    {below : Forest} (h : (f.layout parent start)[k]? = some (node, below))
    (hm : m < below.size) : (f.layout parent start)[k + 1 + m]?
      = (below.layout (some (start + k)) (start + k + 1))[m]? := by
  obtain ⟨before, after, hsplit, rfl⟩ := layout_split h
  have hindex : before.length + 1 + m - before.length = m + 1 := by omega
  rw [hsplit, List.getElem?_append_right (by omega), hindex, List.getElem?_cons_succ,
    List.getElem?_append_left (by rw [length_layout]; exact hm)]

/-- Roots come inside of the block. -/
theorem mem_roots_bounds {f : Forest} {start j : Nat} (h : j ∈ f.roots start) :
    start ≤ j ∧ j < start + f.size := by
  induction f generalizing start with
  | nil => cases h
  | cons label below next ihbelow ihnext =>
    rw [size]
    rcases List.mem_cons.mp h with rfl | h
    · omega
    · have hnext := ihnext h
      omega

/-! ## 2. Linking rows -/

/-- The outermost `depth` nodes of a path. -/
def outermost (path : List Nat) (depth : Nat) : List Nat :=
  path.drop (path.length - depth)

theorem outermost_succ {path l : List Nat} {depth start : Nat} (hdepth : depth + 1 ≤ path.length)
    (h : outermost path (depth + 1) = start :: l) : outermost path depth = l := by
  have hdrop : path.length - depth = path.length - (depth + 1) + 1 := by omega
  rw [outermost, hdrop, ← List.drop_drop]
  rw [outermost] at h
  rw [h]
  rfl

/-- **Linking the rows of a forest lays it out.** What comes before a row with `depth` ancestors
leaves the `depth` outermost nodes of the path as they were, so the next tree hangs from the same
node. -/
theorem link_rows (f : Forest) {path : List Nat} {depth : Nat} (hdepth : depth ≤ path.length)
    (start : Nat) (rest : List Row) :
    ∃ path', Row.link path start (f.rows depth ++ rest)
        = f.nodes (outermost path depth).head? start ++ Row.link path' (start + f.size) rest
      ∧ outermost path' depth = outermost path depth ∧ depth ≤ path'.length := by
  induction f generalizing path depth start rest with
  | nil => exact ⟨path, rfl, rfl, hdepth⟩
  | cons label below next ihbelow ihnext =>
    have hlength : (outermost path depth).length = depth := by
      rw [outermost, List.length_drop]
      omega
    -- Below the node the path is the node itself and what was kept.
    have hinner : outermost (start :: outermost path depth) (depth + 1)
        = start :: outermost path depth := by
      rw [outermost, List.length_cons, hlength, Nat.sub_self, List.drop_zero]
    have hinside : depth + 1 ≤ (start :: outermost path depth).length :=
      Nat.le_of_eq (by rw [List.length_cons, hlength])
    obtain ⟨path₁, hbelow, hkept₁, hdepth₁⟩ :=
      ihbelow hinside (start + 1) (next.rows depth ++ rest)
    rw [hinner] at hbelow hkept₁
    have hout := outermost_succ hdepth₁ hkept₁
    have hbeside : depth ≤ path₁.length := by omega
    obtain ⟨path₂, hnext, hkept₂, hdepth₂⟩ := ihnext hbeside (start + 1 + below.size) rest
    rw [hout] at hnext hkept₂
    refine ⟨path₂, ?_, hkept₂, hdepth₂⟩
    have hend : start + (1 + below.size + next.size) = start + 1 + below.size + next.size := by
      omega
    rw [rows, nodes_cons, List.cons_append, List.append_assoc, Row.link, size, hend]
    show _ :: Row.link (start :: outermost path depth) (start + 1) _ = _
    rw [hbelow, hnext, List.cons_append, List.append_assoc]
    rfl

/-- The rows of a forest whose roots have no ancestors. -/
theorem link_rows_zero (f : Forest) : Row.link [] 0 (f.rows 0) = f.nodes none 0 := by
  obtain ⟨path', hlink, -⟩ := f.link_rows (Nat.zero_le ([] : List Nat).length) 0 []
  rw [List.append_nil, Row.link, List.append_nil] at hlink
  exact hlink

/-! ## 3. Links -/

/-- The indices of the nodes that link to `i`, when the nodes are laid out from `start` on. -/
def linksTo (i : Nat) : Nat → List Node → List Nat
  | _, [] => []
  | start, node :: rest =>
    if node.parent = some i then start :: linksTo i (start + 1) rest
    else linksTo i (start + 1) rest

theorem linksTo_append (i start : Nat) (a b : List Node) :
    linksTo i start (a ++ b) = linksTo i start a ++ linksTo i (start + a.length) b := by
  induction a generalizing start with
  | nil => rfl
  | cons node a ih =>
    have hend : start + (node :: a).length = start + 1 + a.length := by
      rw [List.length_cons]
      omega
    rw [List.cons_append, linksTo, linksTo, ih, hend]
    split
    · rfl
    · rfl

theorem linksTo_nodes_cons (i : Nat) (parent : Option Nat) (start : Nat) (label : Label)
    (below next : Forest) : linksTo i start ((cons label below next).nodes parent start)
      = (if parent = some i then [start] else [])
        ++ linksTo i (start + 1) (below.nodes (some start) (start + 1))
        ++ linksTo i (start + 1 + below.size) (next.nodes parent (start + 1 + below.size)) := by
  rw [nodes_cons, linksTo, linksTo_append, length_nodes]
  split
  · rfl
  · rfl

/-- No node of a block links to a node outside of it, apart from the one the block hangs from. -/
theorem linksTo_eq_nil (f : Forest) {i start : Nat} {parent : Option Nat}
    (hparent : parent ≠ some i) (hout : i < start ∨ start + f.size ≤ i) :
    linksTo i start (f.nodes parent start) = [] := by
  induction f generalizing parent start with
  | nil => rfl
  | cons label below next ihbelow ihnext =>
    rw [size] at hout
    have hbelow : linksTo i (start + 1) (below.nodes (some start) (start + 1)) = [] := by
      apply ihbelow
      · intro heq
        cases heq
        omega
      · omega
    have hnext : linksTo i (start + 1 + below.size)
        (next.nodes parent (start + 1 + below.size)) = [] :=
      ihnext hparent (by omega)
    rw [linksTo_nodes_cons, if_neg hparent, hbelow, hnext]
    rfl

/-- **What links to the node that a block hangs from are the roots of the block.** -/
theorem linksTo_parent (f : Forest) {i start : Nat} (hi : i < start) :
    linksTo i start (f.nodes (some i) start) = f.roots start := by
  induction f generalizing start with
  | nil => rfl
  | cons label below next ihbelow ihnext =>
    have hne : some start ≠ some i := by
      intro heq
      cases heq
      omega
    rw [linksTo_nodes_cons, if_pos rfl, below.linksTo_eq_nil hne (.inl (by omega)),
      ihnext (by omega)]
    rfl

/-- **What links to a node are the roots of the forest below it.** -/
theorem linksTo_layout (f : Forest) {parent : Option Nat} {start k : Nat} {node : Node}
    {below : Forest} (hparent : ∀ p, parent = some p → p < start)
    (h : (f.layout parent start)[k]? = some (node, below)) :
    linksTo (start + k) start (f.nodes parent start) = below.roots (start + k + 1) := by
  induction f generalizing parent start k with
  | nil => cases h
  | cons label first next ihfirst ihnext =>
    have hne : parent ≠ some (start + k) := by
      intro heq
      have hlt := hparent _ heq
      omega
    rw [linksTo_nodes_cons, if_neg hne, List.nil_append]
    rw [layout] at h
    cases k with
    | zero =>
      -- The node is the first root, and what is next to it hangs from the node above.
      cases h
      rw [Nat.add_zero] at hne ⊢
      rw [linksTo_parent _ (Nat.lt_succ_self start), next.linksTo_eq_nil hne (.inl (by omega)),
        List.append_nil]
    | succ k =>
      rw [List.getElem?_cons_succ] at h
      by_cases hk : k < first.size
      · -- The node is below the first root; nothing behind that block links into it.
        rw [List.getElem?_append_left (by rw [length_layout]; exact hk)] at h
        have hin : linksTo (start + 1 + k) (start + 1) (first.nodes (some start) (start + 1))
            = below.roots (start + 1 + k + 1) := by
          apply ihfirst _ h
          intro p hp
          cases hp
          exact Nat.lt_succ_self start
        have hindex : start + 1 + k = start + (k + 1) := by omega
        rw [hindex] at hin
        rw [hin, next.linksTo_eq_nil hne (.inl (by omega)), List.append_nil]
      · -- The node is behind the block of the first root, and no link leads out of that forwards.
        rw [List.getElem?_append_right (by rw [length_layout]; omega), length_layout] at h
        have hin : linksTo (start + 1 + first.size + (k - first.size)) (start + 1 + first.size)
            (next.nodes parent (start + 1 + first.size))
              = below.roots (start + 1 + first.size + (k - first.size) + 1) := by
          apply ihnext _ h
          intro p hp
          have hlt := hparent p hp
          omega
        have hindex : start + 1 + first.size + (k - first.size) = start + (k + 1) := by omega
        rw [hindex] at hin
        have hroot : some start ≠ some (start + (k + 1)) := by
          intro heq
          injection heq
          omega
        rw [hin, first.linksTo_eq_nil hroot (.inr (by omega)), List.nil_append]

/-- Inside of a block a link goes to the block or to what the block hangs from. -/
theorem parent_of_mem_nodes {f : Forest} {parent : Option Nat} {start : Nat} {node : Node}
    (h : node ∈ f.nodes parent start) :
    node.parent = parent ∨ ∃ q, node.parent = some q ∧ start ≤ q := by
  induction f generalizing parent start with
  | nil => cases h
  | cons label below next ihbelow ihnext =>
    rw [nodes_cons, List.mem_cons, List.mem_append] at h
    rcases h with rfl | h | h
    · exact .inl rfl
    · rcases ihbelow h with heq | ⟨q, heq, hle⟩
      · exact .inr ⟨start, heq, Nat.le_refl _⟩
      · exact .inr ⟨q, heq, by omega⟩
    · rcases ihnext h with heq | ⟨q, heq, hle⟩
      · exact .inl heq
      · exact .inr ⟨q, heq, by omega⟩

end Forest

end AnchoredEdit
