/-
`Proofs/Syntax/Arena.lean` -- the arena is an image of the tree that was parsed.

A tree arrives as rows, or under a cursor. Both ways end in one arena, the tree laid out in
pre-order. What a client asks of it, the parent, the children and the ancestors of a node, is
derived from the links to parents alone. So it has to be shown that these answer for the tree: that
the children of a node are the roots of what is below it, in order, and that what is below it is the
block of indices right behind it. Both are read off the layout.
-/
import AnchoredEdit.Proofs.Syntax.Fill
import AnchoredEdit.Proofs.Syntax.Path
import Mathlib.Data.List.Chain
import Mathlib.Data.List.Nodup

set_option autoImplicit false

namespace AnchoredEdit

open Forest

/-! ## 1. Links of a tree -/

namespace Tree

variable {t : Tree} {i j p : t.Id} {f : Forest}

/-- The node at an index of the arena. -/
def node (t : Tree) (i : t.Id) : Node :=
  t.nodes.toList.get i

theorem parent_node (t : Tree) (j : t.Id) : (t.node j).parent = (t.parent j).map (·.val) := by
  unfold parent
  split
  · next h => exact h
  · next q h => exact h

theorem parent_eq_some_iff : t.parent j = some i ↔ (t.node j).parent = some i.val := by
  rw [parent_node]
  cases t.parent j with
  | none => simp
  | some q => simp [Fin.ext_iff]

theorem linksTo_eq_finRange (i start : Nat) (l : List Node) :
    linksTo i start l = ((List.finRange l.length).filter fun j => (l.get j).parent = some i).map
      fun j => start + j.val := by
  induction l generalizing start with
  | nil => rfl
  | cons node l ih =>
    have hrest : (((List.finRange l.length).map Fin.succ).filter fun j =>
          ((node :: l).get j).parent = some i).map (fun j => start + j.val)
        = linksTo i (start + 1) l := by
      rw [ih, List.filter_map, List.map_map]
      apply List.map_congr_left
      intro j _
      show start + (j.val + 1) = start + 1 + j.val
      omega
    simp only [List.length_cons, List.finRange_succ, List.filter_cons, linksTo, ← hrest]
    by_cases hnode : node.parent = some i
    · simp [hnode]
    · simp [hnode]

/-- The children of a node are what links to it. -/
theorem map_val_children (i : t.Id) :
    (t.children i).map (·.val) = linksTo i.val 0 t.nodes.toList := by
  rw [linksTo_eq_finRange, children, ids]
  have hfilter : (List.finRange t.nodes.size).filter (fun j => t.parent j = some i)
      = (List.finRange t.nodes.size).filter fun j =>
        (t.node j).parent = some i.val := by
    apply List.filter_congr
    intro j _
    rw [decide_eq_decide]
    exact parent_eq_some_iff
  rw [hfilter]
  apply List.map_congr_left
  intro j _
  exact (Nat.zero_add _).symm

/-! ## 2. Trees that hold a forest -/

/-- The arena of `t` is the forest laid out. -/
def Holds (t : Tree) (f : Forest) : Prop :=
  t.nodes.toList = f.nodes none 0

namespace Holds

variable {node : Node} {below : Forest} {label : Label}

theorem size_eq (h : t.Holds f) : t.nodes.size = f.size := by
  rw [← Array.length_toList, h, length_nodes]

/-- Every node is laid out with what is below it. -/
theorem exists_layout (h : t.Holds f) (i : t.Id) :
    ∃ below, (f.layout none 0)[i.val]? = some (t.node i, below) := by
  have hlt : i.val < (f.layout none 0).length := by
    rw [length_layout, ← h.size_eq]
    exact i.isLt
  have hnode : t.nodes.toList[i.val]? = some (t.node i) := by simp [Tree.node]
  rw [h, Forest.nodes, List.getElem?_map, List.getElem?_eq_getElem hlt] at hnode
  refine ⟨((f.layout none 0)[i.val]).2, ?_⟩
  rw [List.getElem?_eq_getElem hlt]
  exact congrArg some (Prod.ext (Option.some.inj hnode) rfl)

theorem map_label (h : t.Holds f) : t.ids.map t.label = f.labels := by
  rw [← map_label_nodes none 0 f, ← h, ids]
  apply List.ext_getElem
  · simp
  · intro k hk hk'
    simp [Tree.label]

/-- **The children of a node are the roots of what is below it**, in order. -/
theorem map_val_children (h : t.Holds f)
    (hi : (f.layout none 0)[i.val]? = some (node, below)) :
    (t.children i).map (·.val) = below.roots (i.val + 1) := by
  have hlinks := f.linksTo_layout (by simp) hi
  rw [Nat.zero_add] at hlinks
  rw [Tree.map_val_children, h, hlinks]

/-- A node in the block behind another links to that one or into the block. -/
theorem parent_in_block (h : t.Holds f)
    (hi : (f.layout none 0)[i.val]? = some (node, below)) (hlt : i < j)
    (hle : j.val ≤ i.val + below.size) :
    t.parent j = some i ∨ ∃ q, t.parent j = some q ∧ i < q := by
  rw [Fin.lt_def] at hlt
  obtain ⟨below', hj⟩ := h.exists_layout j
  have hoffset : i.val + 1 + (j.val - i.val - 1) = j.val := by omega
  have hblock := getElem?_layout_below hi (show j.val - i.val - 1 < below.size by omega)
  rw [hoffset, hj, Nat.zero_add] at hblock
  have hmem : t.node j ∈ below.nodes (some i.val) (i.val + 1) :=
    List.mem_map_of_mem (List.mem_of_getElem? hblock.symm)
  rcases parent_of_mem_nodes hmem with hparent | ⟨q, hparent, hle⟩
  · exact .inl (parent_eq_some_iff.mpr hparent)
  · have hq : q < t.nodes.size := Nat.lt_trans (t.parent_lt j j.isLt q hparent) j.isLt
    exact .inr ⟨⟨q, hq⟩, parent_eq_some_iff.mpr hparent, hle⟩

/-- A child is in the block behind its parent. -/
theorem val_le_of_parent (h : t.Holds f)
    (hi : (f.layout none 0)[i.val]? = some (node, below)) (hj : t.parent j = some i) :
    j.val ≤ i.val + below.size := by
  have hmem : j.val ∈ (t.children i).map (·.val) :=
    List.mem_map_of_mem ((t.mem_children).mpr hj)
  rw [h.map_val_children hi] at hmem
  have hbounds := mem_roots_bounds hmem
  omega

/-- **What is below a node is the block right behind it.** -/
theorem mem_ancestors_iff (h : t.Holds f)
    (hi : (f.layout none 0)[i.val]? = some (node, below)) :
    i ∈ t.ancestors j ↔ i < j ∧ j.val ≤ i.val + below.size := by
  induction j using ancestors.induct t with
  | case1 j hj =>
    rw [ancestors_of_parent_eq_none hj]
    constructor
    · intro hmem
      cases hmem
    · rintro ⟨hlt, hle⟩
      rcases h.parent_in_block hi hlt hle with hparent | ⟨q, hparent, -⟩
      · rw [hj] at hparent
        cases hparent
      · rw [hj] at hparent
        cases hparent
  | case2 j p hj ih =>
    rw [ancestors_of_parent hj, List.mem_cons, ih]
    have hpj := t.lt_of_parent hj
    constructor
    · rintro (rfl | ⟨hlt, hle⟩)
      · exact ⟨hpj, h.val_le_of_parent hi hj⟩
      · -- The block of the parent lies inside of the block.
        rw [Fin.lt_def] at hlt
        obtain ⟨below', hp⟩ := h.exists_layout p
        have hjle := h.val_le_of_parent hp hj
        have hoffset : i.val + 1 + (p.val - i.val - 1) = p.val := by omega
        have hblock := getElem?_layout_below hi (show p.val - i.val - 1 < below.size by omega)
        rw [hoffset, hp] at hblock
        have hinside := size_le_of_layout hblock.symm
        exact ⟨Fin.lt_trans hlt hpj, by omega⟩
    · rintro ⟨hlt, hle⟩
      rcases h.parent_in_block hi hlt hle with hparent | ⟨q, hparent, hlt'⟩
      · rw [hj] at hparent
        exact .inl (Option.some.inj hparent).symm
      · rw [hj] at hparent
        cases hparent
        rw [Fin.lt_def] at hpj
        exact .inr ⟨hlt', by omega⟩

/-- **Only the root has no parent.** -/
theorem parent_eq_none_iff (h : t.Holds (cons label below nil)) :
    t.parent i = none ↔ i = t.root := by
  have hroot : ((cons label below nil).layout none 0)[t.root.val]? = some (⟨label, none⟩, below) :=
    rfl
  obtain ⟨below', hlayout⟩ := h.exists_layout t.root
  rw [hroot] at hlayout
  have hnode : t.node t.root = ⟨label, none⟩ := (congrArg Prod.fst (Option.some.inj hlayout)).symm
  constructor
  · intro hnone
    -- Any other node is in the block behind the root.
    rcases Nat.eq_zero_or_pos i.val with hzero | hpos
    · exact Fin.ext hzero
    · have hsize := h.size_eq
      have hlt := i.isLt
      rw [Forest.size, Forest.size] at hsize
      have hle : i.val ≤ t.root.val + below.size := by omega
      rcases h.parent_in_block hroot hpos hle with hparent | ⟨q, hparent, -⟩
      · rw [hnone] at hparent
        cases hparent
      · rw [hnone] at hparent
        cases hparent
  · rintro rfl
    have hparent := t.parent_node t.root
    rw [hnode] at hparent
    exact Option.map_eq_none_iff.mp hparent.symm

end Holds

/-! ## 3. Showing a forest -/

/-- The given nodes are the roots of the forest, one by one: each has the label, and its children
show what is below. -/
def Shows (t : Tree) : List t.Id → Forest → Prop
  | [], .nil => True
  | i :: rest, .cons label below next =>
    t.label i = label ∧ t.Shows (t.children i) below ∧ t.Shows rest next
  | _, _ => False

/-- A forest that is laid out somewhere in the arena is shown by its roots there. -/
theorem Holds.shows (h : t.Holds f) {g : Forest} {parent : Option Nat} {start : Nat}
    (hg : ∀ m, m < g.size → (f.layout none 0)[start + m]? = (g.layout parent start)[m]?)
    {roots : List t.Id} (hroots : roots.map (·.val) = g.roots start) : t.Shows roots g := by
  induction g generalizing parent start roots with
  | nil =>
    cases roots with
    | nil => trivial
    | cons i rest => cases hroots
  | cons label below next ihbelow ihnext =>
    cases roots with
    | nil => cases hroots
    | cons i rest =>
      rw [List.map_cons, Forest.roots, List.cons.injEq] at hroots
      obtain ⟨rfl, hrest⟩ := hroots
      have hi : (f.layout none 0)[i.val]? = some (⟨label, parent⟩, below) :=
        hg 0 (by rw [Forest.size]; omega)
      obtain ⟨below', hlayout⟩ := h.exists_layout i
      rw [hi] at hlayout
      have hnode : t.node i = ⟨label, parent⟩ :=
        (congrArg Prod.fst (Option.some.inj hlayout)).symm
      have hbelow : ∀ m, m < below.size → (f.layout none 0)[i.val + 1 + m]?
          = (below.layout (some i.val) (i.val + 1))[m]? := by
        intro m hm
        rw [getElem?_layout_below hi hm, Nat.zero_add]
      have hnext : ∀ m, m < next.size → (f.layout none 0)[i.val + 1 + below.size + m]?
          = (next.layout parent (i.val + 1 + below.size))[m]? := by
        intro m hm
        -- What is next to the root starts where the block below it ends.
        have hindex : i.val + 1 + below.size + m = i.val + (below.size + m + 1) := by omega
        rw [hindex, hg _ (by rw [Forest.size]; omega), layout, List.getElem?_cons_succ,
          List.getElem?_append_right (by rw [length_layout]; omega), length_layout,
          Nat.add_sub_cancel_left]
      refine ⟨?_, ihbelow hbelow (h.map_val_children hi), ihnext hnext hrest⟩
      show (t.node i).label = label
      rw [hnode]

/-! ## 4. Ancestors -/

/-- Ancestors are a chain of parents, innermost first. -/
theorem isChain_ancestors (j : t.Id) :
    (j :: t.ancestors j).IsChain fun a b => t.parent a = some b := by
  induction j using ancestors.induct t with
  | case1 j hj =>
    rw [ancestors_of_parent_eq_none hj]
    exact List.isChain_singleton j
  | case2 j p hj ih =>
    rw [ancestors_of_parent hj]
    exact List.isChain_cons_cons.mpr ⟨hj, ih⟩

/-- The chain ends at the root. -/
theorem getLast?_ancestors (hroot : ∀ i, t.parent i = none → i = t.root) (j : t.Id) :
    (j :: t.ancestors j).getLast? = some t.root := by
  induction j using ancestors.induct t with
  | case1 j hj =>
    rw [ancestors_of_parent_eq_none hj, hroot j hj]
    rfl
  | case2 j p hj ih =>
    rw [ancestors_of_parent hj, List.getLast?_cons_cons]
    exact ih

end Tree

/-! ## 5. The arena of a tree -/

namespace Tree

variable {t : Tree}

/-- The nodes of a tree as cells. -/
def cells (t : Tree) : List Cell :=
  t.ids.map fun i => ⟨t.label i, (t.parent i).map (·.val), (t.children i).map (·.val)⟩

theorem ofNodes_toList (t : Tree) : Cell.ofNodes t.nodes.toList = t.cells := by
  apply List.ext_getElem
  · simp [Cell.ofNodes, cells, ids]
  · intro k hk hk'
    have hlt : k < t.nodes.size := by simpa [Cell.ofNodes] using hk
    have hparent : t.nodes[k].parent = (t.parent ⟨k, hlt⟩).map (·.val) := t.parent_node ⟨k, hlt⟩
    have hchildren := Tree.map_val_children (⟨k, hlt⟩ : t.Id)
    simp [Cell.ofNodes, cells, ids, label, hparent, hchildren]

/-- The arena of `t` is an image of the tree whose root has this label and this below it. -/
structure Pictures (t : Tree) (label : Label) (below : Forest) : Prop where
  /-- There is one node for each node. -/
  size_eq : t.nodes.size = (cons label below nil).size
  /-- They come in pre-order. -/
  labels_eq : t.ids.map t.label = (cons label below nil).labels
  /-- From the root down, the children of each node are those of the node it is an image of, in
  order. -/
  shows : t.Shows [t.root] (cons label below nil)
  /-- The root, and only the root, has no parent. -/
  root_iff : ∀ i, t.parent i = none ↔ i = t.root
  /-- Children and parents agree. -/
  children_iff : ∀ i j, j ∈ t.children i ↔ t.parent j = some i
  /-- Every other node is listed once, by one node. -/
  once : ∀ j, j ≠ t.root → ∃ i, (t.children i).count j = 1 ∧ ∀ k, k ≠ i → j ∉ t.children k
  /-- Children are listed by increasing index. -/
  increasing : ∀ i, (t.children i).Pairwise (· < ·)
  /-- A parent comes before its children. -/
  parent_lt : ∀ i j, t.parent j = some i → i < j
  /-- What is below a node is a block of indices right behind it, as many as there are nodes below
  the node it is an image of. -/
  block : ∀ i, ∃ node under, ((cons label below nil).layout none 0)[i.val]? = some (node, under)
    ∧ t.label i = node.label
    ∧ ∀ j, i ∈ t.ancestors j ↔ i < j ∧ j.val ≤ i.val + under.size
  /-- The ancestors of a node are its parent, the parent of that and so on, up to the root. -/
  chain : ∀ j, (j :: t.ancestors j).IsChain (fun a b => t.parent a = some b)
    ∧ (j :: t.ancestors j).getLast? = some t.root

theorem Holds.pictures {label : Label} {below : Forest} (h : t.Holds (cons label below nil)) :
    t.Pictures label below := by
  have hroot : ∀ i, t.parent i = none ↔ i = t.root := fun i => h.parent_eq_none_iff
  constructor
  case size_eq => exact h.size_eq
  case labels_eq => exact h.map_label
  case shows =>
    have hall : ∀ m, m < (cons label below nil).size →
        ((cons label below nil).layout none 0)[0 + m]?
          = ((cons label below nil).layout none 0)[m]? := by
      intro m _
      rw [Nat.zero_add]
    exact h.shows hall rfl
  case root_iff => exact hroot
  case children_iff => exact fun i j => t.mem_children
  case once =>
    intro j hj
    cases hparent : t.parent j with
    | none => exact absurd ((hroot j).mp hparent) hj
    | some i =>
      have hnodup : (t.children i).Nodup := (pairwise_children i).imp Fin.ne_of_lt
      refine ⟨i, List.count_eq_one_of_mem hnodup (t.mem_children.mpr hparent), ?_⟩
      intro k hk hmem
      rw [mem_children, hparent] at hmem
      exact hk (Option.some.inj hmem).symm
  case increasing => exact pairwise_children
  case parent_lt => exact fun i j hj => t.lt_of_parent hj
  case block =>
    intro i
    obtain ⟨under, hi⟩ := h.exists_layout i
    exact ⟨_, under, hi, rfl, fun j => h.mem_ancestors_iff hi⟩
  case chain => exact fun j => ⟨isChain_ancestors j, getLast?_ancestors (fun i => (hroot i).mp) j⟩

/-- The rows of a tree make an arena that holds it. -/
theorem exists_holds (source : Text) (variant : Variant) (label : Label) (below : Forest) :
    ∃ t, ofRows? source variant ((cons label below nil).rows 0) = some t
      ∧ t.source = source ∧ t.variant = variant ∧ t.Holds (cons label below nil) := by
  have hne : (cons label below nil).rows 0 ≠ [] := List.cons_ne_nil _ _
  exact ⟨_, dif_neg hne, rfl, rfl, link_rows_zero _⟩

/-- **The arena is an image of the tree that was parsed.** Whatever the tree, linking its rows and
going through it with a cursor come to the same arena, and that pictures the tree. -/
theorem ofRows?_pictures_tree (source : Text) (variant : Variant) (label : Label)
    (below : Forest) :
    ∃ t, ofRows? source variant ((cons label below nil).rows 0) = some t
      ∧ t.source = source ∧ t.variant = variant
      ∧ (Cursor.top label below).fill [] [] = t.cells
      ∧ t.Pictures label below := by
  obtain ⟨t, hrows, hsource, hvariant, hholds⟩ := exists_holds source variant label below
  refine ⟨t, hrows, hsource, hvariant, ?_, hholds.pictures⟩
  rw [Cursor.fill_top, ← ofNodes_toList, hholds]

end Tree

end AnchoredEdit
