/-
`Proofs/Syntax/Path.lean` -- the path of nodes around a position.

Going down from the root, the search looks only at the first child that contains the position.
Nothing is missed that way: siblings do not overlap, so at most one child of a node contains
a position, and a node lies inside its parent, so whatever contains the position hangs below
nodes that do. Hence the nodes that contain a position are exactly the innermost one and its
ancestors. For a node on that path, "this child contains the position" and "this child is the
next node on the path" are then the same, which lets geometric tests be read as steps along
the tree.

Only lines and columns matter for this, so it is proved of every tree with nested spans.
-/
import AnchoredEdit.Proofs.Syntax.WellFormed
import AnchoredEdit.Syntax.Search

set_option autoImplicit false

namespace AnchoredEdit

namespace Tree

variable {t : Tree} {i j k p c d : t.Id} {q : Position}

/-! ## 1. Ancestors -/

theorem ancestors_of_parent (h : t.parent i = some p) :
    t.ancestors i = p :: t.ancestors p := by
  rw [ancestors]
  split
  · next h' => rw [h] at h'; cases h'
  · next p' h' =>
    rw [h] at h'
    cases h'
    rfl

theorem ancestors_of_parent_eq_none (h : t.parent i = none) : t.ancestors i = [] := by
  rw [ancestors]
  split
  · rfl
  · next p' h' => rw [h] at h'; cases h'

/-- Ancestors come earlier in document order. -/
theorem lt_of_mem_ancestors (h : j ∈ t.ancestors i) : j < i := by
  induction i using ancestors.induct t with
  | case1 i hi =>
    rw [ancestors_of_parent_eq_none hi] at h
    cases h
  | case2 i p hi ih =>
    have hlt : p < i := t.lt_of_parent hi
    rw [ancestors_of_parent hi, List.mem_cons] at h
    rcases h with rfl | h
    · exact hlt
    · exact Fin.lt_trans (ih h) hlt

/-- Two nodes that are each on the other's path are one node. -/
theorem eq_of_mem_path (hij : i = j ∨ i ∈ t.ancestors j) (hji : j = i ∨ j ∈ t.ancestors i) :
    i = j := by
  rcases hij with hij | hij
  · exact hij
  · rcases hji with hji | hji
    · exact hji.symm
    · exact absurd (lt_of_mem_ancestors hij) (Nat.lt_asymm (lt_of_mem_ancestors hji))

/-- `c` is the child of `p` on the way down to `d`. -/
structure LeadsTo (t : Tree) (p c d : t.Id) : Prop where
  parent_eq : t.parent c = some p
  on_path : c = d ∨ c ∈ t.ancestors d

/-- Below every ancestor of `d` there is a child of it on the way to `d`. -/
theorem exists_leadsTo_of_mem_ancestors (h : p ∈ t.ancestors d) : ∃ c, t.LeadsTo p c d := by
  induction d using ancestors.induct t with
  | case1 d hd =>
    rw [ancestors_of_parent_eq_none hd] at h
    cases h
  | case2 d r hd ih =>
    rw [ancestors_of_parent hd, List.mem_cons] at h
    rcases h with rfl | h
    · exact ⟨d, hd, .inl rfl⟩
    · obtain ⟨c, hc, hcr⟩ := ih h
      refine ⟨c, hc, .inr ?_⟩
      rw [ancestors_of_parent hd, List.mem_cons]
      exact hcr

/-! ## 2. Containing a position -/

/-- The spans of the tree are nested: a child lies inside its parent, and siblings follow each
other without overlap. Neither bytes nor the source come into it. -/
structure SpansNested (t : Tree) : Prop where
  /-- Only the root has no parent. -/
  eq_root : ∀ i, t.parent i = none → i = t.root
  /-- A node lies inside its parent. -/
  inside : ∀ i p, t.parent i = some p →
    (t.span p).start ≤ (t.span i).start ∧ (t.span i).stop ≤ (t.span p).stop
  /-- Siblings follow each other. -/
  disjoint : ∀ i p, t.parent i = some p → ∀ j, t.parent j = some p → i < j →
    (t.span i).stop ≤ (t.span j).start

/-- A tree that belongs to its source has nested spans: later bytes stand at later positions. -/
theorem WellFormed.spansNested (hwf : t.WellFormed) : t.SpansNested where
  eq_root := hwf.eq_root
  inside := by
    intro i p hp
    obtain ⟨hstart, hend⟩ := hwf.nested i p hp
    exact ⟨Text.position_le_of_le (hwf.start_at p) (hwf.start_at i) hstart,
      Text.position_le_of_le (hwf.stop_at i) (hwf.stop_at p) hend⟩
  disjoint := by
    intro i p hi j hj hlt
    exact Text.position_le_of_le (hwf.stop_at i) (hwf.start_at j)
      (hwf.disjoint i p hi j hj hlt)

namespace SpansNested

/-- Everything lies below the root. -/
theorem root_mem_path (hn : t.SpansNested) (i : t.Id) :
    t.root = i ∨ t.root ∈ t.ancestors i := by
  induction i using ancestors.induct t with
  | case1 i hi => exact .inl (hn.eq_root i hi).symm
  | case2 i p hi ih =>
    rw [ancestors_of_parent hi, List.mem_cons]
    exact .inr ih

/-- A node lies inside each of its ancestors. -/
theorem inside_ancestor (hn : t.SpansNested) (hj : j ∈ t.ancestors i) :
    (t.span j).start ≤ (t.span i).start ∧ (t.span i).stop ≤ (t.span j).stop := by
  induction i using ancestors.induct t with
  | case1 i hi =>
    rw [ancestors_of_parent_eq_none hi] at hj
    cases hj
  | case2 i p hi ih =>
    have hip := hn.inside i p hi
    rw [ancestors_of_parent hi, List.mem_cons] at hj
    rcases hj with rfl | hj
    · exact hip
    · have hpj := ih hj
      simp only [Position.le_def] at hip hpj ⊢
      omega

theorem covers_ancestor (hn : t.SpansNested) (hj : j ∈ t.ancestors i)
    (h : t.covers i q = true) : t.covers j q = true := by
  have hinside := hn.inside_ancestor hj
  rw [covers, Span.contains_iff] at h ⊢
  -- Two chains of positions, in lines and columns: start ≤ start ≤ `q` < stop ≤ stop.
  simp only [Position.le_def, Position.lt_def] at h hinside ⊢
  omega

/-- What a node contains, its parent contains. -/
theorem covers_parent (hn : t.SpansNested) (hp : t.parent i = some p)
    (h : t.covers i q = true) : t.covers p q = true := by
  refine hn.covers_ancestor ?_ h
  rw [ancestors_of_parent hp]
  exact List.mem_cons_self ..

/-- Of two siblings the earlier one stops before the later one starts. -/
theorem not_covers_of_lt (hn : t.SpansNested) (hi : t.parent i = some p)
    (hj : t.parent j = some p) (hlt : i < j) (h : t.covers i q = true) :
    t.covers j q = false := by
  have hle := hn.disjoint i p hi j hj hlt
  rw [Bool.eq_false_iff]
  intro hjq
  rw [covers, Span.contains_iff] at h hjq
  simp only [Position.le_def, Position.lt_def] at h hjq hle
  omega

/-- **At most one child contains a position.** -/
theorem eq_of_covers (hn : t.SpansNested) (hi : t.parent i = some p)
    (hj : t.parent j = some p) (hiq : t.covers i q = true) (hjq : t.covers j q = true) :
    i = j := by
  rcases Nat.lt_trichotomy i.val j.val with hlt | heq | hgt
  · rw [hn.not_covers_of_lt hi hj hlt hiq] at hjq
    cases hjq
  · exact Fin.ext heq
  · rw [hn.not_covers_of_lt hj hi hgt hjq] at hiq
    cases hiq

end SpansNested

theorem WellFormed.covers_ancestor (hwf : t.WellFormed) (hj : j ∈ t.ancestors i)
    (h : t.covers i q = true) : t.covers j q = true :=
  hwf.spansNested.covers_ancestor hj h

theorem WellFormed.not_covers_of_lt (hwf : t.WellFormed) (hi : t.parent i = some p)
    (hj : t.parent j = some p) (hlt : i < j) (h : t.covers i q = true) :
    t.covers j q = false :=
  hwf.spansNested.not_covers_of_lt hi hj hlt h

/-! ## 3. The innermost node -/

theorem descend_of_childAt?_eq_none (h : t.childAt? q i = none) : t.descend q i = i := by
  rw [descend]
  split
  · rfl
  · next j hj => rw [h] at hj; cases hj

theorem descend_of_childAt? (h : t.childAt? q i = some j) : t.descend q i = t.descend q j := by
  rw [descend]
  split
  · next hi => rw [h] at hi; cases hi
  · next j' hj' =>
    rw [h] at hj'
    cases hj'
    rfl

theorem covers_descend (h : t.covers i q = true) : t.covers (t.descend q i) q = true := by
  induction i using descend.induct t q with
  | case1 i hi =>
    rw [descend_of_childAt?_eq_none hi]
    exact h
  | case2 i j hj ih =>
    rw [descend_of_childAt? hj]
    exact ih (List.find?_some (p := fun j => t.covers j q) hj)

/-- The way down ends where no child contains the position. -/
theorem childAt?_descend (q : Position) (i : t.Id) : t.childAt? q (t.descend q i) = none := by
  induction i using descend.induct t q with
  | case1 i hi =>
    rw [descend_of_childAt?_eq_none hi]
    exact hi
  | case2 i j hj ih =>
    rw [descend_of_childAt? hj]
    exact ih

theorem covers_of_innermostAt (h : t.innermostAt q = some d) : t.covers d q = true := by
  unfold innermostAt at h
  split at h
  · next hroot =>
    cases h
    exact covers_descend hroot
  · cases h

theorem not_covers_child_of_innermostAt (h : t.innermostAt q = some d)
    (hj : t.parent j = some d) : t.covers j q = false := by
  unfold innermostAt at h
  split at h
  · cases h
    have hnone := List.find?_eq_none.mp (childAt?_descend q t.root) j (t.mem_children.mpr hj)
    rwa [Bool.not_eq_true] at hnone
  · cases h

/-- **The nodes that contain a position are the innermost one and its ancestors.** The
induction is on a node's own way up: its parent contains the position too, so the parent is on
the path, and the path leaves the parent through the only child that contains the position. -/
theorem SpansNested.covers_iff_mem_path (hn : t.SpansNested) (hd : t.innermostAt q = some d) :
    t.covers j q = true ↔ j = d ∨ j ∈ t.ancestors d := by
  constructor
  · intro h
    induction j using ancestors.induct t with
    | case1 j hj =>
      rw [hn.eq_root j hj]
      exact hn.root_mem_path d
    | case2 j p hj ih =>
      rcases ih (hn.covers_parent hj h) with rfl | hp
      · -- The path ends at the parent, so none of its children contains the position.
        rw [not_covers_child_of_innermostAt hd hj] at h
        cases h
      · -- The path goes on through a child `c`, and there is only one such child.
        obtain ⟨c, hc, hcd⟩ := exists_leadsTo_of_mem_ancestors hp
        have hcq : t.covers c q = true := by
          rcases hcd with rfl | hcd
          · exact covers_of_innermostAt hd
          · exact hn.covers_ancestor hcd (covers_of_innermostAt hd)
        rw [hn.eq_of_covers hj hc h hcq]
        exact hcd
  · rintro (rfl | hj)
    · exact covers_of_innermostAt hd
    · exact hn.covers_ancestor hj (covers_of_innermostAt hd)

/-- **Where the path goes**: of the children of a node, the one that contains the position is
the one on the path. -/
theorem WellFormed.covers_iff_eq (hwf : t.WellFormed) (hd : t.innermostAt q = some d)
    (hc : t.LeadsTo p c d) (hj : t.parent j = some p) : t.covers j q = true ↔ j = c := by
  have hcq : t.covers c q = true := (hwf.spansNested.covers_iff_mem_path hd).mpr hc.on_path
  constructor
  · intro hjq
    exact hwf.spansNested.eq_of_covers hj hc.parent_eq hjq hcq
  · rintro rfl
    exact hcq

/-! ## 4. The closest candidate -/

/-- **The smallest element splits its list**: what comes before it is larger, and what comes
after it is not smaller. -/
theorem exists_split_of_smallestBy {α : Type} {size : α → Int} {l : List α} {a : α}
    (h : smallestBy size l = some a) : ∃ before after, l = before ++ a :: after
      ∧ (∀ b ∈ before, size a < size b) ∧ ∀ b ∈ after, size a ≤ size b := by
  induction l generalizing a with
  | nil => cases h
  | cons c l ih =>
    rw [smallestBy] at h
    split at h
    · next hnone =>
      cases h
      rw [smallestBy_eq_none_iff] at hnone
      subst hnone
      exact ⟨[], [], rfl, List.forall_mem_nil _, List.forall_mem_nil _⟩
    · next m hm =>
      obtain ⟨before, after, rfl, hbefore, hafter⟩ := ih hm
      split at h
      · next hlt =>
        cases h
        exact ⟨c :: before, after, rfl, List.forall_mem_cons.mpr ⟨hlt, hbefore⟩, hafter⟩
      · next hge =>
        -- The head is no larger than the smallest of the rest, hence than any of them.
        cases h
        refine ⟨[], _, rfl, List.forall_mem_nil _, ?_⟩
        intro b hb
        rcases List.mem_append.mp hb with hb | hb
        · have := hbefore b hb
          omega
        · rcases List.mem_cons.mp hb with rfl | hb
          · omega
          · have := hafter b hb
            omega

theorem mem_of_smallestBy {α : Type} {size : α → Int} {l : List α} {a : α}
    (h : smallestBy size l = some a) : a ∈ l := by
  obtain ⟨before, after, rfl, -, -⟩ := exists_split_of_smallestBy h
  exact List.mem_append_right _ (List.mem_cons_self ..)

/-- Only the first of the smallest elements splits a list that way. -/
theorem smallestBy_eq_some_iff {α : Type} {size : α → Int} {l : List α} {a : α} :
    smallestBy size l = some a ↔ ∃ before after, l = before ++ a :: after
      ∧ (∀ b ∈ before, size a < size b) ∧ ∀ b ∈ after, size a ≤ size b := by
  constructor
  · exact exists_split_of_smallestBy
  · rintro ⟨before, after, rfl, hbefore, hafter⟩
    induction before with
    | nil =>
      rw [List.nil_append, smallestBy]
      split
      · rfl
      · next m hm =>
        have hle := hafter m (mem_of_smallestBy hm)
        rw [if_neg (by omega)]
    | cons c before ih =>
      rw [List.forall_mem_cons] at hbefore
      rw [List.cons_append, smallestBy, ih hbefore.2]
      exact if_pos hbefore.1

theorem covers_of_smallestAround {candidates : List t.Id} {weight : Nat}
    (h : t.smallestAround candidates q weight = some i) : t.covers i q = true :=
  (List.mem_filter.mp (mem_of_smallestBy h)).2

/-! ## 5. The nearest ancestor of a kind -/

/-- `j` is a proper ancestor of `i` of one of the given kinds, and every other one lies further
up. -/
structure Nearest (t : Tree) (kinds : List String) (i j : t.Id) : Prop where
  mem_ancestors : j ∈ t.ancestors i
  kind_mem : t.kind j ∈ kinds
  below : ∀ k ∈ t.ancestors i, t.kind k ∈ kinds → k = j ∨ k ∈ t.ancestors j

/-- A parent of one of the kinds is the nearest, and no one else is. -/
theorem nearest_iff_of_kind_mem {kinds : List String} (h : t.parent i = some p)
    (hkind : t.kind p ∈ kinds) : t.Nearest kinds i j ↔ j = p := by
  have hpath := ancestors_of_parent h
  have hp : p ∈ t.ancestors i := by
    rw [hpath]
    exact List.mem_cons_self ..
  constructor
  · intro hj
    have hjp := hj.mem_ancestors
    rw [hpath, List.mem_cons] at hjp
    rcases hjp with hjp | hjp
    · exact hjp
    · exact eq_of_mem_path (.inr hjp) (hj.below p hp hkind)
  · rintro rfl
    refine ⟨hp, hkind, ?_⟩
    intro k hk _
    rw [hpath, List.mem_cons] at hk
    exact hk

/-- A parent of another kind does not count. -/
theorem nearest_iff_of_kind_not_mem {kinds : List String} (h : t.parent i = some p)
    (hkind : t.kind p ∉ kinds) : t.Nearest kinds i j ↔ t.Nearest kinds p j := by
  have hpath := ancestors_of_parent h
  constructor
  · rintro ⟨hmem, hj, hbelow⟩
    rw [hpath] at hmem hbelow
    rcases List.mem_cons.mp hmem with rfl | hmem
    · exact absurd hj hkind
    · exact ⟨hmem, hj, fun k hk => hbelow k (List.mem_cons_of_mem _ hk)⟩
  · rintro ⟨hmem, hj, hbelow⟩
    refine ⟨?_, hj, ?_⟩
    · rw [hpath]
      exact List.mem_cons_of_mem _ hmem
    · intro k hk hkk
      rw [hpath] at hk
      rcases List.mem_cons.mp hk with rfl | hk
      · exact absurd hkk hkind
      · exact hbelow k hk hkk

/-- **The climb stops at the nearest ancestor of one of the kinds.** -/
theorem enclosingOfKind_eq_some_iff {kinds : List String} :
    t.enclosingOfKind i kinds = some j ↔ t.Nearest kinds i j := by
  induction i using ancestors.induct t with
  | case1 i hi =>
    rw [enclosingOfKind, ancestors_of_parent_eq_none hi]
    constructor
    · intro h
      cases h
    · intro h
      have hmem := h.mem_ancestors
      rw [ancestors_of_parent_eq_none hi] at hmem
      cases hmem
  | case2 i p hi ih =>
    rw [enclosingOfKind, ancestors_of_parent hi, List.find?_cons]
    by_cases hkind : t.kind p ∈ kinds
    · -- The climb ends here.
      rw [nearest_iff_of_kind_mem hi hkind]
      simp [hkind, eq_comm]
    · rw [nearest_iff_of_kind_not_mem hi hkind, ← ih, enclosingOfKind]
      simp [hkind]

theorem sequenceAround_eq_some_iff : t.sequenceAround q = some p ↔
    ∃ d, t.innermostAt q = some d ∧ t.Nearest sequenceKinds d p := by
  simp only [sequenceAround, Option.bind_eq_some_iff, enclosingOfKind_eq_some_iff]

/-! ## 6. Lists of children -/

/-- A list without repetition has one element exactly if one node is all there is in it. -/
theorem eq_singleton_iff_of_nodup {l : List t.Id} (h : l.Nodup) :
    l = [i] ↔ ∀ j, j ∈ l ↔ j = i := by
  have hsingle : [i].Nodup := List.pairwise_singleton _ _
  rw [← List.perm_singleton, List.perm_ext_iff_of_nodup h hsingle]
  simp only [List.mem_singleton]

/-- Children are listed in document order. -/
theorem pairwise_children (i : t.Id) : (t.children i).Pairwise (· < ·) :=
  (List.pairwise_lt_finRange _).filter _

theorem pairwise_items (i : t.Id) : (t.items i).Pairwise (· < ·) :=
  (pairwise_children i).filter _

/-- **Children are listed in the order of their bytes.** -/
theorem WellFormed.pairwise_children (hwf : t.WellFormed) (i : t.Id) :
    (t.children i).Pairwise fun j k => t.endByte j ≤ t.startByte k := by
  refine (Tree.pairwise_children i).imp_of_mem ?_
  intro j k hj hk hlt
  exact hwf.disjoint j i (t.mem_children.mp hj) k (t.mem_children.mp hk) hlt

theorem WellFormed.pairwise_parts (hwf : t.WellFormed) (i : t.Id) :
    (t.parts i).Pairwise fun j k => t.endByte j ≤ t.startByte k :=
  (hwf.pairwise_children i).filter _

theorem WellFormed.pairwise_items (hwf : t.WellFormed) (i : t.Id) :
    (t.items i).Pairwise fun j k => t.endByte j ≤ t.startByte k :=
  (hwf.pairwise_children i).filter _

/-- No two parts contain one position. -/
theorem WellFormed.pairwise_parts_covers (hwf : t.WellFormed) (i : t.Id) (q : Position) :
    (t.parts i).Pairwise fun j k => (t.covers j q && t.covers k q) = false := by
  refine List.Pairwise.filter _ ((Tree.pairwise_children i).imp_of_mem ?_)
  intro j k hj hk hlt
  by_cases hjq : t.covers j q = true
  · rw [hwf.not_covers_of_lt (t.mem_children.mp hj) (t.mem_children.mp hk) hlt hjq,
      Bool.and_false]
  · rw [Bool.not_eq_true] at hjq
    rw [hjq, Bool.false_and]

theorem mem_parts_iff : j ∈ t.parts i ↔ t.parent j = some i ∧ t.isComment j = false := by
  simp [parts]

theorem mem_items_iff : j ∈ t.items i ↔
    t.parent j = some i ∧ (t.label j).named = true ∧ t.isComment j = false := by
  simp [items]

theorem parent_of_mem_parts (h : j ∈ t.parts i) : t.parent j = some i :=
  (mem_parts_iff.mp h).1

theorem parent_of_mem_items (h : j ∈ t.items i) : t.parent j = some i :=
  (mem_items_iff.mp h).1

/-! ## 7. What the search finds -/

/-- Of the nodes with the property `among`, `i` is the innermost: the others are above it. -/
structure Innermost (t : Tree) (among : t.Id → Prop) (i : t.Id) : Prop where
  mem : among i
  above : ∀ j, among j → j = i ∨ j ∈ t.ancestors i

theorem Innermost.eq {among : t.Id → Prop} (hi : t.Innermost among i) (hj : t.Innermost among j) :
    i = j :=
  eq_of_mem_path (hj.above i hi.mem) (hi.above j hj.mem)

/-- `i` contains the position `q` without being the most specific node there, and its children
form a sequence. -/
structure Enclosing (t : Tree) (q : Position) (i : t.Id) : Prop where
  covers : t.covers i q = true
  outer : t.innermostAt q ≠ some i
  kind_mem : t.kind i ∈ sequenceKinds

namespace SpansNested

/-- The search comes back empty only where nothing contains the position. -/
theorem innermostAt_eq_none_iff (hn : t.SpansNested) :
    t.innermostAt q = none ↔ ∀ j, t.covers j q = false := by
  constructor
  · intro h j
    rw [Bool.eq_false_iff]
    intro hj
    -- Containing spreads up to the root, where the search starts.
    have hroot : t.covers t.root q = true := by
      rcases hn.root_mem_path j with hrj | hrj
      · rw [hrj]
        exact hj
      · exact hn.covers_ancestor hrj hj
    rw [innermostAt, if_pos hroot] at h
    cases h
  · intro h
    rw [innermostAt, if_neg]
    rw [h t.root]
    exact Bool.false_ne_true

theorem exists_innermostAt (hn : t.SpansNested) (h : t.covers j q = true) :
    ∃ d, t.innermostAt q = some d := by
  rw [← Option.ne_none_iff_exists']
  intro hnone
  rw [hn.innermostAt_eq_none_iff.mp hnone j] at h
  cases h

/-- **The node that is found is the only one** whose path is all that contains the position. -/
theorem innermostAt_eq_some_iff (hn : t.SpansNested) :
    t.innermostAt q = some d ↔ ∀ j, t.covers j q = true ↔ j = d ∨ j ∈ t.ancestors d := by
  constructor
  · intro hd j
    exact hn.covers_iff_mem_path hd
  · intro h
    obtain ⟨c, hc⟩ := hn.exists_innermostAt ((h d).mpr (.inl rfl))
    -- Each of the two nodes is on the path of the other.
    have hdc := (hn.covers_iff_mem_path hc).mp ((h d).mpr (.inl rfl))
    have hcd := (h c).mp (covers_of_innermostAt hc)
    rw [hc, eq_of_mem_path hcd hdc]

/-- What encloses a position are the ancestors of the innermost node that are sequences. -/
theorem enclosing_iff (hn : t.SpansNested) (hd : t.innermostAt q = some d) :
    t.Enclosing q i ↔ i ∈ t.ancestors d ∧ t.kind i ∈ sequenceKinds := by
  constructor
  · rintro ⟨hcovers, houter, hkind⟩
    rcases (hn.covers_iff_mem_path hd).mp hcovers with rfl | hi
    · exact absurd hd houter
    · exact ⟨hi, hkind⟩
  · rintro ⟨hi, hkind⟩
    refine ⟨(hn.covers_iff_mem_path hd).mpr (.inr hi), ?_, hkind⟩
    rw [hd]
    rintro ⟨⟩
    exact absurd (lt_of_mem_ancestors hi) (Nat.lt_irrefl _)

theorem sequenceAround_eq_some_iff (hn : t.SpansNested) :
    t.sequenceAround q = some p ↔ t.Innermost (t.Enclosing q) p := by
  rw [Tree.sequenceAround_eq_some_iff]
  constructor
  · rintro ⟨d, hd, hnearest⟩
    refine ⟨(hn.enclosing_iff hd).mpr ⟨hnearest.mem_ancestors, hnearest.kind_mem⟩, ?_⟩
    intro j hj
    obtain ⟨hjd, hkind⟩ := (hn.enclosing_iff hd).mp hj
    exact hnearest.below j hjd hkind
  · rintro ⟨hp, habove⟩
    obtain ⟨d, hd⟩ := hn.exists_innermostAt hp.covers
    obtain ⟨hpd, hkind⟩ := (hn.enclosing_iff hd).mp hp
    exact ⟨d, hd, hpd, hkind, fun k hk hkk => habove k ((hn.enclosing_iff hd).mpr ⟨hk, hkk⟩)⟩

theorem sequenceAround_eq_none_iff (hn : t.SpansNested) :
    t.sequenceAround q = none ↔ ∀ i, ¬ t.Enclosing q i := by
  constructor
  · intro h i hi
    obtain ⟨d, hd⟩ := hn.exists_innermostAt hi.covers
    obtain ⟨hid, hkind⟩ := (hn.enclosing_iff hd).mp hi
    rw [sequenceAround, hd, Option.bind_some, enclosingOfKind, List.find?_eq_none] at h
    exact h i hid (List.contains_iff_mem.mpr hkind)
  · intro h
    rw [Option.eq_none_iff_forall_ne_some]
    intro p hp
    exact h p (hn.sequenceAround_eq_some_iff.mp hp).mem

end SpansNested

/-- **The search finds the innermost node.** It finds nothing exactly where no node contains the
position. Otherwise the nodes of the whole tree that contain it are the one that is found and its
ancestors, and there is no second node of which that holds. The sequence around a position is the
innermost one among the other nodes that contain it, and there is none exactly if none of them
is a sequence. -/
theorem search_finds_innermost (hn : t.SpansNested) (q : Position) :
    (t.innermostAt q = none ↔ ∀ j, t.covers j q = false)
      ∧ (∀ d, t.innermostAt q = some d ↔
          ∀ j, t.covers j q = true ↔ j = d ∨ j ∈ t.ancestors d)
      ∧ (∀ p, t.sequenceAround q = some p ↔ t.Innermost (t.Enclosing q) p)
      ∧ (t.sequenceAround q = none ↔ ∀ i, ¬ t.Enclosing q i) :=
  ⟨hn.innermostAt_eq_none_iff, fun _ => hn.innermostAt_eq_some_iff,
    fun _ => hn.sequenceAround_eq_some_iff, hn.sequenceAround_eq_none_iff⟩

/-- Where the first argument stops and the comma starts, the comma is found, inside the list of
arguments. -/
theorem search_finds_innermost_sampleCall :
    sampleCall.SpansNested
      ∧ (∀ j, sampleCall.covers j ⟨1, 2⟩ = true ↔
          j = ⟨12, by decide⟩ ∨ j ∈ sampleCall.ancestors ⟨12, by decide⟩)
      ∧ sampleCall.Innermost (sampleCall.Enclosing ⟨1, 2⟩) ⟨4, by decide⟩ := by
  have hn : sampleCall.SpansNested := sampleCall_wellFormed.spansNested
  obtain ⟨-, hinnermost, haround, -⟩ := search_finds_innermost hn ⟨1, 2⟩
  exact ⟨hn, (hinnermost _).mp (by decide +kernel), (haround _).mp (by decide +kernel)⟩

end Tree

end AnchoredEdit
