/-
`Proofs/Syntax/Closest.lean` -- the smallest candidate is the innermost one.

A span is ranked by one number, lines times a weight plus columns. If no column reaches the
weight, that number is a difference of two others, one for each end of the span, and those
others are ordered the way positions are: they are the positions written in one digit system.
So a span inside another has a smaller rank, and the same rank only if it is the same span.

Of any list of candidates the search finds the first one of the smallest. Candidates that contain
a position all lie on one path. Along that path ranks only grow, so the smallest candidate has the
span of the nearest one. It need not be the nearest node itself: of candidates on one span the
search takes the outermost and the climb the innermost.
-/
import AnchoredEdit.Proofs.Syntax.Path

set_option autoImplicit false

namespace AnchoredEdit

/-! ## 1. Ranks of positions -/

/-- The position as one number, in which a line counts `weight` and a column one. -/
def Position.rank (weight : Nat) (p : Position) : Nat :=
  p.line * weight + p.column

/-- **Below the weight, columns never make up for a line.** -/
theorem Position.rank_lt_rank {weight : Nat} {p q : Position} (hcolumn : p.column < weight)
    (h : p < q) : p.rank weight < q.rank weight := by
  rw [Position.lt_def] at h
  unfold rank
  rcases h with hline | ⟨hline, hcol⟩
  · have hmul : (p.line + 1) * weight ≤ q.line * weight := Nat.mul_le_mul_right _ hline
    rw [Nat.add_mul, Nat.one_mul] at hmul
    omega
  · rw [hline]
    omega

theorem Position.eq_or_rank_lt_rank {weight : Nat} {p q : Position} (hcolumn : p.column < weight)
    (h : p ≤ q) : p = q ∨ p.rank weight < q.rank weight := by
  by_cases heq : p = q
  · exact .inl heq
  · right
    apply rank_lt_rank hcolumn
    rw [Position.lt_def]
    rw [Position.le_def] at h
    rw [Position.ext_iff] at heq
    omega

theorem Position.rank_le_rank {weight : Nat} {p q : Position} (hcolumn : p.column < weight)
    (h : p ≤ q) : p.rank weight ≤ q.rank weight := by
  rcases eq_or_rank_lt_rank hcolumn h with rfl | hlt
  · exact Nat.le_refl _
  · exact Nat.le_of_lt hlt

/-! ## 2. Ranks of spans -/

/-- A signed word is itself. -/
theorem signed64_eq_self {n : Int} (hlow : -(signedBound : Int) ≤ n) (hhigh : n < signedBound) :
    signed64 n = n := by
  rw [signed64, wordCount_eq]
  apply Int.bmod_eq_of_le_mul_two
  · push_cast
    omega
  · push_cast
    omega

/-- The rank of the span as a number without bound. -/
def Span.exactExtent (s : Span) (weight : Nat) : Int :=
  (s.stop.line - s.start.line : Int) * weight + (s.stop.column - s.start.column)

theorem Span.exactExtent_eq_sub (s : Span) (weight : Nat) :
    s.exactExtent weight = s.stop.rank weight - s.start.rank weight := by
  unfold exactExtent Position.rank
  push_cast
  rw [Int.sub_mul]
  omega

/-- **In range, the rank of a span is the number it stands for.** -/
theorem Span.extent_eq_exactExtent {s : Span} {weight : Nat} (hweight : weight < signedBound)
    (hlow : -(signedBound : Int) ≤ s.exactExtent weight)
    (hhigh : s.exactExtent weight < signedBound) : s.extent weight = s.exactExtent weight := by
  have hself : signed64 weight = weight :=
    signed64_eq_self (by omega) (Int.ofNat_lt.mpr hweight)
  unfold Span.extent
  rw [hself]
  exact signed64_eq_self hlow hhigh

/-- No column of the tree reaches the weight. -/
def Tree.ColumnsBelow (t : Tree) (weight : Nat) : Prop :=
  ∀ i, (t.span i).start.column < weight ∧ (t.span i).stop.column < weight

/-- The weight ranks the nodes of the tree: it is a signed word above every column of the tree,
and no rank leaves the range of such words. -/
structure Tree.Ranks (t : Tree) (weight : Nat) : Prop where
  weight_lt : weight < signedBound
  start_lt : ∀ i, (t.span i).start.column < weight
  stop_lt : ∀ i, (t.span i).stop.column < weight
  le_extent : ∀ i, -(signedBound : Int) ≤ (t.span i).exactExtent weight
  extent_lt : ∀ i, (t.span i).exactExtent weight < signedBound

namespace Tree

variable {t : Tree} {i j k d : t.Id} {q : Position} {weight : Nat} {kinds : List String}

theorem Ranks.extent_eq (hw : t.Ranks weight) (i : t.Id) :
    (t.span i).extent weight = (t.span i).exactExtent weight :=
  Span.extent_eq_exactExtent hw.weight_lt (hw.le_extent i) (hw.extent_lt i)

theorem Ranks.columnsBelow (hw : t.Ranks weight) : t.ColumnsBelow weight :=
  fun i => ⟨hw.start_lt i, hw.stop_lt i⟩

/-- A span that contains a position stops after it starts, so its rank is not negative. -/
theorem ColumnsBelow.exactExtent_nonneg (hw : t.ColumnsBelow weight)
    (hi : t.covers i q = true) : 0 ≤ (t.span i).exactExtent weight := by
  rw [covers, Span.contains_iff] at hi
  have hle : (t.span i).start ≤ (t.span i).stop := by
    simp only [Position.le_def, Position.lt_def] at hi ⊢
    omega
  have hrank := Position.rank_le_rank (hw i).1 hle
  rw [Span.exactExtent_eq_sub]
  omega

/-- **What encloses a node ranks higher, or covers the same span.** -/
theorem SpansNested.span_eq_of_exactExtent_le (hn : t.SpansNested) (hw : t.ColumnsBelow weight)
    (hi : i ∈ t.ancestors j)
    (hle : (t.span i).exactExtent weight ≤ (t.span j).exactExtent weight) :
    t.span i = t.span j := by
  rw [Span.exactExtent_eq_sub, Span.exactExtent_eq_sub] at hle
  obtain ⟨hstart, hstop⟩ := hn.inside_ancestor hi
  have hstart_le := Position.rank_le_rank (hw i).1 hstart
  have hstop_le := Position.rank_le_rank (hw j).2 hstop
  -- Were one of the ends apart, the ranks of the two spans would be.
  have hstart_eq : (t.span i).start = (t.span j).start := by
    rcases Position.eq_or_rank_lt_rank (hw i).1 hstart with heq | hlt
    · exact heq
    · omega
  have hstop_eq : (t.span j).stop = (t.span i).stop := by
    rcases Position.eq_or_rank_lt_rank (hw j).2 hstop with heq | hlt
    · exact heq
    · omega
  calc t.span i = ⟨(t.span i).start, (t.span i).stop⟩ := rfl
    _ = ⟨(t.span j).start, (t.span j).stop⟩ := by rw [hstart_eq, hstop_eq]
    _ = t.span j := rfl

/-! ## 3. The smallest candidate -/

/-- Of the candidates that contain `q`, node `i` has the smallest rank, and it is the first one
with that rank. -/
structure FirstSmallest (t : Tree) (candidates : List t.Id) (q : Position) (weight : Nat)
    (i : t.Id) : Prop where
  covers : t.covers i q = true
  smallest : ∀ j ∈ candidates, t.covers j q = true →
    (t.span i).extent weight ≤ (t.span j).extent weight
  first : ∃ before after, candidates = before ++ i :: after
    ∧ ∀ j ∈ before, t.covers j q = true → (t.span i).extent weight < (t.span j).extent weight

theorem FirstSmallest.mem {candidates : List t.Id} (h : t.FirstSmallest candidates q weight i) :
    i ∈ candidates := by
  obtain ⟨before, after, rfl, -⟩ := h.first
  exact List.mem_append_right _ (List.mem_cons_self ..)

theorem smallestAround_eq_none_iff {candidates : List t.Id} :
    t.smallestAround candidates q weight = none ↔ ∀ i ∈ candidates, t.covers i q = false := by
  rw [smallestAround, smallestBy_eq_none_iff, List.filter_eq_nil_iff]
  simp only [Bool.not_eq_true]

/-- **The search finds the first of the smallest candidates.** -/
theorem smallestAround_eq_some_iff {candidates : List t.Id} :
    t.smallestAround candidates q weight = some i ↔ t.FirstSmallest candidates q weight i := by
  rw [smallestAround, smallestBy_eq_some_iff]
  constructor
  · rintro ⟨before, after, hsplit, hbefore, hafter⟩
    -- A split of what contains `q` comes from a split of all candidates.
    obtain ⟨front, back, rfl, rfl, hback⟩ := List.filter_eq_append_iff.mp hsplit
    obtain ⟨middle, rest, rfl, hmiddle, hi, rfl⟩ := List.filter_eq_cons_iff.mp hback
    have hfront : ∀ j ∈ front ++ middle, t.covers j q = true →
        (t.span i).extent weight < (t.span j).extent weight := by
      intro j hj hjq
      rcases List.mem_append.mp hj with hj | hj
      · exact hbefore j (List.mem_filter.mpr ⟨hj, hjq⟩)
      · exact absurd hjq (hmiddle j hj)
    refine ⟨hi, ?_, front ++ middle, rest, (List.append_assoc ..).symm, hfront⟩
    intro j hj hjq
    rw [← List.append_assoc, List.mem_append, List.mem_cons] at hj
    rcases hj with hj | rfl | hj
    · exact Int.le_of_lt (hfront j hj hjq)
    · exact Int.le_refl _
    · exact hafter j (List.mem_filter.mpr ⟨hj, hjq⟩)
  · rintro ⟨hi, hsmallest, before, after, rfl, hbefore⟩
    refine ⟨before.filter fun j => t.covers j q, after.filter fun j => t.covers j q, ?_, ?_, ?_⟩
    · rw [List.filter_append, List.filter_cons, if_pos hi]
    · intro j hj
      obtain ⟨hj, hjq⟩ := List.mem_filter.mp hj
      exact hbefore j hj hjq
    · intro j hj
      obtain ⟨hj, hjq⟩ := List.mem_filter.mp hj
      exact hsmallest j (List.mem_append_right _ (List.mem_cons_of_mem _ hj)) hjq

theorem mem_allOfKind : i ∈ t.allOfKind kinds ↔ t.kind i ∈ kinds := by
  simp [allOfKind, ids]

/-! ## 4. The nearest candidate -/

/-- The climb that may stay where it starts. -/
theorem nearestOfKind_eq_find? (i : t.Id) (kinds : List String) :
    t.nearestOfKind i kinds = (i :: t.ancestors i).find? fun j => kinds.contains (t.kind j) := by
  rw [nearestOfKind, List.find?_cons, enclosingOfKind]
  split
  · next h => rw [h]
  · next h =>
    rw [Bool.not_eq_true] at h
    rw [h]

theorem nearestOfKind_eq_none_iff : t.nearestOfKind d kinds = none ↔
    ∀ i, i = d ∨ i ∈ t.ancestors d → t.kind i ∉ kinds := by
  rw [nearestOfKind_eq_find?, List.find?_eq_none]
  simp only [List.mem_cons, List.contains_iff_mem]

theorem kind_mem_of_nearestOfKind (h : t.nearestOfKind d kinds = some i) : t.kind i ∈ kinds := by
  rw [nearestOfKind_eq_find?] at h
  have hkind := List.find?_some (p := fun j => kinds.contains (t.kind j)) h
  exact List.contains_iff_mem.mp hkind

theorem mem_path_of_nearestOfKind (h : t.nearestOfKind d kinds = some i) :
    i = d ∨ i ∈ t.ancestors d := by
  rw [nearestOfKind_eq_find?] at h
  exact List.mem_cons.mp (List.mem_of_find?_eq_some h)

/-- What the climb stops at is below everything else it could have stopped at. -/
theorem below_of_nearestOfKind (h : t.nearestOfKind d kinds = some j)
    (hi : i = d ∨ i ∈ t.ancestors d) (hkind : t.kind i ∈ kinds) :
    i = j ∨ i ∈ t.ancestors j := by
  rw [nearestOfKind] at h
  split at h
  · cases h
    exact hi
  · next hd =>
    rw [List.contains_iff_mem] at hd
    rcases hi with rfl | hi
    · exact absurd hkind hd
    · exact (enclosingOfKind_eq_some_iff.mp h).below i hi hkind

/-- Node `i` is of one of the given kinds and contains the position `q`. -/
structure OfKindAround (t : Tree) (kinds : List String) (q : Position) (i : t.Id) : Prop where
  kind_mem : t.kind i ∈ kinds
  covers : t.covers i q = true

namespace SpansNested

theorem innermost_of_nearestOfKind (hn : t.SpansNested) (hd : t.innermostAt q = some d)
    (h : t.nearestOfKind d kinds = some i) : t.Innermost (t.OfKindAround kinds q) i := by
  have hpath := mem_path_of_nearestOfKind h
  refine ⟨⟨kind_mem_of_nearestOfKind h, (hn.covers_iff_mem_path hd).mpr hpath⟩, ?_⟩
  intro j hj
  exact below_of_nearestOfKind h ((hn.covers_iff_mem_path hd).mp hj.covers) hj.kind_mem

/-- **The climb from the node at a position stops at the innermost one of the kinds there.** -/
theorem nearestOfKind_eq_some_iff (hn : t.SpansNested) (hd : t.innermostAt q = some d) :
    t.nearestOfKind d kinds = some i ↔ t.Innermost (t.OfKindAround kinds q) i := by
  constructor
  · exact hn.innermost_of_nearestOfKind hd
  · intro hi
    cases hj : t.nearestOfKind d kinds with
    | none =>
      rw [nearestOfKind_eq_none_iff] at hj
      exact absurd hi.mem.kind_mem (hj i ((hn.covers_iff_mem_path hd).mp hi.mem.covers))
    | some j => rw [hi.eq (hn.innermost_of_nearestOfKind hd hj)]

/-- The same for a position that may lie outside of the tree. -/
theorem bind_nearestOfKind_eq_some_iff (hn : t.SpansNested) :
    ((t.innermostAt q).bind fun d => t.nearestOfKind d kinds) = some i ↔
      t.Innermost (t.OfKindAround kinds q) i := by
  rw [Option.bind_eq_some_iff]
  constructor
  · rintro ⟨d, hd, hi⟩
    exact (hn.nearestOfKind_eq_some_iff hd).mp hi
  · intro hi
    obtain ⟨d, hd⟩ := hn.exists_innermostAt hi.mem.covers
    exact ⟨d, hd, (hn.nearestOfKind_eq_some_iff hd).mpr hi⟩

theorem bind_nearestOfKind_eq_none_iff (hn : t.SpansNested) :
    ((t.innermostAt q).bind fun d => t.nearestOfKind d kinds) = none ↔
      ∀ i, ¬ t.OfKindAround kinds q i := by
  rw [Option.bind_eq_none_iff]
  constructor
  · intro h i hi
    obtain ⟨d, hd⟩ := hn.exists_innermostAt hi.covers
    have hnone := nearestOfKind_eq_none_iff.mp (h d hd)
    exact hnone i ((hn.covers_iff_mem_path hd).mp hi.covers) hi.kind_mem
  · intro h d hd
    rw [nearestOfKind_eq_none_iff]
    intro i hi hkind
    exact h i ⟨hkind, (hn.covers_iff_mem_path hd).mpr hi⟩

/-- **The smallest and the innermost candidate cover the same span**, and there is the one exactly
if there is the other. -/
theorem span_smallestAround_of_exact (hn : t.SpansNested) (hw : t.ColumnsBelow weight)
    (hexact : ∀ i, t.OfKindAround kinds q i →
      (t.span i).extent weight = (t.span i).exactExtent weight) :
    (t.smallestAround (t.allOfKind kinds) q weight).map t.span
      = ((t.innermostAt q).bind fun d => t.nearestOfKind d kinds).map t.span := by
  cases hj : (t.innermostAt q).bind fun d => t.nearestOfKind d kinds with
  | none =>
    rw [hn.bind_nearestOfKind_eq_none_iff] at hj
    have hnone : t.smallestAround (t.allOfKind kinds) q weight = none := by
      rw [smallestAround_eq_none_iff]
      intro i hi
      rw [Bool.eq_false_iff]
      intro hcovers
      exact hj i ⟨mem_allOfKind.mp hi, hcovers⟩
    rw [hnone]
  | some j =>
    obtain ⟨hj, habove⟩ := hn.bind_nearestOfKind_eq_some_iff.mp hj
    have hcandidate := mem_allOfKind.mpr hj.kind_mem
    cases hi : t.smallestAround (t.allOfKind kinds) q weight with
    | none =>
      rw [smallestAround_eq_none_iff] at hi
      exact absurd hj.covers (Bool.eq_false_iff.mp (hi j hcandidate))
    | some i =>
      rw [smallestAround_eq_some_iff] at hi
      have hiaround : t.OfKindAround kinds q i := ⟨mem_allOfKind.mp hi.mem, hi.covers⟩
      rw [Option.map_some, Option.map_some, Option.some.injEq]
      rcases habove i hiaround with rfl | hanc
      · rfl
      · have hle := hi.smallest j hcandidate hj.covers
        rw [hexact i hiaround, hexact j hj] at hle
        exact hn.span_eq_of_exactExtent_le hw hanc hle

theorem span_smallestAround (hn : t.SpansNested) (hw : t.Ranks weight)
    (hd : t.innermostAt q = some d) :
    (t.smallestAround (t.allOfKind kinds) q weight).map t.span
      = (t.nearestOfKind d kinds).map t.span := by
  rw [hn.span_smallestAround_of_exact hw.columnsBelow fun i _ => hw.extent_eq i, hd,
    Option.bind_some]

end SpansNested

/-! ## 5. Smallest and innermost -/

/-- **The closest candidate is the smallest, and the smallest is the innermost.** Of any list of
candidates the search finds the first one of the smallest among those that contain the position,
and it comes back empty exactly if none does.

In a tree with nested spans, which every tree that belongs to its source is, let the weight be a
signed word above every column, and let the ranks of the nodes of some kinds around the position
be signed words. Then the smallest of those nodes covers the span of the innermost one, and there
is the one exactly if there is the other. The innermost one is where a climb from the node at the
position stops. -/
theorem smallestAround_is_innermost (t : Tree) (q : Position) (weight : Nat) :
    (∀ candidates : List t.Id,
      (t.smallestAround candidates q weight = none ↔ ∀ i ∈ candidates, t.covers i q = false)
        ∧ ∀ i, t.smallestAround candidates q weight = some i ↔
            t.FirstSmallest candidates q weight i)
      ∧ (t.SpansNested → weight < signedBound → t.ColumnsBelow weight → ∀ kinds : List String,
          (∀ i, t.OfKindAround kinds q i → (t.span i).exactExtent weight < signedBound) →
          (t.smallestAround (t.allOfKind kinds) q weight).map t.span
              = ((t.innermostAt q).bind fun d => t.nearestOfKind d kinds).map t.span
            ∧ (t.smallestAround (t.allOfKind kinds) q weight = none ↔
                ((t.innermostAt q).bind fun d => t.nearestOfKind d kinds) = none)
            ∧ ∀ i, ((t.innermostAt q).bind fun d => t.nearestOfKind d kinds) = some i ↔
                t.Innermost (t.OfKindAround kinds q) i) := by
  refine ⟨fun candidates => ⟨smallestAround_eq_none_iff, fun i => smallestAround_eq_some_iff⟩, ?_⟩
  intro hn hweight hcolumns kinds hfits
  have hexact : ∀ i, t.OfKindAround kinds q i →
      (t.span i).extent weight = (t.span i).exactExtent weight := by
    intro i hi
    have hnonneg := hcolumns.exactExtent_nonneg hi.covers
    exact Span.extent_eq_exactExtent hweight (by omega) (hfits i hi)
  have hspan := hn.span_smallestAround_of_exact hcolumns hexact
  refine ⟨hspan, ?_, fun i => hn.bind_nearestOfKind_eq_some_iff⟩
  rw [← Option.map_eq_none_iff (f := t.span), hspan, Option.map_eq_none_iff]

/-- Two nodes of `sampleCall` cover all of it: the search by size finds the outer one and the climb
the inner one, on the same span. -/
theorem smallestAround_is_innermost_sampleCall :
    sampleCall.SpansNested ∧ sampleCall.ColumnsBelow 1000
      ∧ (∀ i, sampleCall.OfKindAround ["expression_statement", "call_expression"] ⟨0, 1⟩ i →
          (sampleCall.span i).exactExtent 1000 < signedBound)
      ∧ sampleCall.FirstSmallest
          (sampleCall.allOfKind ["expression_statement", "call_expression"]) ⟨0, 1⟩ 1000
          ⟨1, by decide⟩
      ∧ sampleCall.Innermost
          (sampleCall.OfKindAround ["expression_statement", "call_expression"] ⟨0, 1⟩)
          ⟨2, by decide⟩
      ∧ sampleCall.span ⟨1, by decide⟩ = sampleCall.span ⟨2, by decide⟩ := by
  have hn : sampleCall.SpansNested := sampleCall_wellFormed.spansNested
  have hcolumns : sampleCall.ColumnsBelow 1000 := by
    unfold ColumnsBelow
    decide
  have hfits : ∀ i, sampleCall.OfKindAround ["expression_statement", "call_expression"] ⟨0, 1⟩ i →
      (sampleCall.span i).exactExtent 1000 < signedBound := by
    have hall : ∀ i, (sampleCall.span i).exactExtent 1000 < signedBound := by decide
    exact fun i _ => hall i
  obtain ⟨hsmallest, hinnermost⟩ := smallestAround_is_innermost sampleCall ⟨0, 1⟩ 1000
  obtain ⟨hspan, -, hnearest⟩ := hinnermost hn (by decide) hcolumns _ hfits
  have houter : sampleCall.smallestAround
      (sampleCall.allOfKind ["expression_statement", "call_expression"]) ⟨0, 1⟩ 1000
        = some ⟨1, by decide⟩ := by
    decide +kernel
  have hinner : ((sampleCall.innermostAt ⟨0, 1⟩).bind fun d =>
      sampleCall.nearestOfKind d ["expression_statement", "call_expression"])
        = some ⟨2, by decide⟩ := by
    decide +kernel
  rw [houter, hinner] at hspan
  exact ⟨hn, hcolumns, hfits, ((hsmallest _).2 _).mp houter, (hnearest _).mp hinner,
    Option.some.inj hspan⟩

end Tree

end AnchoredEdit
