/-
`Proofs/Syntax/Ranking.lean` -- ranking candidates in checked arithmetic.

The closest candidate is found by one pass that keeps the best candidate so far and its rank. A
rank is worked out in machine words: the lines of a span are a difference of unsigned words, and
the rest is a product, a difference and a sum of signed ones. `extent?` is that computation with
every operation checked, and `scan?` is the pass that uses it.

The pass only ranks candidates that contain the position, and a span that contains a position does
not stop on a line above its start. So the unsigned difference is never negative; as long as the
weight of a line keeps the signed operations in range, the pass goes through, and what it finds is
the smallest candidate.
-/
import AnchoredEdit.Proofs.Syntax.Closest

set_option autoImplicit false

namespace AnchoredEdit

/-! ## 1. Ranks in words -/

/-- The number is a signed word. -/
def IsWord (n : Int) : Prop :=
  -(signedBound : Int) ≤ n ∧ n < signedBound

instance (n : Int) : Decidable (IsWord n) :=
  inferInstanceAs (Decidable (_ ∧ _))

theorem signed64_of_isWord {n : Int} (h : IsWord n) : signed64 n = n :=
  signed64_eq_self h.1 h.2

/-- The number, if it is a signed word. -/
def word? (n : Int) : Option Int :=
  if IsWord n then some n else none

theorem word?_of_isWord {n : Int} (h : IsWord n) : word? n = some n :=
  if_pos h

/-- Reading parts of a sum as signed words first does not change the sum as a signed word. -/
theorem signed64_mul_add_sub (a b c d : Int) :
    signed64 (signed64 a * b + (signed64 c - signed64 d)) = signed64 (a * b + (c - d)) := by
  unfold signed64
  calc ((a.bmod wordCount * b) + (c.bmod wordCount - d.bmod wordCount)).bmod wordCount
      = ((a.bmod wordCount * b).bmod wordCount
          + (c.bmod wordCount - d.bmod wordCount).bmod wordCount).bmod wordCount := by
        rw [Int.bmod_add_bmod, Int.add_bmod_bmod]
    _ = ((a * b).bmod wordCount + (c - d).bmod wordCount).bmod wordCount := by
        rw [Int.bmod_mul_bmod, Int.bmod_sub_bmod, Int.sub_bmod_bmod]
    _ = (a * b + (c - d)).bmod wordCount := by
        rw [Int.bmod_add_bmod, Int.add_bmod_bmod]

namespace Span

/-- The difference of the columns, each read as a signed word. -/
def columns (s : Span) : Int :=
  signed64 s.stop.column - signed64 s.start.column

/-- The weight of the lines, as a product of signed words. -/
def lineExtent (s : Span) (weight : Nat) : Int :=
  signed64 ((s.stop.line - s.start.line : Nat) : Int) * signed64 weight

/-- The rank of a span with every operation checked: the lines must not be negative, and what is
worked out with signed words must be one. -/
def extent? (s : Span) (weight : Nat) : Option Int :=
  if s.start.line ≤ s.stop.line then do
    let columns ← word? s.columns
    let lines ← word? (s.lineExtent weight)
    word? (lines + columns)
  else none

/-- No operation on signed words leaves their range when the span is ranked. -/
structure RankFits (s : Span) (weight : Nat) : Prop where
  columns : IsWord s.columns
  lines : IsWord (s.lineExtent weight)
  sum : IsWord (s.lineExtent weight + s.columns)

/-- **In range, checked and wrapping arithmetic come to the same.** -/
theorem RankFits.extent?_eq {s : Span} {weight : Nat} (h : s.RankFits weight)
    (hline : s.start.line ≤ s.stop.line) : s.extent? weight = some (s.extent weight) := by
  have hsum : s.lineExtent weight + s.columns = s.extent weight := by
    rw [← signed64_of_isWord h.sum, lineExtent, Span.columns, Int.ofNat_sub hline,
      signed64_mul_add_sub]
    rfl
  rw [extent?, if_pos hline, ← hsum]
  refine Option.bind_eq_some_iff.mpr ⟨_, word?_of_isWord h.columns, ?_⟩
  exact Option.bind_eq_some_iff.mpr ⟨_, word?_of_isWord h.lines, word?_of_isWord h.sum⟩

end Span

/-! ## 2. The pass -/

theorem smallestBy_cons_cons {α : Type} (size : α → Int) (a b : α) (l : List α) :
    smallestBy size (a :: b :: l)
      = if size b < size a then smallestBy size (b :: l) else smallestBy size (a :: l) := by
  rw [smallestBy, smallestBy, smallestBy]
  cases smallestBy size l with
  | none => rfl
  | some c =>
    dsimp only
    by_cases hcb : size c < size b
    · by_cases hba : size b < size a
      · have hca : size c < size a := by omega
        simp only [if_pos hcb, if_pos hba, if_pos hca]
      · simp only [if_pos hcb, if_neg hba]
    · by_cases hba : size b < size a
      · simp only [if_neg hcb, if_pos hba]
      · have hca : ¬ size c < size a := by omega
        simp only [if_neg hcb, if_neg hba, if_neg hca]

namespace Tree

variable {t : Tree} {q : Position} {weight : Nat}

/-- Goes through the candidates with the best one so far and its rank. A candidate that does not
contain the position is not ranked; one that ranks no lower does not replace the best. -/
def scan? (t : Tree) (q : Position) (weight : Nat) :
    Option (t.Id × Int) → List t.Id → Option (Option t.Id)
  | best, [] => some (best.map (·.1))
  | best, i :: rest =>
    if t.covers i q then do
      let size ← (t.span i).extent? weight
      match best with
      | none => scan? t q weight (some (i, size)) rest
      | some (j, smallest) =>
        if size < smallest then scan? t q weight (some (i, size)) rest
        else scan? t q weight (some (j, smallest)) rest
    else scan? t q weight best rest

/-- The weight keeps the ranks of all nodes around `q` in range. -/
def WeightFits (t : Tree) (q : Position) (weight : Nat) : Prop :=
  ∀ i, t.covers i q = true → (t.span i).RankFits weight

theorem WeightFits.extent?_eq (hw : t.WeightFits q weight) {i : t.Id} (hi : t.covers i q = true) :
    (t.span i).extent? weight = some ((t.span i).extent weight) :=
  (hw i hi).extent?_eq (Span.line_le_of_contains hi)

/-- With a best candidate at hand, the pass finds the smallest of it and those to come. -/
theorem WeightFits.scan?_some (hw : t.WeightFits q weight) (j : t.Id) (candidates : List t.Id) :
    t.scan? q weight (some (j, (t.span j).extent weight)) candidates
      = some (smallestBy (fun i => (t.span i).extent weight)
          (j :: candidates.filter fun i => t.covers i q)) := by
  induction candidates generalizing j with
  | nil => rfl
  | cons i rest ih =>
    rw [scan?]
    by_cases hi : t.covers i q = true
    · rw [if_pos hi, hw.extent?_eq hi, List.filter_cons, if_pos hi, smallestBy_cons_cons]
      -- The pass and `smallestBy` compare the same two ranks, and both keep the first of equals.
      show (if (t.span i).extent weight < (t.span j).extent weight then _ else _) = _
      split
      · exact ih i
      · exact ih j
    · rw [if_neg hi, List.filter_cons, if_neg hi]
      exact ih j

/-- **The pass goes through and finds the smallest candidate.** -/
theorem WeightFits.scan?_none (hw : t.WeightFits q weight) (candidates : List t.Id) :
    t.scan? q weight none candidates = some (t.smallestAround candidates q weight) := by
  induction candidates with
  | nil => rfl
  | cons i rest ih =>
    rw [scan?, smallestAround]
    by_cases hi : t.covers i q = true
    · rw [if_pos hi, hw.extent?_eq hi, List.filter_cons, if_pos hi]
      exact hw.scan?_some i rest
    · rw [if_neg hi, List.filter_cons, if_neg hi]
      exact ih

end Tree

end AnchoredEdit
