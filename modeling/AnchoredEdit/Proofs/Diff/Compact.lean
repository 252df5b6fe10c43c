/-
`Proofs/Diff/Compact.lean` -- tidying a script does not change where it leads.

Tidying moves one operation at a time, and each move concerns the two or three operations next to
each other. So it is enough to look at these: if the new ones lead wherever the old ones led, the
whole script does. There are four such moves. Two changes of one kind become one, two of different
kinds step over each other, two stretches of equal lines are joined, and an insertion slides over
lines that come both before and at the end of it, or both at the start of it and after it.

How often anything is moved is bounded by a number that only has to be large enough for the script
to be tidy. Whatever it is, the script leads to the same place.
-/
import Mathlib.Data.List.Chain
import AnchoredEdit.Proofs.Diff.Search

set_option autoImplicit false

namespace AnchoredEdit

namespace Diff

variable {old new : List Text}

/-! ## 1. Moves -/

/-- Wherever `ops` leads, `ops'` leads too. -/
def Follows (old new : List Text) (ops ops' : List Op) : Prop :=
  ∀ p q, Walks (Op.Leads old new) p ops q → Walks (Op.Leads old new) p ops' q

namespace Follows

variable {a b m m' m'' : List Op}

theorem refl (m : List Op) : Follows old new m m :=
  fun _ _ h => h

theorem trans (h : Follows old new m m') (h' : Follows old new m' m'') : Follows old new m m'' :=
  fun p q hm => h' p q (h p q hm)

theorem append_left (a : List Op) (h : Follows old new m m') :
    Follows old new (a ++ m) (a ++ m') := by
  intro p q hm
  obtain ⟨r, ha, hm⟩ := walks_append.mp hm
  exact walks_append.mpr ⟨r, ha, h r q hm⟩

theorem append_right (b : List Op) (h : Follows old new m m') :
    Follows old new (m ++ b) (m' ++ b) := by
  intro p q hm
  obtain ⟨r, hm, hb⟩ := walks_append.mp hm
  exact walks_append.mpr ⟨r, h p r hm, hb⟩

/-- **A move inside of a script.** -/
theorem within (a b : List Op) (h : Follows old new m m') :
    Follows old new (a ++ (m ++ b)) (a ++ (m' ++ b)) :=
  (h.append_right b).append_left a

end Follows

/-- Where a stretch of equal lines leads, said with the lines. -/
theorem leads_equal_iff {i j n : Nat} {p q : Nat × Nat} :
    (Op.equal i j n).Leads old new p q ↔
      p = (i, j) ∧ q = (i + n, j + n)
        ∧ ∃ part, part.length = n ∧ Lies old i part ∧ Lies new j part := by
  constructor
  · rintro ⟨⟨hp, hq, hi, hj, hsame⟩, -⟩
    have hold := length_stretch hi
    have hnew := length_stretch hj
    refine ⟨hp, hq, stretch old i n, hold, ⟨by omega, by rw [hold]⟩, ?_⟩
    rw [hsame]
    exact ⟨by omega, by rw [hnew]⟩
  · rintro ⟨hp, hq, part, rfl, hold, hnew⟩
    exact ⟨⟨hp, hq, hold.within, hnew.within, hold.reads.trans hnew.reads.symm⟩, trivial⟩

section

variable {a b c d e f i j n o p q s : Nat}

theorem follows_deletes : Follows old new [.delete a b c, .delete d e f] [.delete a (b + e) c] := by
  intro x y h
  simp only [walks_cons, walks_nil] at h ⊢
  obtain ⟨_, ⟨⟨rfl, rfl, -⟩, hb⟩, _, ⟨⟨rfl, rfl, he⟩, -⟩, rfl⟩ := h
  refine ⟨_, ⟨⟨rfl, rfl, by omega⟩, Nat.add_pos_left hb e⟩, ?_⟩
  rw [Nat.add_assoc]

theorem follows_inserts : Follows old new [.insert a b c, .insert d e f] [.insert a b (c + f)] := by
  intro x y h
  simp only [walks_cons, walks_nil] at h ⊢
  obtain ⟨_, ⟨⟨rfl, rfl, -⟩, hc⟩, _, ⟨⟨rfl, rfl, hf⟩, -⟩, rfl⟩ := h
  refine ⟨_, ⟨⟨rfl, rfl, by omega⟩, Nat.add_pos_left hc f⟩, ?_⟩
  rw [Nat.add_assoc]

theorem follows_insert_delete :
    Follows old new [.delete a b c, .insert d e f] [.insert d e f, .delete a b c] := by
  intro x y h
  simp only [walks_cons, walks_nil] at h ⊢
  obtain ⟨_, ⟨⟨rfl, rfl, hb⟩, hb'⟩, _, ⟨⟨rfl, rfl, hf⟩, hf'⟩, rfl⟩ := h
  exact ⟨_, ⟨⟨rfl, rfl, hf⟩, hf'⟩, _, ⟨⟨rfl, rfl, hb⟩, hb'⟩, rfl⟩

theorem follows_delete_insert :
    Follows old new [.insert d e f, .delete a b c] [.delete a b c, .insert d e f] := by
  intro x y h
  simp only [walks_cons, walks_nil] at h ⊢
  obtain ⟨_, ⟨⟨rfl, rfl, hf⟩, hf'⟩, _, ⟨⟨rfl, rfl, hb⟩, hb'⟩, rfl⟩ := h
  exact ⟨_, ⟨⟨rfl, rfl, hb⟩, hb'⟩, _, ⟨⟨rfl, rfl, hf⟩, hf'⟩, rfl⟩

/-- Two stretches of equal lines are one. -/
theorem leads_equals {x y z : Nat × Nat} (h : (Op.equal a b c).Leads old new x y)
    (h' : (Op.equal d e f).Leads old new y z) :
    d = a + c ∧ e = b + c ∧ (Op.equal a b (c + f)).Leads old new x z := by
  rw [leads_equal_iff] at h h'
  obtain ⟨rfl, rfl, front, rfl, holdFront, hnewFront⟩ := h
  obtain ⟨heq, rfl, back, rfl, holdBack, hnewBack⟩ := h'
  obtain ⟨rfl, rfl⟩ := Prod.mk.inj heq
  refine ⟨rfl, rfl, leads_equal_iff.mpr ⟨rfl, ?_, front ++ back, List.length_append, ?_, ?_⟩⟩
  · rw [Nat.add_assoc, Nat.add_assoc]
  · exact lies_append.mpr ⟨holdFront, holdBack⟩
  · exact lies_append.mpr ⟨hnewFront, hnewBack⟩

/-- Where an insertion leads, said with the lines. -/
theorem leads_insert_iff {x y : Nat × Nat} :
    (Op.insert o p q).Leads old new x y ↔
      x.2 = p ∧ y = (x.1, p + q) ∧ 0 < q ∧ ∃ part, part.length = q ∧ Lies new p part := by
  constructor
  · rintro ⟨⟨hx, hy, hp⟩, hq⟩
    have hnew := length_stretch hp
    exact ⟨hx, hy, hq, stretch new p q, hnew, by omega, by rw [hnew]⟩
  · rintro ⟨hx, hy, hq, part, rfl, hnew⟩
    exact ⟨⟨hx, hy, hnew.within⟩, hq⟩

theorem follows_equals : Follows old new [.equal a b c, .equal d e f] [.equal a b (c + f)] := by
  intro x z h
  simp only [walks_cons, walks_nil] at h
  obtain ⟨_, h, _, h', rfl⟩ := h
  exact walks_singleton.mpr (leads_equals h h').2.2

/-- Two stretches joined as if the second one had grown. -/
theorem follows_equals_back :
    Follows old new [.equal a b c, .equal d e f] [.equal (d - c) (e - c) (f + c)] := by
  intro x z h
  simp only [walks_cons, walks_nil] at h
  obtain ⟨_, h, _, h', rfl⟩ := h
  obtain ⟨rfl, rfl, hjoined⟩ := leads_equals h h'
  rw [Nat.add_sub_cancel, Nat.add_sub_cancel, Nat.add_comm f]
  exact walks_singleton.mpr hjoined

/-- **An insertion slides up** over the lines at its end. -/
theorem follows_insert_up (hs : commonBack (stretch old i n) (stretch new p q) = s) :
    Follows old new [.equal i j n, .insert o p q]
      (equalOp i j (n - s) ++ [.insert o (p - s) q, .equal (i + n - s) (p + q - s) s]) := by
  intro x y h
  simp only [walks_cons, walks_nil, leads_equal_iff, leads_insert_iff] at h
  obtain ⟨_, ⟨rfl, rfl, part, rfl, hold, hnew⟩, _, ⟨hp, rfl, hpos, ins, rfl, hins⟩, rfl⟩ := h
  obtain ⟨back, a, b, ha, hb, hback⟩ := exists_commonBack part ins
  rw [hold.reads, hins.reads, hback] at hs
  subst ha hb hs hp
  obtain ⟨holdFront, holdBack⟩ := lies_append.mp hold
  obtain ⟨hnewFront, -⟩ := lies_append.mp hnew
  obtain ⟨-, hinsBack⟩ := lies_append.mp hins
  have hwithin := hins.within
  simp only [List.length_append] at hpos hwithin hinsBack ⊢
  have hi : i + (a.length + back.length) - back.length = i + a.length := by omega
  have hj : j + (a.length + back.length) - back.length = j + a.length := by omega
  have hend : j + (a.length + back.length) + (b.length + back.length) - back.length
      = j + (a.length + back.length) + b.length := by omega
  rw [hi, hj, hend, Nat.add_sub_cancel]
  refine walks_append.mpr ⟨_, walks_equalOp holdFront hnewFront, ?_⟩
  simp only [walks_cons, walks_nil, leads_equal_iff]
  refine ⟨_, ⟨⟨rfl, rfl, by omega⟩, hpos⟩, _, ⟨?_, rfl, back, rfl, holdBack, hinsBack⟩, ?_⟩
  · rw [Prod.mk.injEq]
    omega
  · rw [Prod.mk.injEq]
    omega

/-- **An insertion slides down** over the lines at its start. -/
theorem follows_insert_down (hs : commonFront (stretch old i n) (stretch new p q) = s) :
    Follows old new [.insert o p q, .equal i j n]
      ([.equal i p s, .insert o (p + s) q] ++ equalOp (i + s) (j + s) (n - s)) := by
  intro x y h
  simp only [walks_cons, walks_nil, leads_equal_iff, leads_insert_iff] at h
  obtain ⟨_, ⟨hp, rfl, hpos, ins, rfl, hins⟩, _, ⟨heq, rfl, part, rfl, hold, hnew⟩, rfl⟩ := h
  obtain ⟨hi, rfl⟩ := Prod.mk.inj heq
  obtain ⟨front, a, b, ha, hb, hfront⟩ := exists_commonFront part ins
  rw [hold.reads, hins.reads, hfront] at hs
  subst ha hb hs
  obtain ⟨holdFront, holdBack⟩ := lies_append.mp hold
  obtain ⟨-, hnewBack⟩ := lies_append.mp hnew
  obtain ⟨hinsFront, -⟩ := lies_append.mp hins
  have hwithin := hnew.within
  simp only [List.length_append] at hpos hwithin hnewBack ⊢
  rw [Nat.add_sub_cancel_left, ← Nat.add_assoc i, ← Nat.add_assoc (p + _) front.length,
    walks_append]
  refine ⟨_, ?_, walks_equalOp holdBack hnewBack⟩
  simp only [walks_cons, walks_nil, leads_equal_iff]
  refine ⟨_, ⟨Prod.ext hi hp, rfl, front, rfl, holdFront, hinsFront⟩, _,
    ⟨⟨rfl, rfl, by omega⟩, hpos⟩, ?_⟩
  rw [Nat.add_right_comm]

end

/-! ## 2. Slides -/

/-- The script with the focus put back. -/
def Focus.ops (f : Focus) : List Op :=
  f.before.reverse ++ f.this :: f.after

section

variable {before after : List Op} {i j n o p q s : Nat}

/-- A stretch that is cut off at one end is dropped if nothing is left of it. -/
theorem equalOp_sub (h : s ≤ n) (i j : Nat) :
    equalOp i j (n - s) = if n = s then [] else [.equal i j (n - s)] := by
  unfold equalOp
  by_cases hns : n = s
  · rw [if_pos hns, if_pos (by omega)]
  · rw [if_neg hns, if_neg (by omega)]

theorem follows_slideUp (hs : commonBack (stretch old i n) (stretch new p q) = s) :
    Follows old new (Focus.ops ⟨.equal i j n :: before, .insert o p q, after⟩)
      (slideUp before i j n (o, p, q) s after).ops := by
  have hle : s ≤ n :=
    hs ▸ Nat.le_trans (commonBack_le_length _ _) (List.length_take_le _ _)
  have hup := (follows_insert_up (j := j) (o := o) hs).within before.reverse after
  rw [equalOp_sub hle] at hup
  have hstart : Focus.ops ⟨.equal i j n :: before, .insert o p q, after⟩
      = before.reverse ++ ([.equal i j n, .insert o p q] ++ after) := by
    simp [Focus.ops]
  rw [hstart]
  refine hup.trans ?_
  have hbefore : (if n = s then before else .equal i j (n - s) :: before).reverse
      = before.reverse ++ if n = s then [] else [.equal i j (n - s)] := by
    by_cases hns : n = s
    · rw [if_pos hns, if_pos hns, List.append_nil]
    · rw [if_neg hns, if_neg hns, List.reverse_cons]
  unfold slideUp Focus.ops
  rw [hbefore]
  generalize (if n = s then [] else [Op.equal i j (n - s)]) = kept
  dsimp only
  split
  · next i' j' n' rest =>
    have hjoin : Follows old new [.equal (i + n - s) (p + q - s) s, .equal i' j' n']
        [.equal (i' - s) (j' - s) (n' + s)] := follows_equals_back
    have hwhole := hjoin.within (before.reverse ++ (kept ++ [.insert o (p - s) q])) rest
    simp only [List.append_assoc, List.cons_append, List.nil_append] at hwhole ⊢
    exact hwhole
  · simpa using Follows.refl _

theorem follows_slideDown (hs : commonFront (stretch old i n) (stretch new p q) = s) :
    Follows old new (Focus.ops ⟨before, .insert o p q, .equal i j n :: after⟩)
      (slideDown before (o, p, q) i j n s after).ops := by
  have hle : s ≤ n :=
    hs ▸ Nat.le_trans (commonFront_le_length _ _) (List.length_take_le _ _)
  have hdown := (follows_insert_down (j := j) (o := o) hs).within before.reverse after
  rw [equalOp_sub hle] at hdown
  have hstart : Focus.ops ⟨before, .insert o p q, .equal i j n :: after⟩
      = before.reverse ++ ([.insert o p q, .equal i j n] ++ after) := by
    simp [Focus.ops]
  rw [hstart]
  refine hdown.trans ?_
  have hafter : (if n = s then after else .equal (i + s) (j + s) (n - s) :: after)
      = (if n = s then [] else [.equal (i + s) (j + s) (n - s)]) ++ after := by
    by_cases hns : n = s
    · rw [if_pos hns, if_pos hns, List.nil_append]
    · rw [if_neg hns, if_neg hns, List.singleton_append]
  unfold slideDown Focus.ops
  rw [hafter]
  generalize (if n = s then [] else [Op.equal (i + s) (j + s) (n - s)]) = kept
  dsimp only
  split
  · next i' j' n' rest =>
    have hjoin : Follows old new [.equal i' j' n', .equal i p s] [.equal i' j' (n' + s)] :=
      follows_equals
    simpa using hjoin.within rest.reverse (.insert o (p + s) q :: (kept ++ after))
  · simpa using Follows.refl _

end

/-! ## 3. Moves through the script -/

/-- A move of the operation in focus and the one before it. -/
theorem Follows.focusBefore {op this op' : Op} {before after : List Op} {m : List Op}
    (h : Follows old new [op, this] (op' :: m)) :
    Follows old new (Focus.ops ⟨op :: before, this, after⟩)
      (Focus.ops ⟨before, op', m ++ after⟩) := by
  have hwhole := h.within before.reverse after
  simp only [List.cons_append, List.nil_append] at hwhole
  simp only [Focus.ops, List.reverse_cons, List.append_assoc, List.cons_append, List.nil_append]
  exact hwhole

/-- **Moving up keeps where the script leads.** The induction is on how often something is moved,
and the cases are the pairs of neighbours. -/
theorem follows_moveUp (old new : List Text) (fuel : Nat) (f : Focus) :
    Follows old new f.ops (moveUp old new fuel f).ops := by
  induction fuel generalizing f with
  | zero => exact .refl _
  | succ fuel ih =>
    obtain ⟨before, this, after⟩ := f
    unfold moveUp
    dsimp only
    split
    · exact .refl _
    · next i j n before o p q =>
      by_cases hs : commonBack (stretch old i n) (stretch new p q) = 0
      · rw [if_pos hs]
        exact .refl _
      · rw [if_neg hs]
        exact (follows_slideUp rfl).trans (ih _)
    · exact follows_deletes.focusBefore.trans (ih _)
    · exact follows_inserts.focusBefore.trans (ih _)
    · exact follows_insert_delete.focusBefore.trans (ih _)
    · exact follows_delete_insert.focusBefore.trans (ih _)
    · exact .refl _

/-- A move of the operation in focus and the one after it. -/
theorem Follows.focusAfter {op this op' : Op} {before after : List Op} {m : List Op}
    (h : Follows old new [this, op] (m.reverse ++ [op'])) :
    Follows old new (Focus.ops ⟨before, this, op :: after⟩)
      (Focus.ops ⟨m ++ before, op', after⟩) := by
  have hwhole := h.within before.reverse after
  simp only [List.append_assoc, List.cons_append, List.nil_append] at hwhole
  simp only [Focus.ops, List.reverse_append, List.append_assoc]
  exact hwhole

/-- **Moving down keeps where the script leads.** -/
theorem follows_moveDown (old new : List Text) (fuel : Nat) (f : Focus) :
    Follows old new f.ops (moveDown old new fuel f).ops := by
  induction fuel generalizing f with
  | zero => exact .refl _
  | succ fuel ih =>
    obtain ⟨before, this, after⟩ := f
    unfold moveDown
    dsimp only
    split
    · exact .refl _
    · next o p q i j n after =>
      by_cases hs : commonFront (stretch old i n) (stretch new p q) = 0
      · rw [if_pos hs]
        exact .refl _
      · rw [if_neg hs]
        exact (follows_slideDown rfl).trans (ih _)
    · exact (Follows.focusAfter (m := []) follows_deletes).trans (ih _)
    · exact (Follows.focusAfter (m := []) follows_inserts).trans (ih _)
    · next a b c o p q after =>
      exact (Follows.focusAfter (m := [.delete o p q]) follows_delete_insert).trans (ih _)
    · next a b c o p q after =>
      exact (Follows.focusAfter (m := [.insert o p q]) follows_insert_delete).trans (ih _)
    · exact .refl _

theorem follows_moveAll (kind : Op → Bool) (fuel : Nat) (before after : List Op) :
    Follows old new (before.reverse ++ after) (moveAll old new kind fuel before after) := by
  induction fuel generalizing before after with
  | zero => exact .refl _
  | succ fuel ih =>
    cases after with
    | nil =>
      rw [moveAll, List.append_nil]
      exact .refl _
    | cons op after =>
      rw [moveAll]
      by_cases hop : kind op = true
      · rw [if_pos hop]
        dsimp only
        have hup := follows_moveUp old new (weight before + 1) ⟨before, op, after⟩
        generalize moveUp old new (weight before + 1) ⟨before, op, after⟩ = f at hup ⊢
        have hdown := follows_moveDown old new (weight f.after + 1) f
        generalize moveDown old new (weight f.after + 1) f = g at hdown ⊢
        have hrest := ih (g.this :: g.before) g.after
        rw [List.reverse_cons, List.append_assoc, List.singleton_append] at hrest
        exact hup.trans (hdown.trans hrest)
      · rw [if_neg hop]
        have hrest := ih (op :: before) after
        rw [List.reverse_cons, List.append_assoc, List.singleton_append] at hrest
        exact hrest

/-! ## 4. Joining -/

/-- The stretch of equal lines that is held back. -/
def held (equal : Option (Nat × Nat × Nat)) : List Op :=
  (equal.map fun (i, j, n) => Op.equal i j n).toList

/-- One more deletion among the collected changes. -/
theorem follows_collect_delete (old new : List Text) (e : Edits) (i m j : Nat) :
    Follows old new (e.ops ++ [.delete i m j])
      { e with deleted := some (match e.deleted with
        | some (a, b, c) => (a, b + m, c)
        | none => (i, m, j)) }.ops := by
  obtain ⟨deleted, inserted⟩ := e
  cases deleted with
  | none =>
    cases inserted with
    | none => exact .refl _
    | some ins =>
      intro x y h
      simp only [Edits.ops, List.cons_append, List.nil_append, walks_cons, walks_nil] at h ⊢
      obtain ⟨_, ⟨⟨hx, rfl, hn⟩, hn'⟩, _, ⟨⟨rfl, rfl, hm⟩, hm'⟩, rfl⟩ := h
      exact ⟨_, ⟨⟨Prod.ext rfl hx, rfl, hm, hn⟩, hm', hn'⟩, rfl⟩
  | some del =>
    cases inserted with
    | none => exact follows_deletes
    | some ins =>
      intro x y h
      simp only [Edits.ops, List.cons_append, List.nil_append, walks_cons, walks_nil] at h ⊢
      obtain ⟨_, ⟨⟨hx, rfl, _, hn⟩, hm, hn'⟩, _, ⟨⟨rfl, rfl, hm'⟩, _⟩, rfl⟩ := h
      refine ⟨_, ⟨⟨hx, rfl, by omega, hn⟩, Nat.add_pos_left hm _, hn'⟩, ?_⟩
      rw [Nat.add_assoc]

/-- One more insertion among the collected changes. -/
theorem follows_collect_insert (old new : List Text) (e : Edits) (i j n : Nat) :
    Follows old new (e.ops ++ [.insert i j n])
      { e with inserted := some (match e.inserted with
        | some (a, b, c) => (a, b, c + n)
        | none => (i, j, n)) }.ops := by
  obtain ⟨deleted, inserted⟩ := e
  cases deleted with
  | none =>
    cases inserted with
    | none => exact .refl _
    | some ins => exact follows_inserts
  | some del =>
    cases inserted with
    | none =>
      intro x y h
      simp only [Edits.ops, List.cons_append, List.nil_append, walks_cons, walks_nil] at h ⊢
      obtain ⟨_, ⟨⟨hx, rfl, hm⟩, hm'⟩, _, ⟨⟨rfl, rfl, hn⟩, hn'⟩, rfl⟩ := h
      exact ⟨_, ⟨⟨Prod.ext hx rfl, rfl, hm, hn⟩, hm', hn'⟩, rfl⟩
    | some ins =>
      intro x y h
      simp only [Edits.ops, List.cons_append, List.nil_append, walks_cons, walks_nil] at h ⊢
      obtain ⟨_, ⟨⟨hx, rfl, hm, _⟩, hm', hn'⟩, _, ⟨⟨rfl, rfl, hn⟩, _⟩, rfl⟩ := h
      refine ⟨_, ⟨⟨hx, rfl, hm, by omega⟩, hm', Nat.add_pos_left hn' _⟩, ?_⟩
      rw [Nat.add_assoc]

/-- **Joining keeps where the script leads.** What is held back comes first. Stretches of equal
lines and changes are never held back together. -/
theorem follows_join (ops : List Op) (equal : Option (Nat × Nat × Nat)) (e : Edits)
    (h : equal = none ∨ e = {}) :
    Follows old new (held equal ++ (e.ops ++ ops)) (join ops equal e) := by
  induction ops generalizing equal e with
  | nil =>
    rw [join, List.append_nil]
    exact .refl _
  | cons op ops ih =>
    cases op with
    | equal i j n =>
      cases equal with
      | none =>
        rw [join]
        exact (ih (some (i, j, n)) {} (.inr rfl)).append_left e.ops
      | some kept =>
        obtain rfl : e = {} := h.resolve_left (Option.some_ne_none _)
        rw [join]
        exact (follows_equals.append_right ops).trans
          (ih (some (kept.1, kept.2.1, kept.2.2 + n)) {} (.inr rfl))
    | delete i m j =>
      have hcollect := (follows_collect_delete old new e i m j).within (held equal) ops
      rw [List.append_assoc, List.singleton_append] at hcollect
      exact hcollect.trans ((ih none _ (.inl rfl)).append_left (held equal))
    | insert i j n =>
      have hcollect := (follows_collect_insert old new e i j n).within (held equal) ops
      rw [List.append_assoc, List.singleton_append] at hcollect
      exact hcollect.trans ((ih none _ (.inl rfl)).append_left (held equal))
    | replace i m j n =>
      rw [join, ← List.append_assoc]
      exact ((ih none {} (.inl rfl)).append_left [.replace i m j n]).append_left _

theorem follows_compact (ops : List Op) : Follows old new ops (compact old new ops) := by
  unfold compact
  dsimp only
  have hdeletes : Follows old new ops _ := follows_moveAll Op.isDelete (4 * (weight ops + 1)) [] ops
  generalize moveAll old new Op.isDelete (4 * (weight ops + 1)) [] ops = ops' at hdeletes ⊢
  have hinserts : Follows old new ops' _ :=
    follows_moveAll Op.isInsert (4 * (weight ops' + 1)) [] ops'
  exact hdeletes.trans (hinserts.trans (follows_join _ none {} (.inl rfl)))

theorem walks_script (old new : List Text) :
    Walks (Op.Leads old new) (0, 0) (script old new) (old.length, new.length) := by
  have hsearch := walks_search (Lies.self old) (Lies.self new)
  rw [Nat.zero_add, Nat.zero_add] at hsearch
  exact follows_compact _ _ _ hsearch

/-- **The script between two lists covers both.** -/
theorem covers_script (old new : List Text) : Covers old new (script old new) :=
  (walks_script old new).mono fun _ _ _ => Op.Leads.passes

/-! ## 5. No stretch follows another -/

/-- Of two neighbours one changes lines. -/
def Alternates (ops : List Op) : Prop :=
  ops.IsChain fun a b => a.keeps = false ∨ b.keeps = false

/-- The script starts with a change, if with anything. -/
def StartsWithEdit (ops : List Op) : Prop :=
  ∀ op ∈ ops.head?, op.keeps = false

theorem Alternates.cons {op : Op} {ops : List Op} (h : Alternates ops)
    (hop : op.keeps = false ∨ StartsWithEdit ops) : Alternates (op :: ops) := by
  refine List.isChain_cons.mpr ⟨?_, h⟩
  intro next hnext
  exact hop.imp_right fun hstarts => hstarts next hnext

theorem Edits.ops_cases (e : Edits) :
    (e = {} ∧ e.ops = []) ∨ ∃ op, op.keeps = false ∧ e.ops = [op] := by
  obtain ⟨deleted, inserted⟩ := e
  cases deleted with
  | none =>
    cases inserted with
    | none => exact .inl ⟨rfl, rfl⟩
    | some ins => exact .inr ⟨_, rfl, rfl⟩
  | some del =>
    cases inserted with
    | none => exact .inr ⟨_, rfl, rfl⟩
    | some ins => exact .inr ⟨_, rfl, rfl⟩

theorem Alternates.edits_append {ops : List Op} (h : Alternates ops) (e : Edits) :
    Alternates (e.ops ++ ops) := by
  rcases e.ops_cases with ⟨-, hnil⟩ | ⟨op, hop, hops⟩
  · rw [hnil]
    exact h
  · rw [hops]
    exact h.cons (.inl hop)

theorem startsWithEdit_append {e : Edits} (he : e ≠ {}) (ops : List Op) :
    StartsWithEdit (e.ops ++ ops) := by
  rcases e.ops_cases with ⟨hempty, -⟩ | ⟨op, hop, hops⟩
  · exact absurd hempty he
  · rw [hops]
    rintro next ⟨rfl⟩
    exact hop

theorem Alternates.held_append {ops : List Op} (h : Alternates ops) (hstarts : StartsWithEdit ops)
    (equal : Option (Nat × Nat × Nat)) :
    Alternates (held equal ++ ops) ∧ (equal = none → StartsWithEdit (held equal ++ ops)) := by
  cases equal with
  | none => exact ⟨h, fun _ => hstarts⟩
  | some kept => exact ⟨h.cons (.inr hstarts), fun hnone => absurd hnone (Option.some_ne_none _)⟩

/-- What is held back and then a script: stretches of equal lines and changes are never held back
together. -/
theorem Alternates.pending_append {ops : List Op} (h : Alternates ops)
    (hstarts : StartsWithEdit ops) {equal : Option (Nat × Nat × Nat)} {e : Edits}
    (hheld : equal = none ∨ e = {}) :
    Alternates (held equal ++ (e.ops ++ ops))
      ∧ (equal = none → StartsWithEdit (held equal ++ (e.ops ++ ops))) := by
  rcases hheld with rfl | rfl
  · refine ⟨h.edits_append e, ?_⟩
    rcases e.ops_cases with ⟨-, hnil⟩ | ⟨op, hop, hops⟩
    · rw [hnil]
      exact fun _ => hstarts
    · rw [hops]
      rintro - next ⟨rfl⟩
      exact hop
  · exact h.held_append hstarts equal

/-- **Joining leaves no two stretches of equal lines next to each other.** Changes that are held
back come first in what follows. -/
theorem alternates_join (ops : List Op) (equal : Option (Nat × Nat × Nat)) (e : Edits)
    (h : equal = none ∨ e = {}) :
    Alternates (join ops equal e)
      ∧ (equal = none → e ≠ {} → StartsWithEdit (join ops equal e)) := by
  induction ops generalizing equal e with
  | nil =>
    have hnil : StartsWithEdit [] := fun _ hop => absurd hop (Option.not_mem_none _)
    have hpending := Alternates.pending_append .nil hnil h
    rw [List.append_nil] at hpending
    exact ⟨hpending.1, fun hnone _ => hpending.2 hnone⟩
  | cons op ops ih =>
    have hcollect (e' : Edits) (he' : e' ≠ {}) : Alternates (held equal ++ join ops none e')
        ∧ (equal = none → e ≠ {} → StartsWithEdit (held equal ++ join ops none e')) := by
      obtain ⟨halternates, hstarts⟩ := ih none e' (.inl rfl)
      have hheld := halternates.held_append (hstarts rfl he') equal
      exact ⟨hheld.1, fun hnone _ => hheld.2 hnone⟩
    cases op with
    | equal i j n =>
      cases equal with
      | none =>
        rw [join]
        refine ⟨(ih (some (i, j, n)) {} (.inr rfl)).1.edits_append e, ?_⟩
        intro _ he
        exact startsWithEdit_append he _
      | some kept =>
        rw [join]
        exact ⟨(ih _ {} (.inr rfl)).1, fun hnone => absurd hnone (Option.some_ne_none _)⟩
    | delete i m j =>
      rw [join]
      exact hcollect _ (by simp)
    | insert i j n =>
      rw [join]
      exact hcollect _ (by simp)
    | replace i m j n =>
      have hrest : Alternates (.replace i m j n :: join ops none {}) :=
        (ih none {} (.inl rfl)).1.cons (.inl rfl)
      have hstarts : StartsWithEdit (.replace i m j n :: join ops none {}) := by
        rintro next ⟨rfl⟩
        rfl
      have hpending := hrest.pending_append hstarts h
      rw [join, List.append_assoc]
      exact ⟨hpending.1, fun hnone _ => hpending.2 hnone⟩

theorem alternates_script (old new : List Text) : Alternates (script old new) :=
  (alternates_join _ none {} (.inl rfl)).1

end Diff

end AnchoredEdit
