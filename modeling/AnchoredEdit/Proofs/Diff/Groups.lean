/-
`Proofs/Diff/Groups.lean` -- what is left out between the groups of a preview.

Equal lines can be left out of a script one by one. Grouping first trims the script at its two ends
and then divides it at its long stretches of equal lines. Either way only equal lines are left out:
what remains is in the same order, and all operations that change lines remain. So the lines that
are shown are some of those that the script passes, and all that it changes are among them.

No group is without a change. A group can come to an end only at a long stretch, and before
that stretch there was a change, because the first stretch has been trimmed and no stretch follows
another.
-/
import Mathlib.Data.List.Flatten
import Mathlib.Data.List.Forall2
import AnchoredEdit.Proofs.Diff.Compact

set_option autoImplicit false

namespace AnchoredEdit

namespace Diff

variable {old new : List Text}

/-! ## 1. Leaving out equal lines -/

/-- The operation in units: equal lines one at a time, anything else as a whole. -/
def Op.units : Op → List Op
  | .equal i j n => (List.range n).map fun k => .equal (i + k) (j + k) 1
  | op => [op]

/-- Nothing but equal lines is left out of the script `full`. -/
structure Shortens (short full : List Op) : Prop where
  units : (short.flatMap Op.units).Sublist (full.flatMap Op.units)
  changing : (short.filter fun op => !op.keeps) = full.filter fun op => !op.keeps

/-- A stretch of equal lines is its first `m` lines and the ones after them. -/
theorem units_equal_add (i j m n : Nat) : (Op.equal i j (m + n)).units
    = (Op.equal i j m).units ++ (Op.equal (i + m) (j + m) n).units := by
  simp only [Op.units, List.range_add, List.map_append, List.map_map, Function.comp_def,
    Nat.add_assoc]

namespace Shortens

variable {a b c d : List Op}

theorem refl (a : List Op) : Shortens a a :=
  ⟨.refl _, rfl⟩

theorem trans (h : Shortens a b) (h' : Shortens b c) : Shortens a c :=
  ⟨h.units.trans h'.units, h.changing.trans h'.changing⟩

theorem append (h : Shortens a b) (h' : Shortens c d) : Shortens (a ++ c) (b ++ d) where
  units := by
    rw [List.flatMap_append, List.flatMap_append]
    exact h.units.append h'.units
  changing := by rw [List.filter_append, List.filter_append, h.changing, h'.changing]

/-- A stretch of equal lines may be dropped. -/
theorem drop (i j n : Nat) : Shortens [] [.equal i j n] :=
  ⟨List.nil_sublist _, rfl⟩

/-- A stretch of equal lines may be cut in two. -/
theorem cut (i j m n : Nat) :
    Shortens [.equal i j m, .equal (i + m) (j + m) n] [.equal i j (m + n)] where
  units := by
    rw [List.flatMap_singleton, units_equal_add]
    simp
  changing := rfl

/-- A part of a stretch of equal lines may be left. -/
theorem part {i j n o m : Nat} (h : o + m ≤ n) :
    Shortens [.equal (i + o) (j + o) m] [.equal i j n] := by
  obtain ⟨k, rfl⟩ := Nat.exists_eq_add_of_le h
  have hfront := (drop i j o).append (refl [.equal (i + o) (j + o) m])
  have hback := (cut i j o m).append (drop (i + (o + m)) (j + (o + m)) k)
  exact hfront.trans (hback.trans (cut i j (o + m) k))

end Shortens

/-- Nothing but equal lines is left out of the pieces `full`. -/
structure Abridges (short full : List (Change × Text)) : Prop where
  sublist : short.Sublist full
  edits_eq : edits short = edits full

/-- Unit by unit an operation does what it does as a whole. -/
theorem changes_units (op : Op) : changes old new op.units = op.changes old new := by
  cases op with
  | equal i j n =>
    induction n with
    | zero => rfl
    | succ n ih =>
      rw [units_equal_add, changes_append, ih]
      simp only [Op.units, List.range_one, List.map_singleton, changes, List.flatMap_singleton,
        Op.changes, Nat.add_zero]
      rw [← List.map_append, stretch_add]
  | delete | insert | replace => exact List.flatMap_singleton ..

theorem changes_flatMap_units (ops : List Op) :
    changes old new (ops.flatMap Op.units) = changes old new ops := by
  unfold changes
  rw [List.flatMap_assoc]
  exact List.flatMap_congr fun op _ => changes_units op

/-- The lines that a script changes are those that its changing operations change. -/
theorem edits_changes (ops : List Op) :
    edits (changes old new ops) = changes old new (ops.filter fun op => !op.keeps) := by
  induction ops with
  | nil => rfl
  | cons op ops ih =>
    rw [changes_cons, edits_append, ih]
    cases op with
    | equal i j n =>
      rw [Op.changes, edits_map_equal]
      rfl
    | delete i n c =>
      rw [Op.changes, edits_map_of_ne (by decide)]
      rfl
    | insert c j n =>
      rw [Op.changes, edits_map_of_ne (by decide)]
      rfl
    | replace i m j n =>
      rw [Op.changes, edits_append, edits_map_of_ne (by decide), edits_map_of_ne (by decide)]
      rfl

/-- **Where only equal lines are left out of a script, only equal lines are left out of what it
does.** -/
theorem Shortens.abridges {short full : List Op} (h : Shortens short full) :
    Abridges (changes old new short) (changes old new full) where
  sublist := by
    rw [← changes_flatMap_units short, ← changes_flatMap_units full]
    exact h.units.flatMap _
  edits_eq := by rw [edits_changes, edits_changes, h.changing]

/-! ## 2. Trimming -/

/-- The operation `op'` is `op` itself, or a part of the stretch of equal lines that `op` is. -/
inductive Trims : (op op' : Op) → Prop
  | same (op : Op) : Trims op op
  | part {i j n o m : Nat} (h : o + m ≤ n) : Trims (.equal i j n) (.equal (i + o) (j + o) m)

theorem Trims.keeps_eq {op op' : Op} (h : Trims op op') : op'.keeps = op.keeps := by
  cases h with
  | same => rfl
  | part => rfl

theorem Trims.shortens {op op' : Op} (h : Trims op op') : Shortens [op'] [op] := by
  cases h with
  | same => exact .refl _
  | part h => exact .part h

theorem shortens_of_trims {ops ops' : List Op} (h : List.Forall₂ Trims ops ops') :
    Shortens ops' ops := by
  induction h with
  | nil => exact .refl _
  | cons hop _ ih => exact hop.shortens.append ih

theorem trims_trimFirst (ops : List Op) : List.Forall₂ Trims ops (trimFirst ops) := by
  have hsame (ops : List Op) : List.Forall₂ Trims ops ops :=
    List.forall₂_same.mpr fun op _ => .same op
  unfold trimFirst
  split
  · exact .cons (.part (by omega)) (hsame _)
  · exact hsame _

theorem trims_trimLast (ops : List Op) : List.Forall₂ Trims ops (trimLast ops) := by
  fun_induction trimLast ops with
  | case1 => exact .nil
  | case2 i j n =>
    have hpart : Trims (.equal i j n) (.equal (i + 0) (j + 0) (min n context)) := .part (by omega)
    exact .cons hpart .nil
  | case3 op _ => exact .cons (.same op) .nil
  | case4 op ops _ _ ih => exact .cons (.same op) ih

theorem map_keeps_of_trims {ops ops' : List Op} (h : List.Forall₂ Trims ops ops') :
    ops'.map Op.keeps = ops.map Op.keeps := by
  induction h with
  | nil => rfl
  | cons hop _ ih => rw [List.map_cons, List.map_cons, hop.keeps_eq, ih]

theorem Alternates.of_trims {ops ops' : List Op} (halternates : Alternates ops)
    (h : List.Forall₂ Trims ops ops') : Alternates ops' := by
  have hkeeps (ops : List Op) : Alternates ops
      ↔ (ops.map Op.keeps).IsChain fun a b => a = false ∨ b = false := by
    rw [List.isChain_map]
    rfl
  rw [hkeeps, map_keeps_of_trims h, ← hkeeps]
  exact halternates

/-- Trimming touches stretches of equal lines only. -/
theorem mem_of_trims {ops ops' : List Op} (h : List.Forall₂ Trims ops ops') {op : Op}
    (hop : op ∈ ops') (hkeeps : op.keeps = false) : op ∈ ops := by
  induction h with
  | nil => exact hop
  | @cons a b as bs hab _ ih =>
    rcases List.mem_cons.mp hop with rfl | hop
    · cases hab with
      | same => exact List.mem_cons_self
      | part => exact absurd hkeeps Bool.noConfusion
    · exact List.mem_cons_of_mem _ (ih hop)

/-- The script does not start with a long stretch. -/
def StartsShort (ops : List Op) : Prop :=
  ∀ i j n, Op.equal i j n ∈ ops.head? → n ≤ 2 * context

theorem startsShort_trimFirst (ops : List Op) : StartsShort (trimFirst ops) := by
  intro i j n h
  unfold trimFirst at h
  split at h
  · cases h
    omega
  · next hne =>
    cases ops with
    | nil => cases h
    | cons op ops =>
      cases h
      exact absurd rfl (hne i j n ops)

theorem StartsShort.of_trims {ops ops' : List Op} (hshort : StartsShort ops)
    (h : List.Forall₂ Trims ops ops') : StartsShort ops' := by
  intro i j n hhead
  cases h with
  | nil => cases hhead
  | cons hop _ =>
    cases hhead
    cases hop with
    | same => exact hshort _ _ _ rfl
    | part hle =>
      have hn := hshort _ _ _ rfl
      omega

/-! ## 3. Dividing -/

/-- The two ends of a long stretch. -/
theorem shortens_ends (i j : Nat) {n : Nat} (h : 2 * context < n) :
    Shortens [.equal i j context, .equal (i + (n - context)) (j + (n - context)) context]
      [.equal i j n] := by
  have hstart : Shortens [.equal i j context] [.equal i j (n - context)] :=
    .part (o := 0) (by omega)
  have hends := hstart.append (.refl [.equal (i + (n - context)) (j + (n - context)) context])
  have hcut := Shortens.cut i j (n - context) context
  rw [Nat.sub_add_cancel (by omega)] at hcut
  exact hends.trans hcut

/-- **Dividing leaves out equal lines only.** What is in the current group comes first. -/
theorem shortens_divide (group ops : List Op) :
    Shortens (divide group ops).flatten (group.reverse ++ ops) := by
  fun_induction divide group ops with
  | case1 => exact .refl _
  | case2 i j n => exact .drop i j n
  | case3 group _ _ =>
    rw [List.flatten_singleton, List.append_nil]
    exact .refl _
  | case4 group i j n rest hlong ih =>
    rw [List.flatten_cons, List.reverse_cons, List.append_assoc]
    apply (Shortens.refl _).append
    have hends := (shortens_ends i j hlong).append (.refl rest)
    exact ((Shortens.refl [.equal i j context]).append ih).trans hends
  | case5 group i j n rest _ ih =>
    rw [List.reverse_cons, List.append_assoc] at ih
    exact ih
  | case6 group op rest _ ih =>
    rw [List.reverse_cons, List.append_assoc] at ih
    exact ih

/-- **Grouping leaves out equal lines only.** -/
theorem shortens_groups (ops : List Op) : Shortens (groups ops).flatten ops := by
  have hdivide := shortens_divide [] (trimLast (trimFirst ops))
  exact hdivide.trans ((shortens_of_trims (trims_trimLast _)).trans
    (shortens_of_trims (trims_trimFirst ops)))

/-! ## 4. No group without a change -/

/-- The group has a change, or it will have one before the next long stretch. -/
def Ready (old new : List Text) (group rest : List Op) : Prop :=
  edits (changes old new group.reverse) ≠ []
    ∨ (group = [] ∧ StartsShort rest)
    ∨ ∃ i j n, group = [.equal i j n] ∧ StartsWithEdit rest

theorem StartsWithEdit.ne_equal {i j n : Nat} {rest : List Op} :
    ¬ StartsWithEdit (.equal i j n :: rest) := by
  intro h
  exact absurd (h _ rfl) Bool.noConfusion

theorem Alternates.startsWithEdit {i j n : Nat} {rest : List Op}
    (h : Alternates (.equal i j n :: rest)) : StartsWithEdit rest := by
  intro op hop
  exact ((List.isChain_cons.mp h).1 op hop).resolve_left Bool.noConfusion

/-- A group that has a change keeps it. -/
theorem edits_reverse_cons {group : List Op} (op : Op)
    (h : edits (changes old new group.reverse) ≠ [] ∨ edits (op.changes old new) ≠ []) :
    edits (changes old new (op :: group).reverse) ≠ [] := by
  rw [List.reverse_cons, changes_append, edits_append]
  rcases h with h | h
  · exact List.append_ne_nil_of_left_ne_nil h _
  · rw [changes_cons, edits_append]
    exact List.append_ne_nil_of_right_ne_nil _ (List.append_ne_nil_of_left_ne_nil h _)

/-- **No group is without a change.** -/
theorem edits_ne_nil_of_mem_divide {group ops : List Op} (halternates : Alternates ops)
    (hedits : ∀ op ∈ ops, op.keeps = false → edits (op.changes old new) ≠ [])
    (hready : Ready old new group ops) :
    ∀ g ∈ divide group ops, edits (changes old new g) ≠ [] := by
  fun_induction divide group ops with
  | case1 => exact List.forall_mem_nil _
  | case2 i j n => exact List.forall_mem_nil _
  | case3 group hnil hequal =>
    rcases hready with hgroup | ⟨rfl, -⟩ | ⟨i, j, n, rfl, -⟩
    · exact List.forall_mem_singleton.mpr hgroup
    · exact absurd rfl hnil
    · exact absurd rfl (hequal i j n)
  | case4 group i j n rest hlong ih =>
    have hrest : Alternates rest := (List.isChain_cons.mp halternates).2
    refine List.forall_mem_cons.mpr ⟨?_, ih hrest (List.forall_mem_cons.mp hedits).2 ?_⟩
    · rcases hready with hgroup | ⟨-, hshort⟩ | ⟨_, _, _, -, hstarts⟩
      · exact edits_reverse_cons _ (.inl hgroup)
      · exact absurd (hshort i j n rfl) (by omega)
      · exact absurd hstarts StartsWithEdit.ne_equal
    · exact .inr (.inr ⟨_, _, _, rfl, halternates.startsWithEdit⟩)
  | case5 group i j n rest _ ih =>
    have hrest : Alternates rest := (List.isChain_cons.mp halternates).2
    apply ih hrest (List.forall_mem_cons.mp hedits).2
    rcases hready with hgroup | ⟨rfl, -⟩ | ⟨_, _, _, -, hstarts⟩
    · exact .inl (edits_reverse_cons _ (.inl hgroup))
    · exact .inr (.inr ⟨i, j, n, rfl, halternates.startsWithEdit⟩)
    · exact absurd hstarts StartsWithEdit.ne_equal
  | case6 group op rest hne ih =>
    have hrest : Alternates rest := (List.isChain_cons.mp halternates).2
    have hop : op.keeps = false := by
      cases op with
      | equal i j n => exact absurd rfl (hne i j n)
      | delete | insert | replace => rfl
    obtain ⟨hchanges, hedits⟩ := List.forall_mem_cons.mp hedits
    exact ih hrest hedits (.inl (edits_reverse_cons op (.inr (hchanges hop))))

theorem edits_ne_nil_of_mem_groups {ops : List Op} (halternates : Alternates ops)
    (hedits : ∀ op ∈ ops, op.keeps = false → edits (op.changes old new) ≠ []) :
    ∀ g ∈ groups ops, edits (changes old new g) ≠ [] := by
  have hfirst := trims_trimFirst ops
  have hlast := trims_trimLast (trimFirst ops)
  refine edits_ne_nil_of_mem_divide ((halternates.of_trims hfirst).of_trims hlast) ?_
    (.inr (.inl ⟨rfl, (startsShort_trimFirst ops).of_trims hlast⟩))
  intro op hop hkeeps
  exact hedits op (mem_of_trims hfirst (mem_of_trims hlast hop hkeeps) hkeeps) hkeeps

end Diff

end AnchoredEdit
