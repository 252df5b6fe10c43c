/-
`Proofs/Diff/Walk.lean` -- scripts as walks through two lists of lines.

A point says how many lines of either list have been passed. An operation passes from one point to
another: it names the lines it starts with, it ends where its stretches end, and the lines that it
keeps are the same on both sides. A script is a walk if each operation starts where the one before
it ends. So a walk from the beginning of both lists to their end accounts for every line once and in
order, and that is all that is used of a script. An operation that leads from one point to another
passes the lines between them, and it changes some unless it keeps them.

Of a deletion only the old place counts and of an insertion only the new one. The other place that
such an operation carries may be out of date.
-/
import AnchoredEdit.Diff.Unified

set_option autoImplicit false

namespace AnchoredEdit

namespace Diff

variable {old new ls : List Text} {i j m n : Nat} {p q r : Nat × Nat}

/-! ## 1. Stretches -/

theorem length_stretch (h : i + n ≤ ls.length) : (stretch ls i n).length = n := by
  unfold stretch
  rw [List.length_take, List.length_drop]
  omega

theorem stretch_add (ls : List Text) (i m n : Nat) :
    stretch ls i (m + n) = stretch ls i m ++ stretch ls (i + m) n := by
  unfold stretch
  rw [List.take_add, List.drop_drop]

theorem take_append_stretch (ls : List Text) (i n : Nat) :
    ls.take i ++ stretch ls i n = ls.take (i + n) := by
  unfold stretch
  rw [List.take_add]

/-! ## 2. Walks -/

/-- The operation passes the lines between the points `p` and `q`. -/
def Op.Passes (old new : List Text) : Op → (p q : Nat × Nat) → Prop
  | .equal i j n, p, q =>
    p = (i, j) ∧ q = (i + n, j + n) ∧ i + n ≤ old.length ∧ j + n ≤ new.length
      ∧ stretch old i n = stretch new j n
  | .delete i n _, p, q => p.1 = i ∧ q = (i + n, p.2) ∧ i + n ≤ old.length
  | .insert _ j n, p, q => p.2 = j ∧ q = (p.1, j + n) ∧ j + n ≤ new.length
  | .replace i m j n, p, q =>
    p = (i, j) ∧ q = (i + m, j + n) ∧ i + m ≤ old.length ∧ j + n ≤ new.length

/-- No stretch that the operation changes is without lines. -/
def Op.Filled : Op → Prop
  | .equal .. => True
  | .delete _ n _ => 0 < n
  | .insert _ _ n => 0 < n
  | .replace _ m _ n => 0 < m ∧ 0 < n

/-- The operation passes the lines between two points, and it changes some unless it keeps them. -/
structure Op.Leads (old new : List Text) (op : Op) (p q : Nat × Nat) : Prop where
  passes : op.Passes old new p q
  filled : op.Filled

/-- The script goes from point `p` to point `q` by steps of the given kind. -/
inductive Walks (Steps : Op → (p q : Nat × Nat) → Prop) :
    (p : Nat × Nat) → List Op → (q : Nat × Nat) → Prop
  | nil {p : Nat × Nat} : Walks Steps p [] p
  | cons {p r q : Nat × Nat} {op : Op} {ops : List Op} (hop : Steps op p r)
      (hops : Walks Steps r ops q) : Walks Steps p (op :: ops) q

section

variable {Steps Steps' : Op → (p q : Nat × Nat) → Prop}

theorem walks_nil : Walks Steps p [] q ↔ p = q := by
  constructor
  · intro h
    cases h
    rfl
  · intro h
    rw [h]
    exact .nil

theorem walks_cons {op : Op} {ops : List Op} :
    Walks Steps p (op :: ops) q ↔ ∃ r, Steps op p r ∧ Walks Steps r ops q := by
  constructor
  · intro h
    cases h with
    | cons hop hops => exact ⟨_, hop, hops⟩
  · rintro ⟨r, hop, hops⟩
    exact .cons hop hops

theorem walks_singleton {op : Op} : Walks Steps p [op] q ↔ Steps op p q := by
  simp only [walks_cons, walks_nil, exists_eq_right]

theorem walks_append {ops ops' : List Op} :
    Walks Steps p (ops ++ ops') q ↔ ∃ r, Walks Steps p ops r ∧ Walks Steps r ops' q := by
  induction ops generalizing p with
  | nil => simp only [List.nil_append, walks_nil, exists_eq_left']
  | cons op ops ih =>
    simp only [List.cons_append, walks_cons, ih]
    constructor
    · rintro ⟨s, hop, r, hops, hops'⟩
      exact ⟨r, ⟨s, hop, hops⟩, hops'⟩
    · rintro ⟨r, ⟨s, hop, hops⟩, hops'⟩
      exact ⟨s, hop, r, hops, hops'⟩

theorem Walks.mono {ops : List Op} (hsteps : ∀ op p q, Steps op p q → Steps' op p q)
    (h : Walks Steps p ops q) : Walks Steps' p ops q := by
  induction h with
  | nil => exact .nil
  | cons hop _ ih => exact .cons (hsteps _ _ _ hop) ih

end

/-! ## 3. What a walk passes -/

/-- What a script does, line by line. -/
def changes (old new : List Text) (ops : List Op) : List (Change × Text) :=
  ops.flatMap (Op.changes old new)

theorem changes_cons (op : Op) (ops : List Op) :
    changes old new (op :: ops) = op.changes old new ++ changes old new ops :=
  List.flatMap_cons

theorem changes_append (ops ops' : List Op) :
    changes old new (ops ++ ops') = changes old new ops ++ changes old new ops' :=
  List.flatMap_append

/-- The old lines among the pieces: all but the inserted ones. -/
def oldLines (pieces : List (Change × Text)) : List Text :=
  (pieces.filter fun c => c.1 ≠ .insert).map (·.2)

/-- The new lines among the pieces: all but the deleted ones. -/
def newLines (pieces : List (Change × Text)) : List Text :=
  (pieces.filter fun c => c.1 ≠ .delete).map (·.2)

theorem oldLines_append (a b : List (Change × Text)) :
    oldLines (a ++ b) = oldLines a ++ oldLines b := by
  unfold oldLines
  rw [List.filter_append, List.map_append]

theorem newLines_append (a b : List (Change × Text)) :
    newLines (a ++ b) = newLines a ++ newLines b := by
  unfold newLines
  rw [List.filter_append, List.map_append]

theorem oldLines_map (c : Change) (ls : List Text) :
    oldLines (ls.map (c, ·)) = if c = .insert then [] else ls := by
  unfold oldLines
  cases c <;> simp [List.filter_map, Function.comp_def]

theorem newLines_map (c : Change) (ls : List Text) :
    newLines (ls.map (c, ·)) = if c = .delete then [] else ls := by
  unfold newLines
  cases c <;> simp [List.filter_map, Function.comp_def]

/-- **An operation passes the lines between its two points.** -/
theorem Op.Passes.take_append {op : Op} (h : op.Passes old new p q) :
    old.take p.1 ++ oldLines (op.changes old new) = old.take q.1
      ∧ new.take p.2 ++ newLines (op.changes old new) = new.take q.2 := by
  cases op with
  | equal i j n =>
    obtain ⟨rfl, rfl, -, -, hsame⟩ := h
    rw [changes, oldLines_map, if_neg (by decide), newLines_map, if_neg (by decide)]
    refine ⟨take_append_stretch old i n, ?_⟩
    rw [hsame]
    exact take_append_stretch new j n
  | delete i n c =>
    obtain ⟨rfl, rfl, -⟩ := h
    rw [changes, oldLines_map, if_neg (by decide), newLines_map, if_pos rfl]
    exact ⟨take_append_stretch old p.1 n, List.append_nil _⟩
  | insert c j n =>
    obtain ⟨rfl, rfl, -⟩ := h
    rw [changes, oldLines_map, if_pos rfl, newLines_map, if_neg (by decide)]
    exact ⟨List.append_nil _, take_append_stretch new p.2 n⟩
  | replace i m j n =>
    obtain ⟨rfl, rfl, -, -⟩ := h
    rw [changes, oldLines_append, newLines_append, oldLines_map, oldLines_map, newLines_map,
      newLines_map, if_neg (by decide), if_pos rfl, if_pos rfl, if_neg (by decide),
      List.append_nil, List.nil_append]
    exact ⟨take_append_stretch old i m, take_append_stretch new j n⟩

theorem Walks.take_append {ops : List Op} (h : Walks (Op.Passes old new) p ops q) :
    old.take p.1 ++ oldLines (changes old new ops) = old.take q.1
      ∧ new.take p.2 ++ newLines (changes old new ops) = new.take q.2 := by
  induction h with
  | nil => exact ⟨List.append_nil _, List.append_nil _⟩
  | cons hop hops ih =>
    rw [changes_cons, oldLines_append, newLines_append, ← List.append_assoc,
      ← List.append_assoc, hop.take_append.1, hop.take_append.2]
    exact ih

/-- A script that goes through both lists from end to end. -/
def Covers (old new : List Text) (ops : List Op) : Prop :=
  Walks (Op.Passes old new) (0, 0) ops (old.length, new.length)

/-- **A script that covers both lists has each line once and in order.** -/
theorem Covers.lines {ops : List Op} (h : Covers old new ops) :
    oldLines (changes old new ops) = old ∧ newLines (changes old new ops) = new := by
  have hall := h.take_append
  simpa only [List.take_zero, List.nil_append, List.take_length] using hall

/-! ## 4. Changes -/

/-- The operation keeps lines and changes none. -/
def Op.keeps : Op → Bool
  | .equal .. => true
  | _ => false

/-- The changes that are not equal lines. -/
def edits (pieces : List (Change × Text)) : List (Change × Text) :=
  pieces.filter fun c => c.1 ≠ .equal

theorem edits_append (a b : List (Change × Text)) : edits (a ++ b) = edits a ++ edits b :=
  List.filter_append a b

theorem edits_map_equal (ls : List Text) : edits (ls.map (Change.equal, ·)) = [] := by
  unfold edits
  rw [List.filter_map]
  simp

theorem edits_map_of_ne {c : Change} (hc : c ≠ .equal) (ls : List Text) :
    edits (ls.map (c, ·)) = ls.map (c, ·) := by
  unfold edits
  rw [List.filter_eq_self, List.forall_mem_map]
  intro _ _
  exact decide_eq_true hc

theorem edits_map_ne_nil {c : Change} (hc : c ≠ .equal) (hn : 0 < n) (h : i + n ≤ ls.length) :
    edits ((stretch ls i n).map (c, ·)) ≠ [] := by
  rw [edits_map_of_ne hc, ← List.length_pos_iff, List.length_map, length_stretch h]
  exact hn

/-- An operation that does not keep lines changes some. -/
theorem Op.Leads.edits_ne_nil {op : Op} (h : op.Leads old new p q) (hop : op.keeps = false) :
    edits (op.changes old new) ≠ [] := by
  cases op with
  | equal i j n => exact absurd hop Bool.noConfusion
  | delete i n c =>
    obtain ⟨⟨-, -, hle⟩, hn⟩ := h
    exact edits_map_ne_nil (by decide) hn hle
  | insert c j n =>
    obtain ⟨⟨-, -, hle⟩, hn⟩ := h
    exact edits_map_ne_nil (by decide) hn hle
  | replace i m j n =>
    obtain ⟨⟨-, -, hle, -⟩, hm, -⟩ := h
    rw [changes, edits_append]
    exact List.append_ne_nil_of_left_ne_nil (edits_map_ne_nil (by decide) hm hle) _

theorem Walks.edits_ne_nil {ops : List Op} (h : Walks (Op.Leads old new) p ops q) :
    ∀ op ∈ ops, op.keeps = false → edits (op.changes old new) ≠ [] := by
  induction h with
  | nil => exact List.forall_mem_nil _
  | cons hop _ ih => exact List.forall_mem_cons.mpr ⟨hop.edits_ne_nil, ih⟩

end Diff

end AnchoredEdit
