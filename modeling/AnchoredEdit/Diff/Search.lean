/-
`Diff/Search.lean` -- finding a short script.

The search divides and conquers. What the two lists have in common at the front and at the back
is set aside; if one of them is then used up, the other is deleted or inserted whole. Otherwise a
point is found through which some shortest script goes, by reaching out from both ends at once,
and the two halves are searched on their own.

Reaching out goes along diagonals: `x` old lines and `y` new lines lie on diagonal `x - y`. For
each number of changes the furthest `x` on each diagonal is kept. The two searches meet where
their reaches overlap.
-/
import AnchoredEdit.Diff.Script

set_option autoImplicit false

namespace AnchoredEdit

namespace Diff

/-! ## 1. Common ends -/

/-- How many elements two lists have in common at the front. -/
def commonFront (old new : List Text) : Nat :=
  match old, new with
  | a :: old, b :: new => if a = b then commonFront old new + 1 else 0
  | _, _ => 0

/-- How many elements two lists have in common at the back. -/
def commonBack (old new : List Text) : Nat :=
  commonFront old.reverse new.reverse

/-- How many lines two arrays have in common from `x` and `y` on. -/
def runFrom (old new : Array Text) (x y : Nat) : Nat :=
  if _hx : x < old.size then
    if _hy : y < new.size then
      if old[x] = new[y] then runFrom old new (x + 1) (y + 1) + 1 else 0
    else 0
  else 0
termination_by old.size - x

/-! ## 2. Reaches -/

/-- The furthest `x` on each diagonal. -/
structure Reach where
  cells : Array Nat
  /-- The cell of diagonal zero. -/
  zero : Nat

namespace Reach

/-- A reach with room for the diagonals up to `limit` on either side. -/
def start (limit : Nat) : Reach :=
  ⟨Array.replicate (2 * limit + 3) 0, limit + 1⟩

/-- The furthest `x` on diagonal `k`. -/
def get (r : Reach) (k : Int) : Nat :=
  r.cells.getD ((r.zero : Int) + k).toNat 0

/-- Notes the furthest `x` on diagonal `k`. -/
def set (r : Reach) (k : Int) (x : Nat) : Reach :=
  { r with cells := r.cells.setIfInBounds ((r.zero : Int) + k).toNat x }

/-- Where diagonal `k` is entered with `d` changes: from the diagonal next to it that reaches
further. -/
def entry (r : Reach) (d : Nat) (k : Int) : Nat :=
  if k = -(d : Int) ∨ (k ≠ d ∧ r.get (k - 1) < r.get (k + 1)) then r.get (k + 1)
  else r.get (k - 1) + 1

end Reach

/-- The two lists in the forward and in the backward reading, with their lengths. -/
structure Sides where
  old : Array Text
  new : Array Text
  oldBack : Array Text
  newBack : Array Text

/-- The difference of the lengths: the diagonal of the far corner. -/
def Sides.delta (s : Sides) : Int :=
  s.old.size - s.new.size

/-- The diagonals that `d` changes can reach, from the highest to the lowest. -/
def diagonals (d : Nat) : List Int :=
  (List.range (d + 1)).map fun (i : Nat) => (d : Int) - 2 * i

/-- Either the point where the searches met, or the reaches so far. -/
abbrev Met := Except (Nat × Nat) (Reach × Reach)

/-- Reaches forward along diagonal `k` with `d` changes. -/
def stepForward (s : Sides) (d : Nat) (k : Int) (forward backward : Reach) : Met :=
  let x₀ := forward.entry d k
  let y₀ := ((x₀ : Int) - k).toNat
  let x := x₀ + runFrom s.old s.new x₀ y₀
  let forward := forward.set k x
  if s.delta % 2 ≠ 0 ∧ (k - s.delta).natAbs + 1 ≤ d
      ∧ s.old.size ≤ x + backward.get (-(k - s.delta)) then
    .error (x₀, y₀)
  else .ok (forward, backward)

/-- Reaches backward along diagonal `k` with `d` changes. -/
def stepBackward (s : Sides) (d : Nat) (k : Int) (forward backward : Reach) : Met :=
  let x₀ := backward.entry d k
  let y₀ := ((x₀ : Int) - k).toNat
  let run := runFrom s.oldBack s.newBack x₀ y₀
  let x := x₀ + run
  let backward := backward.set k x
  if s.delta % 2 = 0 ∧ (k - s.delta).natAbs ≤ d
      ∧ s.old.size ≤ x + forward.get (-(k - s.delta)) then
    .error (s.old.size - x, s.new.size - (y₀ + run))
  else .ok (forward, backward)

/-- Reaches out with `d`, `d + 1`, … changes until the searches meet. -/
def reachOut (s : Sides) : (rounds d : Nat) → Reach → Reach → Option (Nat × Nat)
  | 0, _, _, _ => none
  | rounds + 1, d, forward, backward =>
    let round : Met := do
      let (forward, backward) ← (diagonals d).foldlM
        (fun (f, b) k => stepForward s d k f b) (forward, backward)
      (diagonals d).foldlM (fun (f, b) k => stepBackward s d k f b) (forward, backward)
    match round with
    | .error point => some point
    | .ok (forward, backward) => reachOut s rounds (d + 1) forward backward

/-- A point in the middle of a shortest script. -/
def middle (old new : List Text) : Option (Nat × Nat) :=
  let limit := (old.length + new.length + 1) / 2 + 1
  let s : Sides :=
    ⟨old.toArray, new.toArray, old.reverse.toArray, new.reverse.toArray⟩
  reachOut s limit 0 (.start limit) (.start limit)

/-! ## 3. Divide and conquer -/

/-- The point lies between two lists and leaves less than both of them on either side. -/
def Divides (old new : List Text) (p : Nat × Nat) : Prop :=
  p.1 ≤ old.length ∧ p.2 ≤ new.length ∧ 0 < p.1 + p.2 ∧ p.1 + p.2 < old.length + new.length

instance (old new : List Text) (p : Nat × Nat) : Decidable (Divides old new p) :=
  inferInstanceAs (Decidable (_ ∧ _ ∧ _ ∧ _))

theorem Divides.length_take_lt {old new : List Text} {p : Nat × Nat} (h : Divides old new p) :
    (old.take p.1).length + (new.take p.2).length < old.length + new.length := by
  obtain ⟨hx, hy, -, hlt⟩ := h
  rw [List.length_take_of_le hx, List.length_take_of_le hy]
  exact hlt

theorem Divides.length_drop_lt {old new : List Text} {p : Nat × Nat} (h : Divides old new p) :
    (old.drop p.1).length + (new.drop p.2).length < old.length + new.length := by
  obtain ⟨hx, hy, hpos, -⟩ := h
  rw [List.length_drop, List.length_drop]
  omega

/-- A point at which two lists can be searched in halves. There is none if one of them is empty. -/
def halving? (old new : List Text) : Option { p : Nat × Nat // Divides old new p } :=
  if old = [] ∨ new = [] then none
  else
    match middle old new with
    | none => none
    | some p => if h : Divides old new p then some ⟨p, h⟩ else none

/-- A stretch of equal lines, if it is not empty. -/
def equalOp (i j n : Nat) : List Op :=
  if n = 0 then [] else [.equal i j n]

/-- All of `m` old lines go and `n` new lines come in. -/
def exchange (i j m n : Nat) : List Op :=
  (if m = 0 then [] else [.delete i m j]) ++ if n = 0 then [] else [.insert i j n]

/-- A list without its first `front` and its last `back` elements. -/
def trim (front back : Nat) (ls : List Text) : List Text :=
  (ls.drop front).take (ls.length - front - back)

theorem length_trim_le (front back : Nat) (ls : List Text) :
    (trim front back ls).length ≤ ls.length := by
  unfold trim
  rw [List.length_take, List.length_drop]
  omega

/-- The script between two lists that lie at `i` and `j`. -/
def search (i j : Nat) (old new : List Text) : List Op :=
  let front := commonFront old new
  let back := commonBack (old.drop front) (new.drop front)
  let oldInner := trim front back old
  let newInner := trim front back new
  let i' := i + front
  let j' := j + front
  let inner :=
    match halving? oldInner newInner with
    | none => exchange i' j' oldInner.length newInner.length
    | some ⟨(x, y), _hpoint⟩ =>
      search i' j' (oldInner.take x) (newInner.take y)
        ++ search (i' + x) (j' + y) (oldInner.drop x) (newInner.drop y)
  equalOp i j front ++ inner ++ equalOp (i' + oldInner.length) (j' + newInner.length) back
termination_by old.length + new.length
decreasing_by
  · exact Nat.lt_of_lt_of_le _hpoint.length_take_lt
      (Nat.add_le_add (length_trim_le _ _ _) (length_trim_le _ _ _))
  · exact Nat.lt_of_lt_of_le _hpoint.length_drop_lt
      (Nat.add_le_add (length_trim_le _ _ _) (length_trim_le _ _ _))

end Diff

end AnchoredEdit
