/-
`Diff/Compact.lean` -- tidying a script.

Each deletion, and after that each insertion, is moved up as far as it goes and then down as far
as it goes. On the way it merges with others of its kind and steps over those of the other kind.
An insertion also slides along a stretch of equal lines, as long as the lines at the end of the
stretch are those at the end of the insertion. In the end stretches of equal lines that have come
together are joined, and a deletion next to an insertion is a replacement.
-/
import AnchoredEdit.Diff.Search

set_option autoImplicit false

namespace AnchoredEdit

namespace Diff

/-- A script with one operation in focus; what comes before it is listed backwards. -/
structure Focus where
  before : List Op
  this : Op
  after : List Op
deriving DecidableEq, Inhabited, Repr

/-- A bound on how often an operation can move through a list of operations. -/
def weight (ops : List Op) : Nat :=
  ops.foldr (fun op n => op.oldLength + op.newLength + 1 + n) 0

/-! ## 1. Up -/

/-- Slides an insertion up by `s` lines over the stretch of equal lines before it. -/
def slideUp (before : List Op) (i j n : Nat) (this : Nat × Nat × Nat) (s : Nat)
    (after : List Op) : Focus :=
  let (old, new, length) := this
  let after := match after with
    | .equal i' j' n' :: rest => .equal (i' - s) (j' - s) (n' + s) :: rest
    | after => .equal (i + n - s) (new + length - s) s :: after
  let before := if n = s then before else .equal i j (n - s) :: before
  ⟨before, .insert old (new - s) length, after⟩

/-- Moves the operation in focus up as far as it goes. -/
def moveUp (old new : List Text) : (fuel : Nat) → Focus → Focus
  | 0, f => f
  | fuel + 1, f =>
    match f.before, f.this with
    | [], _ => f
    | .equal i j n :: before, .insert o p q =>
      let s := commonBack (stretch old i n) (stretch new p q)
      if s = 0 then f else moveUp old new fuel (slideUp before i j n (o, p, q) s f.after)
    | .delete a b c :: before, .delete _ m _ =>
      moveUp old new fuel ⟨before, .delete a (b + m) c, f.after⟩
    | .insert a b c :: before, .insert _ _ n =>
      moveUp old new fuel ⟨before, .insert a b (c + n), f.after⟩
    | .delete a b c :: before, .insert o p q =>
      moveUp old new fuel ⟨before, .insert o p q, .delete a b c :: f.after⟩
    | .insert a b c :: before, .delete o p q =>
      moveUp old new fuel ⟨before, .delete o p q, .insert a b c :: f.after⟩
    -- A deletion does not slide along equal lines.
    | _, _ => f

/-! ## 2. Down -/

/-- Slides an insertion down by `s` lines over the stretch of equal lines after it. -/
def slideDown (before : List Op) (this : Nat × Nat × Nat) (i j n : Nat) (s : Nat)
    (after : List Op) : Focus :=
  let (old, new, length) := this
  let before := match before with
    | .equal i' j' n' :: rest => .equal i' j' (n' + s) :: rest
    | before => .equal i new s :: before
  let after := if n = s then after else .equal (i + s) (j + s) (n - s) :: after
  ⟨before, .insert old (new + s) length, after⟩

/-- Moves the operation in focus down as far as it goes. -/
def moveDown (old new : List Text) : (fuel : Nat) → Focus → Focus
  | 0, f => f
  | fuel + 1, f =>
    match f.this, f.after with
    | _, [] => f
    | .insert o p q, .equal i j n :: after =>
      let s := commonFront (stretch old i n) (stretch new p q)
      if s = 0 then f else moveDown old new fuel (slideDown f.before (o, p, q) i j n s after)
    | .delete a b c, .delete _ m _ :: after =>
      moveDown old new fuel ⟨f.before, .delete a (b + m) c, after⟩
    | .insert a b c, .insert _ _ n :: after =>
      moveDown old new fuel ⟨f.before, .insert a b (c + n), after⟩
    | .insert a b c, .delete o p q :: after =>
      moveDown old new fuel ⟨.delete o p q :: f.before, .insert a b c, after⟩
    | .delete a b c, .insert o p q :: after =>
      moveDown old new fuel ⟨.insert o p q :: f.before, .delete a b c, after⟩
    | _, _ => f

/-! ## 3. The whole script -/

/-- Moves every operation of one kind up and down, from the first one on. -/
def moveAll (old new : List Text) (kind : Op → Bool) :
    (fuel : Nat) → (before after : List Op) → List Op
  | 0, before, after => before.reverse ++ after
  | _ + 1, before, [] => before.reverse
  | fuel + 1, before, op :: after =>
    if kind op then
      let f := moveUp old new (weight before + 1) ⟨before, op, after⟩
      let f := moveDown old new (weight f.after + 1) f
      moveAll old new kind fuel (f.this :: f.before) f.after
    else moveAll old new kind fuel (op :: before) after

/-- The changes between two stretches of equal lines, while they are collected. -/
structure Edits where
  deleted : Option (Nat × Nat × Nat) := none
  inserted : Option (Nat × Nat × Nat) := none
deriving DecidableEq, Inhabited, Repr

/-- The one operation that the collected changes come to. -/
def Edits.ops (e : Edits) : List Op :=
  match e.deleted, e.inserted with
  | none, none => []
  | some (i, m, j), none => [.delete i m j]
  | none, some (i, j, n) => [.insert i j n]
  | some (i, m, _), some (_, j, n) => [.replace i m j n]

/-- Joins stretches of equal lines that have come together, and changes that have. -/
def join : List Op → (equal : Option (Nat × Nat × Nat)) → Edits → List Op
  | [], equal, edits => (equal.map fun (i, j, n) => Op.equal i j n).toList ++ edits.ops
  | .equal i j n :: rest, equal, edits =>
    match equal with
    | some (a, b, c) => join rest (some (a, b, c + n)) {}
    | none => edits.ops ++ join rest (some (i, j, n)) {}
  | .delete i m j :: rest, equal, edits =>
    let deleted := match edits.deleted with
      | some (a, b, c) => (a, b + m, c)
      | none => (i, m, j)
    (equal.map fun (i, j, n) => Op.equal i j n).toList
      ++ join rest none { edits with deleted := some deleted }
  | .insert i j n :: rest, equal, edits =>
    let inserted := match edits.inserted with
      | some (a, b, c) => (a, b, c + n)
      | none => (i, j, n)
    (equal.map fun (i, j, n) => Op.equal i j n).toList
      ++ join rest none { edits with inserted := some inserted }
  | .replace i m j n :: rest, equal, edits =>
    (equal.map fun (i, j, n) => Op.equal i j n).toList ++ edits.ops
      ++ .replace i m j n :: join rest none {}

/-- A tidied script. -/
def compact (old new : List Text) (ops : List Op) : List Op :=
  let bound (ops : List Op) := 4 * (weight ops + 1)
  let ops := moveAll old new Op.isDelete (bound ops) [] ops
  let ops := moveAll old new Op.isInsert (bound ops) [] ops
  join ops none {}

/-- The script between two lists of lines. -/
def script (old new : List Text) : List Op :=
  compact old new (search 0 0 old new)

end Diff

end AnchoredEdit
