/-
`Syntax/Fault.lean` -- operations that are only meaningful on consistent input.

Cutting a source at the byte offsets of a node, or moving a cursor along with the text it
stands in, presupposes that the tree and the source belong together. Where they do not, the
operation reports a `Fault` instead of inventing an answer, so that "this never happens" is a
statement one can make and prove.

A position that is computed has to be made of words. A sum that leaves its word wraps around or is
a fault of its own, as the caller says. A difference below zero never wraps around: a position on a
line before the text that it should move with is a fault in either case. So a computation that ends
without a fault has taken no such difference.
-/
import AnchoredEdit.Text.Span

set_option autoImplicit false

namespace AnchoredEdit

/-- What can go wrong. -/
inductive Fault where
  /-- The byte offsets are out of order, past the end, or inside a character. -/
  | badSlice (start stop : Nat)
  /-- The position lies on a line before the text it should move with. -/
  | lineBefore (position origin : Position)
  /-- The position `exact` is what comes out, and it is not made of words. -/
  | overflow (exact : Position)
deriving DecidableEq, Inhabited, Repr

namespace Fault

/-- The wording of a fault. -/
def message : Fault → String
  | badSlice start stop =>
    "byte range " ++ toString start ++ ".." ++ toString stop ++ " does not fit the source"
  | lineBefore position origin =>
    "position " ++ position.toText ++ " lies before " ++ origin.toText
  | overflow exact => "position " ++ exact.toText ++ " is out of range"

end Fault

/-- A computation that may run into a fault. -/
abbrev Checked := Except Fault

/-- The part of a text between two byte offsets. -/
def Text.slice (t : Text) (start stop : Nat) : Checked Text :=
  match t.slice? start stop with
  | some part => .ok part
  | none => .error (.badSlice start stop)

theorem Text.slice_eq_ok_iff {t : Text} {start stop : Nat} {part : Text} :
    t.slice start stop = .ok part ↔ t.slice? start stop = some part := by
  unfold Text.slice
  split <;> simp_all

namespace Position

variable (o : Overflow)

/-- The position in words. -/
def inWords (p : Position) : Checked Position :=
  match o with
  | .wraps => .ok p.wrap
  | .faults => if p.Fits then .ok p else .error (.overflow p)

/-- Where a writer stands who starts at `p` and writes `t`. -/
def write (p : Position) (t : Text) : Checked Position :=
  (p.advance t).inWords o

/-- Moves `p` along with the text it stands in. -/
def rebase (p origin target : Position) : Checked Position :=
  match p.rebase? origin target with
  | some moved => moved.inWords o
  | none => .error (.lineBefore p origin)

/-- Moves `p` along with the text from `origin` on, which is written again: it comes after
`written`, and that starts at `start`. -/
def carry (p origin start : Position) (written : Text) : Checked Position := do
  let target ← start.write o written
  p.rebase o origin target

end Position

end AnchoredEdit
