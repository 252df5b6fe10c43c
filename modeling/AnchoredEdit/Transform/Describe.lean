/-
`Transform/Describe.lean` -- showing the tree around the anchor.

The result is a dump, not an edit; it is reported as a failure of its own class, so that every
caller shows it the way it shows other messages.
-/
import AnchoredEdit.Edit
import AnchoredEdit.Failure
import AnchoredEdit.Syntax.Descriptor
import AnchoredEdit.Syntax.Dump

set_option autoImplicit false

namespace AnchoredEdit

namespace Describe

open Attempt

variable (t : Tree)

/-- The kind of node that the climb does not leave. -/
def topKind : String :=
  "program"

/-- Climbs at most `levels` parents up from `i`. -/
def climb : (levels : Nat) → t.Id → t.Id
  | 0, i => i
  | levels + 1, i =>
    if t.kind i = topKind then i
    else
      match t.parent i with
      | none => i
      | some parent => climb levels parent

/-- How far the dump reaches. -/
structure Reach where
  /-- How many parents to climb. -/
  ancestorLevels : Nat
  /-- How many levels to show below the node reached. -/
  renderDepth : Nat
  /-- How many characters of a leaf to show. -/
  textWidth : Nat
deriving DecidableEq, Inhabited, Repr

/-- Shows the tree around the anchor. -/
def run (anchor : Anchor) (reach : Reach) : Attempt Edit := do
  let found ← ofChecked (anchor.node? t)
  let anchored ← need .noNode found
  let top := climb t reach.ancestorLevels anchored
  let dump ← ofChecked (t.dump top anchored reach.renderDepth reach.textWidth)
  .error (.declined ⟨.debug, String.ofList dump⟩)

end Describe

end AnchoredEdit
