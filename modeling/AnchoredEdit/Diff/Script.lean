/-
`Diff/Script.lean` -- edit scripts between two lists of lines.

A script is a list of operations that goes through the old and the new lines in order: a stretch
kept, a stretch deleted, a stretch inserted, or a stretch replaced by another. Operations name
stretches by their place in the two lists.
-/
import AnchoredEdit.Diff.Lines

set_option autoImplicit false

namespace AnchoredEdit

namespace Diff

/-- One operation of a script. -/
inductive Op where
  /-- The `length` lines from `old` and from `new` on are the same. -/
  | equal (old new length : Nat)
  /-- The `length` lines from `old` on go; the new lines are at `new`. -/
  | delete (old length new : Nat)
  /-- The `length` lines from `new` on come in; the old lines are at `old`. -/
  | insert (old new length : Nat)
  /-- Lines from `old` on go and lines from `new` on come in their place. -/
  | replace (old oldLength new newLength : Nat)
deriving DecidableEq, Inhabited, Repr

namespace Op

/-- The operation is a deletion. -/
def isDelete : Op → Bool
  | delete .. => true
  | _ => false

/-- The operation is an insertion. -/
def isInsert : Op → Bool
  | insert .. => true
  | _ => false

/-- The number of old lines. -/
def oldLength : Op → Nat
  | equal _ _ n => n
  | delete _ n _ => n
  | insert .. => 0
  | replace _ n _ _ => n

/-- The number of new lines. -/
def newLength : Op → Nat
  | equal _ _ n => n
  | delete .. => 0
  | insert _ _ n => n
  | replace _ _ _ n => n

end Op

/-- What happens to a line. -/
inductive Change where
  | equal
  | delete
  | insert
deriving DecidableEq, Inhabited, Repr

/-- The `length` lines from `start` on. -/
def stretch (ls : List Text) (start length : Nat) : List Text :=
  (ls.drop start).take length

/-- What an operation does, line by line; deleted lines come before the inserted ones. -/
def Op.changes (old new : List Text) : Op → List (Change × Text)
  | .equal i _ n => (stretch old i n).map (.equal, ·)
  | .delete i n _ => (stretch old i n).map (.delete, ·)
  | .insert _ j n => (stretch new j n).map (.insert, ·)
  | .replace i m j n =>
    (stretch old i m).map (.delete, ·) ++ (stretch new j n).map (.insert, ·)

end Diff

end AnchoredEdit
