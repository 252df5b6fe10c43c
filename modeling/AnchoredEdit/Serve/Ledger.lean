/-
`Serve/Ledger.lean` -- what is in flight.

A ledger maps request ids to whatever their owner needs to finish them, each with a deadline.
An entry enters once, under an id that is not in use, and leaves once: when its response
arrives, when it is given up, or when its deadline passes. Entries that leave by deadline leave
in the order of their ids.
-/
import AnchoredEdit.Error

set_option autoImplicit false

namespace AnchoredEdit

/-- One request in flight. -/
structure Pending (α : Type) where
  id : Int
  deadline : Nat
  payload : α
deriving DecidableEq, Inhabited, Repr

/-- The requests in flight. -/
structure Ledger (α : Type) where
  entries : List (Pending α) := []
deriving DecidableEq, Inhabited, Repr

namespace Ledger

variable {α : Type}

/-- The ledger without entries. -/
def empty : Ledger α :=
  ⟨[]⟩

/-- The number of requests in flight. -/
def size (l : Ledger α) : Nat :=
  l.entries.length

/-- Nothing is in flight. -/
def isEmpty (l : Ledger α) : Bool :=
  l.entries.isEmpty

/-- The entry under `id`. -/
def find? (l : Ledger α) (id : Int) : Option (Pending α) :=
  l.entries.find? (·.id = id)

/-- A request is in flight under `id`. -/
def contains (l : Ledger α) (id : Int) : Bool :=
  (l.find? id).isSome

/-- The ledger without the entry under `id`. -/
def erase (l : Ledger α) (id : Int) : Ledger α :=
  ⟨l.entries.filter (·.id ≠ id)⟩

/-- Enters a request under an id that is not in use. -/
def insert (l : Ledger α) (id : Int) (deadline : Nat) (payload : α) :
    Except Error (Ledger α) :=
  if l.contains id then .error (.invalidRequest (.alreadyInFlight id))
  else .ok ⟨l.entries ++ [⟨id, deadline, payload⟩]⟩

/-- Takes out the entry under `id`; none means that it has left already. -/
def complete (l : Ledger α) (id : Int) : Option α × Ledger α :=
  ((l.find? id).map (·.payload), l.erase id)

/-- Takes out the entry of a request that its caller gave up. -/
def cancel (l : Ledger α) (id : Int) : Option α × Ledger α :=
  l.complete id

/-- The entry's deadline is at or before `now`. -/
def isDue (now : Nat) (p : Pending α) : Bool :=
  p.deadline ≤ now

/-- Takes out every entry whose deadline is at or before `now`, by increasing id. -/
def expire (l : Ledger α) (now : Nat) : List (Int × α) × Ledger α :=
  let due := (l.entries.filter (isDue now)).mergeSort fun a b => a.id ≤ b.id
  (due.map fun p => (p.id, p.payload), ⟨l.entries.filter fun p => !isDue now p⟩)

end Ledger

end AnchoredEdit
