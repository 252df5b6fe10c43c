/-
`Words.lean` -- the range of 64-bit integers.

Numbers of this library are naturals and integers without bound. Where a number arrives from
outside or is shown, it has to fit a 64-bit word; the two bounds below say what fits. Where a
number is computed that does not fit, there are two ways to go on, and whoever computes it says
which one is taken.
-/

set_option autoImplicit false

namespace AnchoredEdit

/-- The number of values of a word, two to the power of 64: unsigned words are below it. -/
def wordCount : Nat :=
  18446744073709551616

/-- Half of that, two to the power of 63: signed words lie from its negative up to below it. -/
def signedBound : Nat :=
  9223372036854775808

/-- Signed words are half above zero and half below. -/
theorem wordCount_eq : wordCount = 2 * signedBound := rfl

/-- What becomes of a sum that leaves its word. -/
inductive Overflow where
  /-- It wraps around, and its remainder is left. -/
  | wraps
  /-- It is a fault. -/
  | faults
deriving DecidableEq, Inhabited, Repr

/-- The number in the signed range that is congruent to `n`. -/
def signed64 (n : Int) : Int :=
  n.bmod wordCount

end AnchoredEdit
