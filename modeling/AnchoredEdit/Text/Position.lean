/-
`Text/Position.lean` -- line and column positions, and the arithmetic that moves them.

A position counts lines from zero and, inside a line, bytes from zero. Three operations
carry all of the editing arithmetic. They are exact here; a position that is computed for use is
cut to words afterwards, or refused if it is not made of words.

* `advance p t` is where a writer that starts at `p` stands after writing `t`. It walks the
  text one character at a time, so it turns appending texts into composing walks.
* `rebase? p origin target` keeps the distance of `p` from `origin` while `origin` moves to
  `target`. Only the first line of what lies between shifts sideways; on later lines the
  column does not depend on where the text starts. A position on a line before `origin` has
  no such distance.
* `offsetOf? t p` is the byte offset of `p` in `t`. A column past the end of its line counts
  as the end of the line; a line that does not exist has no offset.
-/
import AnchoredEdit.Text.Bytes
import AnchoredEdit.Words

set_option autoImplicit false

namespace AnchoredEdit

/-- A place in a text: the line, and the number of bytes before it on that line. -/
structure Position where
  line : Nat
  column : Nat
deriving DecidableEq, Inhabited, Repr

namespace Position

/-! ## 1. Order -/

/-- Positions are ordered by line and then by column. -/
instance : LT Position where
  lt p q := p.line < q.line ∨ p.line = q.line ∧ p.column < q.column

instance : LE Position where
  le p q := p.line < q.line ∨ p.line = q.line ∧ p.column ≤ q.column

theorem lt_def {p q : Position} :
    p < q ↔ p.line < q.line ∨ p.line = q.line ∧ p.column < q.column := Iff.rfl

theorem le_def {p q : Position} :
    p ≤ q ↔ p.line < q.line ∨ p.line = q.line ∧ p.column ≤ q.column := Iff.rfl

instance (p q : Position) : Decidable (p < q) :=
  inferInstanceAs (Decidable (p.line < q.line ∨ p.line = q.line ∧ p.column < q.column))

instance (p q : Position) : Decidable (p ≤ q) :=
  inferInstanceAs (Decidable (p.line < q.line ∨ p.line = q.line ∧ p.column ≤ q.column))

instance : Ord Position where
  compare p q := (compare p.line q.line).then (compare p.column q.column)

/-! ## 2. Walking over a text -/

/-- The position after the character `c` is written at `p`. -/
def step (p : Position) (c : Char) : Position :=
  if c = '\n' then ⟨p.line + 1, 0⟩ else ⟨p.line, p.column + c.utf8Size⟩

/-- The position after the text `t` is written at `p`. -/
def advance (p : Position) (t : Text) : Position :=
  t.foldl step p

@[simp] theorem advance_nil (p : Position) : p.advance [] = p := rfl

@[simp] theorem advance_cons (p : Position) (c : Char) (t : Text) :
    p.advance (c :: t) = (p.step c).advance t := rfl

/-- **Writing two texts is writing the one and then the other.** -/
@[simp] theorem advance_append (p : Position) (a b : Text) :
    p.advance (a ++ b) = (p.advance a).advance b :=
  List.foldl_append

/-- Moves `p` along when the text it stands in, which starts at `origin`, starts at
`target` instead. On the first line the column never falls short of `target`. -/
def rebase? (p origin target : Position) : Option Position :=
  if p.line < origin.line then none
  else if p.line = origin.line then
    -- The difference stops at zero: a column before the origin counts as the origin.
    some ⟨target.line, target.column + (p.column - origin.column)⟩
  else
    some ⟨target.line + (p.line - origin.line), p.column⟩

/-- The position as `line:column`. -/
def toText (p : Position) : String :=
  toString p.line ++ ":" ++ toString p.column

/-! ## 3. Positions in words -/

/-- The line and the column are words. -/
def Fits (p : Position) : Prop :=
  p.line < wordCount ∧ p.column < wordCount

instance (p : Position) : Decidable p.Fits :=
  inferInstanceAs (Decidable (p.line < wordCount ∧ p.column < wordCount))

/-- The position that is left when line and column wrap around. -/
def wrap (p : Position) : Position :=
  ⟨p.line % wordCount, p.column % wordCount⟩

theorem wrap_of_fits {p : Position} (h : p.Fits) : p.wrap = p := by
  rw [wrap, Nat.mod_eq_of_lt h.1, Nat.mod_eq_of_lt h.2]

end Position

/-! ## 4. Positions as byte offsets -/

namespace Text

/-- The byte offset at which line `n` starts, with the text from there on. -/
def lineStart? : Text → Nat → Option (Nat × Text)
  | t, 0 => some (0, t)
  | [], _ + 1 => none
  | c :: rest, n + 1 =>
    if c = '\n' then
      (lineStart? rest n).map fun (offset, tail) => (1 + offset, tail)
    else
      (lineStart? rest (n + 1)).map fun (offset, tail) => (c.utf8Size + offset, tail)

@[simp] theorem lineStart?_zero (t : Text) : lineStart? t 0 = some (0, t) := by
  cases t <;> rfl

/-- The first line of `t`, without the break that ends it. -/
def firstLine (t : Text) : Text :=
  t.takeWhile (· ≠ '\n')

/-- The byte offset of `p` in `t`; columns past the end of the line count as its end. -/
def offsetOf? (t : Text) (p : Position) : Option Nat :=
  (lineStart? t p.line).map fun (offset, tail) =>
    offset + min p.column (byteLength (firstLine tail))

end Text

end AnchoredEdit
