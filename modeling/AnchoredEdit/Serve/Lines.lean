/-
`Serve/Lines.lean` -- input as lines.

A line ends at a line feed; a carriage return right before it belongs to the ending. What
follows the last line feed is a line too, unless it is empty, and keeps its carriage return.
Bytes are split before they are decoded, so that everything before a line that is no text can
still be read.
-/
import AnchoredEdit.Files.Read

set_option autoImplicit false

namespace AnchoredEdit

namespace Lines

/-- Splits a list after each `newline`. The flag tells whether a piece was ended by one. -/
def split {α : Type} [DecidableEq α] (newline : α) : List α → List (List α × Bool)
  | [] => []
  | c :: rest =>
    if c = newline then ([], true) :: split newline rest
    else
      match split newline rest with
      | [] => [([c], false)]
      | (piece, ended) :: pieces => (c :: piece, ended) :: pieces

/-- A piece without the carriage return that belongs to its ending. -/
def chomp {α : Type} [DecidableEq α] (ret : α) : List α × Bool → List α
  | (piece, true) => if piece.getLast? = some ret then piece.dropLast else piece
  | (piece, false) => piece

/-- The lines of a text. -/
def ofText (t : Text) : List Text :=
  (split '\n' t).map (chomp '\r')

/-- Decodes lines up to the first one that is no text. -/
def decodeAll : List (List UInt8) → List Text × Bool
  | [] => ([], true)
  | line :: rest =>
    match decodeBytes line.toByteArray with
    | .error _ => ([], false)
    | .ok t =>
      let (lines, complete) := decodeAll rest
      (t :: lines, complete)

/-- The lines of some bytes up to the first one that is no text, and whether there is none. -/
def ofBytes (bytes : List UInt8) : List Text × Bool :=
  decodeAll ((split 10 bytes).map (chomp 13))

end Lines

end AnchoredEdit
