/-
`Proofs/Text/Arithmetic.lean` -- the arithmetic of positions is the arithmetic of texts.

Three operations have to agree, and each looks at a text from another side. `write` walks over it
and ends at a column that only depends on what comes behind the last line break. `rebase` sees
positions and no text at all. `offsetOf?` counts lines from the front and cuts the column to the
line it finds.

The first two compute in words. Remainders add up in any order, so a walk that wraps around may
still be taken in pieces. But a position that wrapped around has lost its distance from the origin
and cannot be rebased. So rebasing asks for a walk that ends in words; where sums that leave their
words are refused, a walk that ends at all is one.

What makes offsets agree with them is that positions and places to cut name one another. A place to
cut has a position, the one a writer reaches who writes the text up to there; that position is on a
line of the text and not past its end; and of all such positions it is the only one with that
offset. A position past the end of its line has an offset too, but it is not where any writer
stands.
-/
import AnchoredEdit.Proofs.Text.InWords
import AnchoredEdit.Proofs.Text.Lines

set_option autoImplicit false

namespace AnchoredEdit

namespace Text

/-! ## 1. Counting line by line -/

/-- The bytes in front of line `n`: the lines before it, each with its break. -/
def bytesBefore (t : Text) (n : Nat) : Nat :=
  (t.lines.take n).foldr (fun line rest => line.byteLength + 1 + rest) 0

@[simp] theorem bytesBefore_zero (t : Text) : t.bytesBefore 0 = 0 := rfl

theorem bytesBefore_cons_newline (t : Text) (n : Nat) :
    bytesBefore ('\n' :: t) (n + 1) = 1 + t.bytesBefore n := by
  unfold bytesBefore
  rw [lines_cons, if_pos rfl]
  simp

/-- A character that breaks no line adds its bytes to the first line. -/
theorem bytesBefore_cons {c : Char} (hc : c ≠ '\n') (t : Text) (n : Nat) :
    bytesBefore (c :: t) (n + 1) = c.utf8Size + t.bytesBefore (n + 1) := by
  obtain ⟨first, rest, hlines⟩ : ∃ first rest, t.lines = first :: rest := by
    have hfirst := getElem?_lines_zero t
    cases hlines : t.lines with
    | nil => simp [hlines] at hfirst
    | cons first rest => exact ⟨first, rest, rfl⟩
  unfold bytesBefore
  rw [lines_cons, if_neg hc, hlines]
  simp [Nat.add_assoc]

/-- The scan for a line stops behind the lines before it. -/
theorem eq_bytesBefore_of_lineStart? {t tail : Text} {n start : Nat}
    (h : t.lineStart? n = some (start, tail)) : start = t.bytesBefore n := by
  fun_induction lineStart? t n generalizing start with
  | case1 t =>
    rw [Option.some.injEq, Prod.mk.injEq] at h
    rw [bytesBefore_zero, h.1]
  | case2 n => cases h
  | case3 rest n ih =>
    rw [Option.map_eq_some_iff] at h
    obtain ⟨⟨s, u⟩, hs, heq⟩ := h
    rw [Prod.mk.injEq] at heq
    rw [bytesBefore_cons_newline, ← ih (heq.2 ▸ hs), heq.1]
  | case4 c rest n hc ih =>
    rw [Option.map_eq_some_iff] at h
    obtain ⟨⟨s, u⟩, hs, heq⟩ := h
    rw [Prod.mk.injEq] at heq
    rw [bytesBefore_cons hc, ← ih (heq.2 ▸ hs), heq.1]

/-- **An offset is counted line by line**: the lines before it with their breaks, and the column
cut to the line. Where there is no such line there is no offset. -/
theorem offsetOf?_eq_map_lines (t : Text) (p : Position) :
    t.offsetOf? p = t.lines[p.line]?.map fun line =>
      t.bytesBefore p.line + min p.column line.byteLength := by
  rw [← map_lineStart?, Option.map_map]
  unfold offsetOf?
  cases hscan : t.lineStart? p.line with
  | none => rfl
  | some found =>
    obtain ⟨start, tail⟩ := found
    rw [Option.map_some, Option.map_some, Function.comp, eq_bytesBefore_of_lineStart? hscan]

/-! ## 2. Positions of a text -/

/-- `p` is a position of `t`: its line exists, and its column is not past the end of the line. -/
structure HasPosition (t : Text) (p : Position) : Prop where
  line : t.HasLine p.line
  column : p.column ≤ (t.lineAt p.line).byteLength

/-- Cutting the column to the line changes nothing exactly at the positions of a text. -/
theorem hasPosition_iff {t : Text} {p : Position} :
    t.HasPosition p ↔ t.HasLine p.line ∧ t.clamp p = p := by
  constructor
  · rintro ⟨hline, hcolumn⟩
    refine ⟨hline, ?_⟩
    rw [clamp, Nat.min_eq_left hcolumn]
  · rintro ⟨hline, hclamp⟩
    refine ⟨hline, ?_⟩
    calc p.column = (t.clamp p).column := by rw [hclamp]
      _ ≤ (t.lineAt p.line).byteLength := Nat.min_le_right _ _

/-- **Positions and places to cut name one another.** The position at a place to cut is the one
position of the text with that offset. -/
theorem positionAt?_eq_some_iff_hasPosition {t : Text} {n : Nat} {p : Position} :
    t.positionAt? n = some p ↔ t.HasPosition p ∧ t.offsetOf? p = some n ∧ t.IsBoundary n := by
  have hnames : t.offsetOf? p = some n → t.IsBoundary n → t.positionAt? n = some (t.clamp p) := by
    intro hoffset hboundary
    obtain ⟨before, after, ht, hlength, hextent⟩ := exists_append_of_offsetOf? hoffset hboundary
    exact positionAt?_eq_some_iff.mpr ⟨before, after, ht, hlength, hextent⟩
  constructor
  · intro h
    have hoffset := offsetOf?_of_positionAt? h
    have hboundary : t.IsBoundary n := by
      obtain ⟨before, after, ht, hlength, -⟩ := positionAt?_eq_some_iff.mp h
      exact isBoundary_iff.mpr ⟨before, after, ht, hlength⟩
    -- The offset of `p` names both `p` and `p` cut to its line, so nothing was cut.
    have hclamp : t.clamp p = p := by
      have hcut := hnames hoffset hboundary
      rw [h, Option.some.injEq] at hcut
      exact hcut.symm
    exact ⟨hasPosition_iff.mpr ⟨exists_offsetOf?_iff.mp ⟨n, hoffset⟩, hclamp⟩, hoffset, hboundary⟩
  · rintro ⟨hposition, hoffset, hboundary⟩
    rw [hnames hoffset hboundary, (hasPosition_iff.mp hposition).2]

/-- The position at a place to cut is where a writer stands who wrote the text up to there. -/
theorem positionAt?_eq_map_slice? (t : Text) (n : Nat) :
    t.positionAt? n = (t.slice? 0 n).map Position.origin.advance := by
  unfold positionAt? slice?
  rw [if_pos (Nat.zero_le n)]
  cases t.cut? n with
  | none => rfl
  | some parts => simp [extent]

end Text

/-! ## 3. Walking and rebasing in words -/

namespace Position

variable {o : Overflow} {p q origin : Position} {a : Text}

/-- Where sums fault, a walk that is not refused is exact. -/
theorem write_faults_eq_ok_iff :
    p.write .faults a = .ok q ↔ (p.advance a).Fits ∧ q = p.advance a :=
  inWords_faults_eq_ok_iff

/-- **A walk may be taken in pieces**, wherever it wraps around. -/
theorem write_append (h : p.write o a = .ok q) (b : Text) : p.write o (a ++ b) = q.write o b := by
  unfold write
  rw [advance_append]
  cases o with
  | wraps =>
    obtain rfl : (p.advance a).wrap = q := Except.ok.inj h
    simp only [inWords, advance_eq_add, wrap_wrap_add]
  | faults =>
    obtain ⟨-, rfl⟩ := write_faults_eq_ok_iff.mp h
    rfl

/-- **A walk from one origin, rebased to another one, is the walk from there.** -/
theorem rebase_of_write (h : origin.write o a = .ok q)
    (hfits : o = .wraps → (origin.advance a).Fits) (target : Position) :
    q.rebase o origin target = target.write o a := by
  obtain rfl : q = origin.advance a := by
    cases o with
    | wraps =>
      rw [write, inWords_of_fits _ (hfits rfl)] at h
      exact (Except.ok.inj h).symm
    | faults => exact (write_faults_eq_ok_iff.mp h).2
  rw [write, advance_eq_add, rebase_add, advance_eq_add]

end Position

/-- A text that fits into memory ends at a position that is made of words. -/
theorem Text.write_origin {t : Text} (h : t.byteLength < wordCount) (o : Overflow) :
    Position.write o ⟨0, 0⟩ t = .ok t.extent :=
  Position.inWords_of_fits o (Text.fits_extent h)

/-! ## 4. Walking, rebasing and counting -/

/-- A walk that wrapped around cannot be rebased. -/
example : (⟨0, wordCount - 1⟩ : Position).write .wraps ['x'] = .ok ⟨0, 0⟩
    ∧ (⟨0, 0⟩ : Position).rebase .wraps ⟨0, wordCount - 1⟩ ⟨0, 0⟩ = .ok ⟨0, 0⟩
    ∧ (⟨0, 0⟩ : Position).write .wraps ['x'] = .ok ⟨0, 1⟩ :=
  ⟨rfl, rfl, rfl⟩

/-- A text that starts and ends with a line break, with an empty line and characters of several
bytes in between. -/
def Text.sampleBreaks : Text := "\né\n\n日b\n".toList

theorem Text.sampleBreaks_hasPosition : Text.sampleBreaks.HasPosition ⟨3, 3⟩ where
  line := by decide
  column := by decide

end AnchoredEdit
