/-
`Proofs/Text/Lines.lean` -- positions and the lines of a text.

A text cut at its line breaks is a list of lines, one more than there are breaks. The scan behind
`offsetOf?` never builds that list, but it agrees with it: it finds a line exactly if the list has
one of that number, and it stops in front of that line. So a position has an offset exactly if its
line exists, and a later position never has a smaller one, whatever its column, because the end of
a line comes before the break and the break before the next line.

A column past the end of its line is cut to the end of the line. What the offset of a position
names, where it is a place to cut at all, is the position cut in this way: the text in front of it
extends exactly so far.
-/
import AnchoredEdit.Proofs.Text.Extent

set_option autoImplicit false

namespace AnchoredEdit

namespace Text

/-! ## 1. Lines -/

/-- The lines of a text, without the breaks between them. -/
def lines (t : Text) : List Text :=
  t.splitOn '\n'

@[simp] theorem lines_nil : lines [] = [[]] := by
  unfold lines
  exact List.splitOn_nil '\n'

theorem lines_cons (c : Char) (t : Text) :
    lines (c :: t) = if c = '\n' then [] :: lines t else (lines t).modifyHead (c :: ·) := by
  unfold lines
  rw [List.splitOn_eq_splitOnP, List.splitOnP_cons_eq_if_modifyHead, List.splitOn_eq_splitOnP]
  simp only [beq_iff_eq]

/-- A line is cut off at the break behind it. -/
theorem lines_append_cons {line : Text} (h : '\n' ∉ line) (t : Text) :
    lines (line ++ '\n' :: t) = line :: lines t := by
  have hline : line.splitOn '\n' = [line] := by
    rw [List.splitOn_eq_splitOnP]
    apply List.splitOnP_eq_singleton
    intro c hc
    rw [beq_eq_false_iff_ne]
    rintro rfl
    exact h hc
  unfold lines
  rw [List.splitOn_append_cons_self, hline, List.singleton_append]

/-- **Lines that are ended by breaks are the lines of their text**, and nothing follows them. -/
theorem lines_flatMap {ls : List Text} (h : ∀ line ∈ ls, '\n' ∉ line) :
    lines (ls.flatMap fun line => line ++ ['\n']) = ls ++ [[]] := by
  induction ls with
  | nil => simp
  | cons line ls ih =>
    rw [List.forall_mem_cons] at h
    rw [List.flatMap_cons, List.append_assoc, List.singleton_append, lines_append_cons h.1, ih h.2,
      List.cons_append]

/-- The text has a line of number `n`. -/
def HasLine (t : Text) (n : Nat) : Prop :=
  n < t.lines.length

instance (t : Text) (n : Nat) : Decidable (t.HasLine n) :=
  inferInstanceAs (Decidable (n < t.lines.length))

/-- The line of number `n`, empty where there is none. -/
def lineAt (t : Text) (n : Nat) : Text :=
  t.lines.getD n []

/-- `p` with its column cut to the end of its line. -/
def clamp (t : Text) (p : Position) : Position :=
  ⟨p.line, min p.column (t.lineAt p.line).byteLength⟩

/-! ## 2. The scan for a line -/

theorem getElem?_lines_zero (t : Text) : t.lines[0]? = some t.firstLine := by
  induction t with
  | nil => simp [firstLine]
  | cons c t ih =>
    rw [lines_cons]
    by_cases hc : c = '\n'
    · simp [hc, firstLine]
    · rw [if_neg hc, List.getElem?_modifyHead, ih]
      simp [hc, firstLine]

/-- **The scan agrees with the list of lines**: it finds the lines that exist, and what it stops
in front of is the line that it looked for. -/
theorem map_lineStart? (t : Text) (n : Nat) :
    (t.lineStart? n).map (fun (_, tail) => tail.firstLine) = t.lines[n]? := by
  fun_induction lineStart? t n with
  | case1 t => rw [getElem?_lines_zero, Option.map_some]
  | case2 n => simp
  | case3 rest n ih =>
    rw [lines_cons, if_pos rfl, List.getElem?_cons_succ, ← ih, Option.map_map]
    rfl
  | case4 c rest n hc ih =>
    -- Only the first line starts with `c`, and the scan is past it.
    rw [lines_cons, if_neg hc, List.getElem?_modifyHead, if_neg (by omega), ← ih, Option.map_map]
    rfl

theorem exists_lineStart? {t : Text} {n : Nat} (h : t.HasLine n) :
    ∃ offset tail, t.lineStart? n = some (offset, tail) := by
  have hline : t.lines[n]? = some t.lines[n] := List.getElem?_eq_getElem h
  rw [← map_lineStart?, Option.map_eq_some_iff] at hline
  obtain ⟨⟨offset, tail⟩, hscan, -⟩ := hline
  exact ⟨offset, tail, hscan⟩

theorem hasLine_of_lineStart? {t tail : Text} {n offset : Nat}
    (h : t.lineStart? n = some (offset, tail)) : t.HasLine n ∧ t.lineAt n = tail.firstLine := by
  have hline := map_lineStart? t n
  rw [h, Option.map_some] at hline
  constructor
  · exact (List.getElem?_eq_some_iff.mp hline.symm).1
  · unfold lineAt
    rw [List.getD_eq_getElem?_getD, ← hline]
    rfl

/-- **A position has an offset exactly if its line exists.** -/
theorem exists_offsetOf?_iff {t : Text} {p : Position} :
    (∃ offset, t.offsetOf? p = some offset) ↔ t.HasLine p.line := by
  constructor
  · rintro ⟨offset, h⟩
    unfold offsetOf? at h
    rw [Option.map_eq_some_iff] at h
    obtain ⟨⟨start, tail⟩, hscan, -⟩ := h
    exact (hasLine_of_lineStart? hscan).1
  · intro h
    obtain ⟨start, tail, hscan⟩ := exists_lineStart? h
    unfold offsetOf?
    rw [hscan, Option.map_some]
    exact ⟨_, rfl⟩

/-- The offset of a position: where its line starts, and the column cut to the line. -/
theorem offsetOf?_of_lineStart? {t tail : Text} {p : Position} {start : Nat}
    (h : t.lineStart? p.line = some (start, tail)) :
    t.offsetOf? p = some (start + (t.clamp p).column) := by
  have hline := (hasLine_of_lineStart? h).2
  unfold offsetOf? clamp
  rw [h, hline, Option.map_some]

/-! ## 3. Later positions -/

/-- The second line starts behind the first one and its break. -/
theorem byteLength_firstLine_lt {t tail : Text} {n offset : Nat}
    (h : t.lineStart? (n + 1) = some (offset, tail)) : t.firstLine.byteLength < offset := by
  induction t generalizing offset with
  | nil => simp [lineStart?] at h
  | cons c t ih =>
    have hpos : 0 < c.utf8Size := c.utf8Size_pos
    unfold lineStart? at h
    by_cases hc : c = '\n'
    · rw [if_pos hc, Option.map_eq_some_iff] at h
      obtain ⟨found, -, heq⟩ := h
      have hoffset : 1 + found.1 = offset := (Prod.mk.inj heq).1
      simp only [hc, firstLine, ne_eq, not_true_eq_false, decide_false, List.takeWhile_cons,
        Bool.false_eq_true, if_false, byteLength_nil]
      omega
    · rw [if_neg hc, Option.map_eq_some_iff] at h
      obtain ⟨⟨start, rest⟩, hscan, heq⟩ := h
      rw [Prod.mk.injEq] at heq
      have hlt := ih (heq.2 ▸ hscan)
      have hfirst : firstLine (c :: t) = c :: firstLine t := by simp [firstLine, hc]
      rw [hfirst, byteLength_cons]
      omega

/-- **Counting on from a line** is counting in the text from that line on. -/
theorem lineStart?_add {t tail : Text} {m start : Nat} (h : t.lineStart? m = some (start, tail))
    (k : Nat) : t.lineStart? (m + k)
      = (tail.lineStart? k).map fun (offset, rest) => (start + offset, rest) := by
  fun_induction lineStart? t m generalizing start with
  | case1 t =>
    rw [Option.some.injEq, Prod.mk.injEq] at h
    rw [← h.1, ← h.2, Nat.zero_add]
    simp
  | case2 m => cases h
  | case3 rest m ih =>
    rw [Option.map_eq_some_iff] at h
    obtain ⟨⟨s, u⟩, hs, heq⟩ := h
    rw [Prod.mk.injEq] at heq
    rw [Nat.succ_add, lineStart?, if_pos rfl, ih (heq.2 ▸ hs), Option.map_map, ← heq.1]
    simp [Function.comp_def, Nat.add_assoc]
  | case4 c rest m hc ih =>
    rw [Option.map_eq_some_iff] at h
    obtain ⟨⟨s, u⟩, hs, heq⟩ := h
    rw [Prod.mk.injEq] at heq
    have hrest := ih (heq.2 ▸ hs)
    rw [Nat.add_right_comm] at hrest
    rw [Nat.succ_add, lineStart?, if_neg hc, hrest, Option.map_map, ← heq.1]
    simp [Function.comp_def, Nat.add_assoc]

/-- A line starts behind every line before it. -/
theorem lineStart?_lt {t tail tail' : Text} {m n start start' : Nat} (hlt : m < n)
    (hm : t.lineStart? m = some (start, tail)) (hn : t.lineStart? n = some (start', tail')) :
    start + tail.firstLine.byteLength < start' := by
  obtain ⟨k, rfl⟩ : ∃ k, n = m + (k + 1) := ⟨n - m - 1, by omega⟩
  rw [lineStart?_add hm, Option.map_eq_some_iff] at hn
  obtain ⟨⟨offset, rest⟩, hscan, heq⟩ := hn
  have hstart : start + offset = start' := (Prod.mk.inj heq).1
  have hbehind := byteLength_firstLine_lt hscan
  omega

/-- **Later positions have later offsets**, columns past the end of a line included. -/
theorem offsetOf?_mono {t : Text} {p q : Position} {m n : Nat} (hle : p ≤ q)
    (hp : t.offsetOf? p = some m) (hq : t.offsetOf? q = some n) : m ≤ n := by
  obtain ⟨start, tail, hscan⟩ := exists_lineStart? (exists_offsetOf?_iff.mp ⟨m, hp⟩)
  obtain ⟨start', tail', hscan'⟩ := exists_lineStart? (exists_offsetOf?_iff.mp ⟨n, hq⟩)
  rw [offsetOf?_of_lineStart? hscan, Option.some.injEq] at hp
  rw [offsetOf?_of_lineStart? hscan', Option.some.injEq] at hq
  dsimp only [clamp] at hp hq
  rw [(hasLine_of_lineStart? hscan).2] at hp
  rw [Position.le_def] at hle
  by_cases hline : p.line = q.line
  · rw [← hline, hscan, Option.some.injEq, Prod.mk.injEq] at hscan'
    rw [← hline, (hasLine_of_lineStart? hscan).2] at hq
    omega
  · have hlt := lineStart?_lt (by omega) hscan hscan'
    omega

/-! ## 4. What an offset names -/

/-- In front of a line stands a text that ends where the line starts. -/
theorem exists_append_of_lineStart? {t tail : Text} {n start : Nat}
    (h : t.lineStart? n = some (start, tail)) :
    ∃ head, t = head ++ tail ∧ head.byteLength = start ∧ head.extent = ⟨n, 0⟩ := by
  fun_induction lineStart? t n generalizing start with
  | case1 t =>
    rw [Option.some.injEq, Prod.mk.injEq] at h
    exact ⟨[], h.2, h.1, rfl⟩
  | case2 n => cases h
  | case3 rest n ih =>
    rw [Option.map_eq_some_iff] at h
    obtain ⟨⟨s, u⟩, hs, heq⟩ := h
    rw [Prod.mk.injEq] at heq
    obtain ⟨head, hhead, hlength, hextent⟩ := ih (heq.2 ▸ hs)
    refine ⟨'\n' :: head, by rw [hhead, List.cons_append], ?_, ?_⟩
    · rw [byteLength_cons, hlength]
      exact heq.1
    · rw [extent_cons, hextent, Position.ext_iff, Position.add_line, Position.add_column]
      simp [Position.step, Position.origin, Nat.add_comm]
  | case4 c rest n hc ih =>
    rw [Option.map_eq_some_iff] at h
    obtain ⟨⟨s, u⟩, hs, heq⟩ := h
    rw [Prod.mk.injEq] at heq
    obtain ⟨head, hhead, hlength, hextent⟩ := ih (heq.2 ▸ hs)
    refine ⟨c :: head, by rw [hhead, List.cons_append], ?_, ?_⟩
    · rw [byteLength_cons, hlength]
      exact heq.1
    · rw [extent_cons, hextent, Position.ext_iff, Position.add_line, Position.add_column]
      simp [Position.step, Position.origin, hc]

/-- A text without breaks extends along one line. -/
theorem extent_of_not_mem {t : Text} (h : '\n' ∉ t) : t.extent = ⟨0, t.byteLength⟩ := by
  have hnone : lastBreak? t = none := by
    induction t with
    | nil => rfl
    | cons c t ih =>
      rw [List.mem_cons, not_or] at h
      rw [lastBreak?, ih h.2]
      exact if_neg (Ne.symm h.1)
  unfold extent
  rw [advance_eq_of_lastBreak?, hnone]
  simp [Position.origin]

/-- **An offset that is a place to cut is that of the position cut to its line.** -/
theorem exists_append_of_offsetOf? {t : Text} {p : Position} {offset : Nat}
    (h : t.offsetOf? p = some offset) (hboundary : t.IsBoundary offset) :
    ∃ before after, t = before ++ after ∧ before.byteLength = offset
      ∧ before.extent = t.clamp p := by
  obtain ⟨start, tail, hscan⟩ := exists_lineStart? (exists_offsetOf?_iff.mp ⟨offset, h⟩)
  have hline := (hasLine_of_lineStart? hscan).2
  rw [offsetOf?_of_lineStart? hscan, Option.some.injEq] at h
  obtain ⟨head, hhead, hlength, hextent⟩ := exists_append_of_lineStart? hscan
  obtain ⟨before, after, hbefore, hoffset⟩ := isBoundary_iff.mp hboundary
  -- The cut comes behind the start of the line and not behind its end.
  obtain ⟨part, hpart, htail⟩ :=
    exists_append_of_byteLength_le (hhead.symm.trans hbefore) (by omega)
  have hcolumn : part.byteLength = (t.clamp p).column := by
    rw [hpart, byteLength_append] at hoffset
    omega
  have hsplit : part ++ after = tail.firstLine ++ tail.dropWhile (· ≠ '\n') := by
    rw [← htail, firstLine, List.takeWhile_append_dropWhile]
  obtain ⟨rest, hrest, -⟩ := exists_append_of_byteLength_le hsplit (by
    rw [hcolumn, ← hline]
    exact Nat.min_le_right _ _)
  have hunbroken : '\n' ∉ part := by
    intro hmem
    have hfirst : '\n' ∈ tail.takeWhile (· ≠ '\n') := by
      rw [← firstLine, hrest]
      exact List.mem_append_left rest hmem
    have hall := List.all_takeWhile (p := fun c => decide (c ≠ '\n')) (l := tail)
    rw [List.all_eq_true] at hall
    simpa using hall _ hfirst
  refine ⟨before, after, hbefore, hoffset, ?_⟩
  rw [hpart, extent_append, hextent, extent_of_not_mem hunbroken, hcolumn, Position.ext_iff,
    Position.add_line, Position.add_column]
  simp [clamp]

end Text

end AnchoredEdit
