/-
`Proofs/Text/Extent.lean` -- positions add up the way texts do.

Writing a text moves the writer by an amount that depends on the text alone: so many lines
down, and then either so many columns further (no line was broken) or to a column of its own.
That amount is the text's *extent*, and it is again a position, the one reached from the start
of the source. Positions with the addition below are a monoid, `extent` carries appending to
adding, `advance` is adding an extent, and `rebase?` is what addition makes of "the same
distance from another origin". The offset of a position splits along the same addition.

Byte offsets only come in at the end. A position inside a piece of text has an offset inside
that piece which does not depend on what surrounds the piece; this holds for a column past the
end of its line too, because the line break that cuts it short belongs to the piece. The last
section reads an extent off bytes as well: the column is what comes behind the last line break.
-/
import AnchoredEdit.Syntax.Fault

set_option autoImplicit false

namespace AnchoredEdit

/-! ## 1. Adding positions -/

attribute [ext] Position

namespace Position

/-- The start of every text. -/
def origin : Position := ⟨0, 0⟩

/-- `p + q` is where `q` lies in a text that starts at `p`. Only the first line of that text
is shifted sideways. -/
instance : Add Position where
  add p q := ⟨p.line + q.line, if q.line = 0 then p.column + q.column else q.column⟩

@[simp] theorem add_line (p q : Position) : (p + q).line = p.line + q.line := rfl

theorem add_column (p q : Position) :
    (p + q).column = if q.line = 0 then p.column + q.column else q.column := rfl

@[simp] theorem add_origin (p : Position) : p + origin = p := rfl

@[simp] theorem origin_add (p : Position) : origin + p = p := by
  rw [Position.ext_iff, add_line, add_column]
  simp only [origin]
  split <;> omega

theorem add_assoc (p q r : Position) : p + q + r = p + (q + r) := by
  rw [Position.ext_iff]
  simp only [add_line, add_column]
  constructor
  · omega
  · -- The column that counts is the one behind the last line break among `q` and `r`.
    by_cases hr : r.line = 0
    · by_cases hq : q.line = 0
      · simp [hr, hq, Nat.add_assoc]
      · simp [hr, hq]
    · simp [hr]

theorem le_add_right (p q : Position) : p ≤ p + q := by
  rw [le_def, add_line, add_column]
  split <;> omega

/-- **Moving the start of a text keeps the order of the positions in it.** -/
theorem add_lt_add_iff_left {p q r : Position} : p + q < p + r ↔ q < r := by
  simp only [lt_def, add_line, add_column]
  split <;> split <;> omega

/-- Every position from `p` on lies in a text that starts at `p`. -/
theorem exists_eq_add_of_le {p r : Position} (h : p ≤ r) : ∃ q, r = p + q := by
  rw [le_def] at h
  -- On the line of `p` columns count from `p`, on later lines from the margin.
  by_cases hline : p.line = r.line
  · refine ⟨⟨0, r.column - p.column⟩, ?_⟩
    rw [Position.ext_iff, add_line, add_column]
    dsimp only
    rw [if_pos rfl]
    omega
  · refine ⟨⟨r.line - p.line, r.column⟩, ?_⟩
    rw [Position.ext_iff, add_line, add_column]
    dsimp only
    rw [if_neg (by omega)]
    omega

/-- **Rebasing keeps the distance from the origin.** -/
theorem rebase?_add (p q r : Position) : (p + q).rebase? p r = some (r + q) := by
  unfold rebase?
  rw [add_line, add_column, if_neg (by omega)]
  by_cases hq : q.line = 0
  · rw [if_pos (by omega), if_pos hq, Option.some.injEq, Position.ext_iff, add_line, add_column,
      if_pos hq]
    dsimp only
    omega
  · rw [if_neg (by omega), if_neg hq, Option.some.injEq, Position.ext_iff, add_line, add_column,
      if_neg hq]
    dsimp only
    omega

theorem rebase_add (o : Overflow) (p q r : Position) :
    (p + q).rebase o p r = (r + q).inWords o := by
  rw [rebase, rebase?_add]

end Position

/-! ## 2. The extent of a text -/

namespace Text

/-- How far writing `t` moves the writer: the position after `t` at the start of a source. -/
def extent (t : Text) : Position :=
  Position.origin.advance t

@[simp] theorem extent_nil : extent [] = Position.origin := rfl

end Text

theorem Position.step_eq_add (p : Position) (c : Char) :
    p.step c = p + Position.origin.step c := by
  rw [Position.ext_iff, Position.add_line, Position.add_column]
  by_cases hc : c = '\n'
  · simp [Position.step, Position.origin, hc]
  · simp [Position.step, Position.origin, hc]

/-- **Advancing is adding the extent.** -/
theorem Position.advance_eq_add (p : Position) (t : Text) : p.advance t = p + t.extent := by
  induction t generalizing p with
  | nil => rw [Text.extent_nil, Position.add_origin, Position.advance_nil]
  | cons c t ih =>
    have hext : Text.extent (c :: t) = Position.origin.step c + Text.extent t := by
      rw [Text.extent, Position.advance_cons, ih]
    rw [Position.advance_cons, ih, hext, Position.step_eq_add, Position.add_assoc]

namespace Text

open Position

/-- **Appending texts adds their extents.** -/
theorem extent_append (a b : Text) : extent (a ++ b) = extent a + extent b := by
  rw [extent, advance_append, advance_eq_add]
  rfl

theorem advance_extent (a b : Text) : (extent a).advance b = extent (a ++ b) := by
  rw [advance_eq_add, extent_append]

theorem extent_cons (c : Char) (t : Text) : extent (c :: t) = origin.step c + extent t := by
  rw [extent, advance_cons, advance_eq_add]

/-! ## 3. Parts of one text by their byte length -/

@[simp] theorem byteLength_eq_zero_iff {t : Text} : byteLength t = 0 ↔ t = [] := by
  cases t with
  | nil => simp
  | cons c t =>
    have hpos : 0 < c.utf8Size := c.utf8Size_pos
    simp only [byteLength_cons, reduceCtorEq, iff_false]
    omega

/-- **Two cuts of one text**: the part up to the earlier one begins the part up to the later
one. -/
theorem exists_append_of_byteLength_le {a a' b b' : Text} (h : a ++ a' = b ++ b')
    (hle : byteLength a ≤ byteLength b) : ∃ m, b = a ++ m ∧ a' = m ++ b' := by
  rcases List.append_eq_append_iff.mp h with ⟨m, hb, ha'⟩ | ⟨m, ha, hb'⟩
  · exact ⟨m, hb, ha'⟩
  · -- The later cut is the shorter part, so nothing lies between the two.
    have hm : m = [] := by
      rw [← byteLength_eq_zero_iff]
      rw [ha, byteLength_append] at hle
      omega
    subst hm
    exact ⟨[], by simp [ha], by simp [hb']⟩

theorem slice_eq_ok {s before part after : Text} {start stop : Nat}
    (hs : s = before ++ part ++ after) (hstart : start = byteLength before)
    (hstop : stop = byteLength (before ++ part)) : s.slice start stop = .ok part := by
  rw [slice_eq_ok_iff, hs, hstart, hstop]
  exact slice?_append before part after

/-- The position at byte offset `n` of `t`; none where `n` is no place to cut. -/
def positionAt? (t : Text) (n : Nat) : Option Position :=
  (t.cut? n).map fun (before, _) => before.extent

theorem positionAt?_append (a b : Text) :
    positionAt? (a ++ b) (byteLength a) = some (extent a) := by
  rw [positionAt?, cut?_append]
  rfl

theorem positionAt?_eq_some_iff {t : Text} {n : Nat} {p : Position} :
    t.positionAt? n = some p ↔ ∃ a b, t = a ++ b ∧ byteLength a = n ∧ extent a = p := by
  unfold positionAt?
  rw [Option.map_eq_some_iff]
  constructor
  · rintro ⟨⟨a, b⟩, hcut, hp⟩
    obtain ⟨ht, hlen⟩ := cut?_eq_some hcut
    exact ⟨a, b, ht, hlen, hp⟩
  · rintro ⟨a, b, rfl, rfl, hp⟩
    exact ⟨(a, b), cut?_append a b, hp⟩

/-- Later bytes stand at later positions. -/
theorem position_le_of_le {t : Text} {m n : Nat} {p q : Position}
    (hp : t.positionAt? m = some p) (hq : t.positionAt? n = some q) (hle : m ≤ n) : p ≤ q := by
  obtain ⟨a, a', ha, hm, rfl⟩ := positionAt?_eq_some_iff.mp hp
  obtain ⟨b, b', hb, hn, rfl⟩ := positionAt?_eq_some_iff.mp hq
  obtain ⟨x, rfl, -⟩ := exists_append_of_byteLength_le (ha ▸ hb) (by omega)
  rw [extent_append]
  exact le_add_right _ _

/-! ## 4. Offsets -/

/-- Behind the first character, offsets are those of the rest. -/
theorem offsetOf?_cons_add (c : Char) (t : Text) (q : Position) :
    offsetOf? (c :: t) (origin.step c + q) = (offsetOf? t q).map (c.utf8Size + ·) := by
  by_cases hc : c = '\n'
  · -- A line break: the scan for line `q.line + 1` drops it and looks for line `q.line`.
    subst hc
    have hstep : origin.step '\n' + q = ⟨q.line + 1, q.column⟩ := by
      rw [Position.ext_iff, add_line, add_column]
      simp only [step, origin]
      constructor
      · simp [Nat.add_comm]
      · simp
    rw [hstep]
    simp only [offsetOf?, lineStart?, if_true, Option.map_map]
    cases lineStart? t q.line with
    | none => rfl
    | some found =>
      simp only [Option.map_some, Function.comp, Option.some.injEq]
      show 1 + found.1 + _ = 1 + (found.1 + _)
      omega
  · have hstep : origin.step c = ⟨0, c.utf8Size⟩ := by simp [step, hc, origin]
    rw [hstep]
    cases hq : q.line with
    | zero =>
      -- On the first line `c` shifts the column and the clamp alike.
      have hline : (⟨0, c.utf8Size⟩ + q : Position).line = 0 := by rw [add_line, hq]
      have hfirst : firstLine (c :: t) = c :: firstLine t := by simp [firstLine, hc]
      simp only [offsetOf?, hline, hq, lineStart?_zero, add_column, if_true, Option.map_some,
        hfirst, byteLength_cons, Option.some.injEq]
      omega
    | succ n =>
      -- On a later line the column is counted from the margin, and `c` only adds its bytes.
      have hline : (⟨0, c.utf8Size⟩ + q : Position).line = n + 1 := by
        rw [add_line, hq]
        simp
      have hcol : (⟨0, c.utf8Size⟩ + q : Position).column = q.column := by
        rw [add_column, if_neg (by omega)]
      simp only [offsetOf?, hline, hcol, hq, lineStart?, if_neg hc, Option.map_map]
      cases lineStart? t (n + 1) with
      | none => rfl
      | some found =>
        simp only [Option.map_some, Function.comp, Option.some.injEq]
        omega

/-- **Behind a first part, offsets are those of the rest.** -/
theorem offsetOf?_append_add (a t : Text) (q : Position) :
    offsetOf? (a ++ t) (extent a + q) = (offsetOf? t q).map (byteLength a + ·) := by
  induction a with
  | nil =>
    rw [extent_nil, origin_add, List.nil_append]
    simp [Option.map_id']
  | cons c a ih =>
    rw [extent_cons, Position.add_assoc, List.cons_append, offsetOf?_cons_add, ih,
      Option.map_map]
    congr 1
    funext n
    simp [Nat.add_assoc]

/-- **The offset of the position where a part ends is the length of the part.** -/
theorem offsetOf?_extent (a b : Text) : offsetOf? (a ++ b) (extent a) = some (byteLength a) := by
  have h := offsetOf?_append_add a b origin
  rw [add_origin] at h
  rw [h]
  simp [offsetOf?, origin]

/-- A position names one place to cut at most. -/
theorem offsetOf?_of_positionAt? {t : Text} {n : Nat} {p : Position}
    (h : t.positionAt? n = some p) : t.offsetOf? p = some n := by
  obtain ⟨a, b, rfl, rfl, rfl⟩ := positionAt?_eq_some_iff.mp h
  exact offsetOf?_extent a b

/-- **A position inside a piece has an offset inside the piece**, the same one whatever comes
after it. A column past its line's end falls on the line break, which is in the piece. -/
theorem exists_offsetOf?_of_lt {x : Text} {q : Position} (h : q < extent x) :
    ∃ k < byteLength x, ∀ after, offsetOf? (x ++ after) q = some k := by
  induction x generalizing q with
  | nil =>
    rw [extent_nil, lt_def] at h
    simp [origin] at h
  | cons c x ih =>
    by_cases hle : origin.step c ≤ q
    · -- Behind `c`, where the rest of the piece answers.
      obtain ⟨r, rfl⟩ := exists_eq_add_of_le hle
      rw [extent_cons, add_lt_add_iff_left] at h
      obtain ⟨k, hk, hoff⟩ := ih h
      refine ⟨c.utf8Size + k, by rw [byteLength_cons]; omega, fun after => ?_⟩
      rw [List.cons_append, offsetOf?_cons_add, hoff]
      rfl
    · -- Before the second character there is only the column inside the first one.
      have hline : q.line = 0 := by
        rw [le_def] at hle
        unfold step at hle
        split at hle <;> simp [origin] at hle <;> omega
      have hpos : 0 < c.utf8Size := c.utf8Size_pos
      by_cases hc : c = '\n'
      · -- Any column of an empty line stands for its break.
        subst hc
        refine ⟨0, by rw [byteLength_cons]; omega, fun after => ?_⟩
        simp [offsetOf?, hline, firstLine]
      · have hcol : q.column < c.utf8Size := by
          rw [le_def] at hle
          simp [step, hc, origin, hline] at hle
          exact hle
        refine ⟨q.column, by rw [byteLength_cons]; omega, fun after => ?_⟩
        simp only [offsetOf?, hline, List.cons_append, lineStart?_zero, Option.map_some,
          Option.some.injEq]
        have hfirst : firstLine (c :: (x ++ after)) = c :: firstLine (x ++ after) := by
          simp [firstLine, hc]
        rw [hfirst, byteLength_cons]
        omega

/-! ## 5. The last line break -/

/-- The byte offset of the last line break of `t`. -/
def lastBreak? : Text → Option Nat
  | [] => none
  | c :: rest =>
    match lastBreak? rest with
    | some n => some (c.utf8Size + n)
    | none => if c = '\n' then some 0 else none

/-- Behind a line break there is at least its own byte. -/
theorem lastBreak?_lt {t : Text} {n : Nat} (h : lastBreak? t = some n) : n + 1 ≤ byteLength t := by
  induction t generalizing n with
  | nil => cases h
  | cons c t ih =>
    have hpos : 0 < c.utf8Size := c.utf8Size_pos
    rw [lastBreak?] at h
    rw [byteLength_cons]
    split at h
    · next m hm =>
      have hle := ih hm
      cases h
      omega
    · split at h
      · cases h
        omega
      · cases h

theorem count_of_lastBreak?_eq_none {t : Text} (h : lastBreak? t = none) : t.count '\n' = 0 := by
  induction t with
  | nil => rfl
  | cons c t ih =>
    rw [lastBreak?] at h
    split at h
    · cases h
    · next hnone =>
      split at h
      · cases h
      · next hc => rw [List.count_cons_of_ne hc, ih hnone]

/-- **Where a writer stands follows from the last line break.** Without one the column grows by
the bytes of the text; otherwise it is the number of bytes behind the break. -/
theorem advance_eq_of_lastBreak? (p : Position) (t : Text) :
    p.advance t = match lastBreak? t with
      | none => ⟨p.line, p.column + byteLength t⟩
      | some n => ⟨p.line + t.count '\n', byteLength t - n - 1⟩ := by
  induction t generalizing p with
  | nil => rfl
  | cons c t ih =>
    rw [advance_cons, ih, lastBreak?, byteLength_cons]
    cases hlast : lastBreak? t with
    | some n =>
      dsimp only
      have hcolumn : byteLength t - n - 1 = c.utf8Size + byteLength t - (c.utf8Size + n) - 1 := by
        omega
      rw [← hcolumn, List.count_cons]
      by_cases hc : c = '\n'
      · simp [step, hc]
        omega
      · simp [step, hc]
    | none =>
      have hcount := count_of_lastBreak?_eq_none hlast
      dsimp only
      by_cases hc : c = '\n'
      · subst hc
        have hsize : ('\n' : Char).utf8Size = 1 := rfl
        simp [step, hcount, hsize]
      · simp [step, hc, Nat.add_assoc]

end Text

end AnchoredEdit
