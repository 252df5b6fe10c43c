/-
`Proofs/Text/InWords.lean` -- exact positions and the words they are computed in.

A cursor moves along with a piece of text. It keeps its distance from the start of the piece, so
if the piece starts at `target` afterwards, the cursor belongs at `target` plus that distance. This
file says what the computation makes of it. Where sums wrap around, what is left is the remainder
of that position, however often something wrapped on the way. Where sums fault, it is that position,
or a fault. And where both `target` and the position itself are made of words, it is that position in
either case.

Whether they are made of words is a matter of room. A text has no more lines, and no line of it more
bytes, than it has bytes itself. So only the cursor's own column can be out of proportion, and if
that column leaves room for as many bytes as the text has, everything stays in its words.
-/
import AnchoredEdit.Failure
import AnchoredEdit.Proofs.Text.Extent

set_option autoImplicit false

namespace AnchoredEdit

namespace Position

variable {p q : Position}

/-! ## 1. Remainders -/

/-- It makes no difference whether a position wraps around before something is added to it. -/
theorem wrap_wrap_add (p q : Position) : (p.wrap + q).wrap = (p + q).wrap := by
  rw [Position.ext_iff]
  simp only [wrap, add_line, add_column]
  constructor
  · exact Nat.mod_add_mod _ _ _
  · split
    · exact Nat.mod_add_mod _ _ _
    · rfl

theorem inWords_of_fits (o : Overflow) (h : p.Fits) : p.inWords o = .ok p := by
  cases o with
  | wraps => rw [inWords, wrap_of_fits h]
  | faults => rw [inWords, if_pos h]

/-- Where sums fault, a position comes out as it is or not at all. -/
theorem inWords_faults_eq_ok_iff : p.inWords .faults = .ok q ↔ p.Fits ∧ q = p := by
  by_cases h : p.Fits
  · simp [inWords, h, eq_comm]
  · simp [inWords, h]

end Position

/-! ## 2. Where a cursor lands -/

namespace Attempt

variable {α : Type} {o : Overflow} {target distance : Position} {f : Position → α}
  {a : Attempt α}

/-- A sum left its word and was refused. -/
def Overflows (a : Attempt α) : Prop :=
  ∃ exact : Position, ¬ exact.Fits ∧ a = .error (.fault (.overflow exact))

/-- The attempt comes to `f cursor`, and the cursor belongs at `target + distance`: it is the
remainder of that position if sums wrap around, and that position, unless there is a fault, if they
do not. With everything made of words it is that position in any case. -/
structure Lands (o : Overflow) (target distance : Position) (f : Position → α) (a : Attempt α) :
    Prop where
  wraps : o = .wraps → a = .ok (f (target + distance).wrap)
  faults : o = .faults → a = .ok (f (target + distance)) ∧ (target + distance).Fits ∨ a.Overflows
  fits : target.Fits → (target + distance).Fits → a = .ok (f (target + distance))

theorem lands_inWords (o : Overflow) (target distance : Position) (f : Position → α) :
    Lands o target distance f
      (ofChecked ((target + distance).inWords o) >>= fun cursor => .ok (f cursor)) where
  wraps := by
    rintro rfl
    rfl
  faults := by
    rintro rfl
    by_cases h : (target + distance).Fits
    · rw [Position.inWords_of_fits _ h]
      exact .inl ⟨rfl, h⟩
    · rw [Position.inWords, if_neg h]
      exact .inr ⟨_, h, rfl⟩
  fits _ h := by
    rw [Position.inWords_of_fits o h]
    rfl

theorem lands_rebase (o : Overflow) (p target distance : Position) (f : Position → α) :
    Lands o target distance f
      (ofChecked ((p + distance).rebase o p target) >>= fun cursor => .ok (f cursor)) := by
  rw [Position.rebase_add]
  exact lands_inWords o target distance f

/-- **A cursor that is carried along lands**: it may wrap around once behind the text that is
written and once more at its own place. -/
theorem lands_carry (o : Overflow) (p distance : Position) {start : Position} {written : Text}
    (htarget : start.advance written = target) (f : Position → α) :
    Lands o target distance f
      (ofChecked ((p + distance).carry o p start written) >>= fun cursor => .ok (f cursor)) := by
  unfold Position.carry Position.write
  rw [htarget]
  constructor
  case wraps =>
    rintro rfl
    have hmoved : (p + distance).rebase .wraps p target.wrap = .ok (target + distance).wrap := by
      rw [Position.rebase_add, Position.inWords, Position.wrap_wrap_add]
    show (ofChecked ((p + distance).rebase .wraps p target.wrap) >>= _) = _
    rw [hmoved]
    rfl
  case faults =>
    rintro rfl
    by_cases h : target.Fits
    · rw [Position.inWords_of_fits _ h]
      exact (lands_rebase .faults p target distance f).faults rfl
    · rw [Position.inWords, if_neg h]
      exact .inr ⟨target, h, rfl⟩
  case fits =>
    intro h
    rw [Position.inWords_of_fits o h]
    exact (lands_rebase o p target distance f).fits h

namespace Lands

theorem not_overflows_of_ok {b : α} (h : a = .ok b) : ¬ a.Overflows := by
  rintro ⟨exact, -, herror⟩
  rw [h] at herror
  cases herror

/-- Once the cursor has landed, it is the remainder of the position where it belongs, and where
sums fault it is that position. -/
theorem eq_of_ok (h : Lands o target distance f a) {b : α} (ha : a = .ok b) :
    b = f (target + distance).wrap ∧ (o = .faults → (target + distance).Fits) := by
  cases o with
  | wraps =>
    rw [h.wraps rfl] at ha
    exact ⟨(Except.ok.inj ha).symm, nofun⟩
  | faults =>
    rcases h.faults rfl with ⟨hok, hfits⟩ | hover
    · rw [hok] at ha
      rw [Position.wrap_of_fits hfits]
      exact ⟨(Except.ok.inj ha).symm, fun _ => hfits⟩
    · exact absurd hover (not_overflows_of_ok ha)

/-- The cursor lands, or a sum leaves its word. -/
theorem ok_or_overflows (h : Lands o target distance f a) : (∃ b, a = .ok b) ∨ a.Overflows := by
  cases o with
  | wraps => exact .inl ⟨_, h.wraps rfl⟩
  | faults => exact (h.faults rfl).imp_left fun hok => ⟨_, hok.1⟩

end Lands

end Attempt

/-! ## 3. Room -/

namespace Position

variable {p : Position}

/-- The column of `p` is so many bytes away from the end of its word. -/
def HasRoom (p : Position) (bytes : Nat) : Prop :=
  p.column + bytes < wordCount

instance (bytes : Nat) : Decidable (p.HasRoom bytes) :=
  inferInstanceAs (Decidable (p.column + bytes < wordCount))

theorem HasRoom.mono {m n : Nat} (h : p.HasRoom n) (hle : m ≤ n) : p.HasRoom m := by
  unfold HasRoom at *
  omega

end Position

namespace Text

/-- **A text has no more lines and columns than bytes.** -/
theorem extent_le_byteLength (t : Text) :
    t.extent.line ≤ t.byteLength ∧ t.extent.column ≤ t.byteLength := by
  induction t with
  | nil => exact ⟨Nat.le_refl _, Nat.le_refl _⟩
  | cons c t ih =>
    have hsize : 0 < c.utf8Size := c.utf8Size_pos
    have hstep : (Position.origin.step c).line ≤ 1
        ∧ (Position.origin.step c).column ≤ c.utf8Size := by
      unfold Position.step
      split
      · exact ⟨Nat.le_refl _, Nat.zero_le _⟩
      · simp [Position.origin]
    rw [extent_cons, Position.add_line, Position.add_column, byteLength_cons]
    split <;> omega

theorem fits_extent {t : Text} (h : t.byteLength < wordCount) : t.extent.Fits := by
  have hle := t.extent_le_byteLength
  exact ⟨by omega, by omega⟩

/-- **With room for the text that results, a cursor stays in its words**, and so does the start of
the piece that it is in. -/
theorem fits_of_hasRoom {before text lead rest : Text} {p q : Position} (hq : q < text.extent)
    (hp : p = before.extent + q) (hroom : p.HasRoom (lead ++ text ++ rest).byteLength) :
    lead.extent.Fits ∧ (lead.extent + q).Fits := by
  subst hp
  have hlead := lead.extent_le_byteLength
  have htext := text.extent_le_byteLength
  -- Inside the piece the cursor has no more lines than the piece.
  have hline : q.line ≤ text.extent.line := by
    rw [Position.lt_def] at hq
    omega
  unfold Position.HasRoom at hroom
  rw [Position.add_column] at hroom
  simp only [byteLength_append] at hroom
  have hfits : lead.extent.Fits := ⟨by omega, by omega⟩
  refine ⟨hfits, ?_, ?_⟩
  · rw [Position.add_line]
    omega
  · rw [Position.add_column]
    split
    · rw [if_pos ‹_›] at hroom
      omega
    · rw [if_neg ‹_›] at hroom
      omega

end Text

end AnchoredEdit
