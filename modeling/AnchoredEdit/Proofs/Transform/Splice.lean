/-
`Proofs/Transform/Splice.lean` -- applying an edit, for every span, and taking it back.

The span of an edit may come from anywhere: past the end of a line, past the last line, back to
front, or into the middle of a character. An edit applies exactly if both lines exist and the two
offsets are places to cut, in order. Positions in order have offsets in order, so an edit whose
span is in order is never refused for the order of its offsets.

Taking an edit back is one more edit. It starts where the first one cut the source, which is its
start cut to the line, and it ends where a writer stands who has written the replacement from
there. That end is found by walking over the replacement, not by an offset; the two agree because
the text in front of the cut extends exactly to the start.
-/
import AnchoredEdit.Proofs.Text.Lines
import AnchoredEdit.Proofs.Transform.Exact

set_option autoImplicit false

namespace AnchoredEdit

/-! ## 1. Splices -/

/-- **A splice exchanges the middle of a text cut in three**, and there is no other splice. -/
theorem Text.splice?_eq_some_iff {t new result : Text} {start stop : Nat} :
    t.splice? start stop new = some result ↔
      ∃ before middle after, t = before ++ middle ++ after ∧ before.byteLength = start
        ∧ (before ++ middle).byteLength = stop ∧ result = before ++ new ++ after := by
  constructor
  · intro h
    unfold splice? at h
    by_cases hle : start ≤ stop
    · rw [if_pos hle] at h
      obtain ⟨⟨before, rest⟩, hstart, h⟩ := Option.bind_eq_some_iff.mp h
      obtain ⟨⟨front, after⟩, hstop, h⟩ := Option.bind_eq_some_iff.mp h
      obtain ⟨hbefore, hlength⟩ := cut?_eq_some hstart
      obtain ⟨hfront, hlength'⟩ := cut?_eq_some hstop
      obtain ⟨middle, rfl, -⟩ :=
        exists_append_of_byteLength_le (hbefore.symm.trans hfront) (by omega)
      exact ⟨before, middle, after, hfront, hlength, hlength', (Option.some.inj h).symm⟩
    · rw [if_neg hle] at h
      cases h
  · rintro ⟨before, middle, after, rfl, rfl, rfl, rfl⟩
    exact splice?_append before middle after new

/-! ## 2. When an edit applies -/

/-- The span of the edit fits the source: both of its lines exist, and its offsets are `start` and
`stop`, which are places to cut, in order. -/
structure Edit.Fits (e : Edit) (source : Text) (start stop : Nat) : Prop where
  start_line : source.HasLine e.span.start.line
  stop_line : source.HasLine e.span.stop.line
  offset_start : source.offsetOf? e.span.start = some start
  offset_stop : source.offsetOf? e.span.stop = some stop
  start_le_stop : start ≤ stop
  boundary_start : source.IsBoundary start
  boundary_stop : source.IsBoundary stop

variable {e : Edit} {source result : Text} {start stop : Nat}

/-- The source in three parts, the middle one of which an edit that fits replaces. The first part
ends where the edit starts, once its column is cut to the line. -/
theorem Edit.Fits.exists_parts (h : e.Fits source start stop) :
    ∃ before replaced after, source = before ++ replaced ++ after
      ∧ before.byteLength = start ∧ (before ++ replaced).byteLength = stop
      ∧ before.extent = source.clamp e.span.start := by
  obtain ⟨before, rest, hbefore, hlength, hextent⟩ :=
    Text.exists_append_of_offsetOf? h.offset_start h.boundary_start
  obtain ⟨front, after, hfront, hlength'⟩ := Text.isBoundary_iff.mp h.boundary_stop
  have hle := h.start_le_stop
  obtain ⟨replaced, rfl, -⟩ :=
    Text.exists_append_of_byteLength_le (hbefore.symm.trans hfront) (by omega)
  exact ⟨before, replaced, after, hfront, hlength, hlength', hextent⟩

theorem Edit.fits_of_spliceInto? (h : e.spliceInto? source = some result) :
    ∃ start stop, e.Fits source start stop := by
  unfold spliceInto? at h
  obtain ⟨start, hstart, h⟩ := Option.bind_eq_some_iff.mp h
  obtain ⟨stop, hstop, h⟩ := Option.bind_eq_some_iff.mp h
  obtain ⟨before, middle, after, hsource, hlength, hlength', -⟩ := Text.splice?_eq_some_iff.mp h
  refine ⟨start, stop, ?_⟩
  constructor
  case start_line => exact Text.exists_offsetOf?_iff.mp ⟨start, hstart⟩
  case stop_line => exact Text.exists_offsetOf?_iff.mp ⟨stop, hstop⟩
  case offset_start => exact hstart
  case offset_stop => exact hstop
  case start_le_stop =>
    rw [Text.byteLength_append] at hlength'
    omega
  case boundary_start =>
    exact Text.isBoundary_iff.mpr ⟨before, middle ++ after, by rw [hsource, List.append_assoc],
      hlength⟩
  case boundary_stop => exact Text.isBoundary_iff.mpr ⟨before ++ middle, after, hsource, hlength'⟩

/-- An edit that fits puts its replacement between the two outer parts. -/
theorem Edit.Fits.spliceInto?_eq (h : e.Fits source start stop) {before replaced after : Text}
    (hsource : source = before ++ replaced ++ after) (hbefore : before.byteLength = start)
    (hreplaced : (before ++ replaced).byteLength = stop) :
    e.spliceInto? source = some (before ++ e.replacement ++ after) := by
  unfold spliceInto?
  rw [h.offset_start, h.offset_stop]
  exact Text.splice?_eq_some_iff.mpr ⟨before, replaced, after, hsource, hbefore, hreplaced, rfl⟩

/-! ## 3. Taking an edit back -/

/-- The edit that puts `replaced` back where `e` was applied to `source`: from the start of `e`,
cut to its line, over all that `e` wrote. -/
def Edit.undo (e : Edit) (source replaced : Text) : Edit where
  span := ⟨source.clamp e.span.start, (source.clamp e.span.start).advance e.replacement⟩
  replaced := e.replacement
  replacement := replaced

/-- What was replaced is put back between the two outer parts. -/
theorem Edit.spliceInto?_undo {before replaced after : Text}
    (hsource : source = before ++ replaced ++ after)
    (hextent : before.extent = source.clamp e.span.start) :
    (e.undo source replaced).spliceInto? (before ++ e.replacement ++ after) = some source := by
  have hspan : (e.undo source replaced).span
      = ⟨before.extent, (before ++ (e.undo source replaced).replaced).extent⟩ := by
    unfold undo
    rw [← hextent, Text.advance_extent]
  have hwritten : before ++ e.replacement ++ after
      = before ++ (e.undo source replaced).replaced ++ after := rfl
  rw [(Edit.replaces_of_span hwritten hspan).splice, hsource]
  rfl

/-- **An edit that fits applies, and undoing it gives the source back.** -/
theorem Edit.Fits.exists_applied (h : e.Fits source start stop) :
    ∃ before replaced after, source = before ++ replaced ++ after
      ∧ before.byteLength = start ∧ (before ++ replaced).byteLength = stop
      ∧ e.spliceInto? source = some (before ++ e.replacement ++ after)
      ∧ (e.undo source replaced).spliceInto? (before ++ e.replacement ++ after)
          = some source := by
  obtain ⟨before, replaced, after, hsource, hbefore, hreplaced, hextent⟩ := h.exists_parts
  refine ⟨before, replaced, after, hsource, hbefore, hreplaced, ?_, ?_⟩
  · exact h.spliceInto?_eq hsource hbefore hreplaced
  · exact Edit.spliceInto?_undo hsource hextent

/-- **Splicing is exact and can be undone, for every edit.**

* An edit applies exactly if it fits: both lines of its span exist, and the two offsets, with
  columns cut to their lines, are places to cut, in order.
* Then the result is the source up to the first offset, the replacement, and the source from the
  second offset on. Replacing what was written, from the start of the edit cut to its line, by what
  stood there gives the source back.
* If the span is in order and both of its lines exist, its offsets are in order. -/
theorem Edit.splice_exact_and_undone (e : Edit) (source : Text) :
    ((∃ result, e.spliceInto? source = some result) ↔
        ∃ start stop, e.Fits source start stop)
      ∧ (∀ start stop, e.Fits source start stop →
          ∃ before replaced after, source = before ++ replaced ++ after
            ∧ before.byteLength = start ∧ (before ++ replaced).byteLength = stop
            ∧ e.spliceInto? source = some (before ++ e.replacement ++ after)
            ∧ (e.undo source replaced).spliceInto? (before ++ e.replacement ++ after)
                = some source)
      ∧ (e.span.start ≤ e.span.stop → source.HasLine e.span.start.line →
          source.HasLine e.span.stop.line → ∃ start stop,
            source.offsetOf? e.span.start = some start
              ∧ source.offsetOf? e.span.stop = some stop ∧ start ≤ stop) := by
  refine ⟨⟨?fits, ?applies⟩, fun start stop h => h.exists_applied, ?ordered⟩
  case fits =>
    rintro ⟨result, h⟩
    exact Edit.fits_of_spliceInto? h
  case applies =>
    rintro ⟨start, stop, h⟩
    obtain ⟨before, replaced, after, -, -, -, hsplice, -⟩ := h.exists_applied
    exact ⟨_, hsplice⟩
  case ordered =>
    intro hle hstart hstop
    obtain ⟨start, hstart⟩ := Text.exists_offsetOf?_iff.mpr hstart
    obtain ⟨stop, hstop⟩ := Text.exists_offsetOf?_iff.mpr hstop
    exact ⟨start, stop, hstart, hstop, Text.offsetOf?_mono hle hstart hstop⟩

/-- An edit of `aéb` with a line break before `b`, from a column past the end of the first line up
to the end of the second. -/
def Edit.sampleSplice : Edit where
  span := ⟨⟨0, 9⟩, ⟨1, 1⟩⟩
  replaced := "\nb".toList
  replacement := "c\nd".toList

theorem Edit.sampleSplice_fits : Edit.sampleSplice.Fits "aé\nb".toList 3 5 where
  start_line := by decide
  stop_line := by decide
  offset_start := by decide
  offset_stop := by decide
  start_le_stop := by decide
  boundary_start := by decide
  boundary_stop := by decide

/-- The edit starts at the line break, and undoing it puts the break and the `b` back. -/
theorem Edit.splice_exact_and_undone_sampleSplice :
    Edit.sampleSplice.Fits "aé\nb".toList 3 5
      ∧ ∃ before replaced after, "aé\nb".toList = before ++ replaced ++ after
        ∧ Edit.sampleSplice.spliceInto? "aé\nb".toList = some (before ++ "c\nd".toList ++ after)
        ∧ (Edit.sampleSplice.undo "aé\nb".toList replaced).spliceInto?
            (before ++ "c\nd".toList ++ after) = some "aé\nb".toList := by
  obtain ⟨-, happlies, -⟩ := Edit.splice_exact_and_undone Edit.sampleSplice "aé\nb".toList
  obtain ⟨before, replaced, after, hsource, -, -, hsplice, hundo⟩ :=
    happlies 3 5 Edit.sampleSplice_fits
  exact ⟨Edit.sampleSplice_fits, before, replaced, after, hsource, hsplice, hundo⟩

end AnchoredEdit
