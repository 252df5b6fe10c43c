/-
`Proofs/Transform/Paste.lean` -- what a deletion takes out, pasting puts back.

A deletion writes nothing and leaves the cursor where the deleted text started. In front of that
place the source is as it was, so the place has the same lines, columns and bytes before and
after, even if the deletion joined two lines. Pasting at the cursor therefore lands between the
two halves that were left, and the source is whole again.

The second half of the matter is what is taken out. A function is found in one of two ways that
other modules compare. A markup element is the nearest one at or above the node at the anchor; at
a position that is the innermost element around it, and there is none exactly if no element
contains the position.
-/
import AnchoredEdit.Proofs.Transform.Faultless

set_option autoImplicit false

namespace AnchoredEdit

/-! ## 1. Pasting -/

/-- The edit that writes `text` at `p` and replaces nothing. -/
def Edit.insertion (p : Position) (text : Text) : Edit :=
  { span := ⟨p, p⟩, replaced := [], replacement := text }

/-- **Pasting lands between two halves**, at the position where the first of them ends. -/
theorem Edit.spliceInto?_insertion (before text after : Text) :
    (Edit.insertion before.extent text).spliceInto? (before ++ after)
      = some (before ++ text ++ after) := by
  have hsource : before ++ after
      = before ++ (Edit.insertion before.extent text).replaced ++ after := by
    rw [Edit.insertion, List.append_nil]
  have hspan : (Edit.insertion before.extent text).span
      = ⟨before.extent, (before ++ (Edit.insertion before.extent text).replaced).extent⟩ := by
    rw [Edit.insertion, List.append_nil]
  exact (Edit.replaces_of_span hsource hspan).splice

/-! ## 2. Taking a node out -/

/-- The edit takes node `i` out of the source of `t`, which leaves `before` and `after`, and puts
the cursor where the node started. What it took out and where it put the cursor are enough to
undo it. -/
structure Edit.TakesOut (e : Edit) (t : Tree) (i : t.Id) (before after : Text)
    (cursor : Position) : Prop where
  source : t.source = before ++ e.replaced ++ after
  startByte : t.startByte i = before.byteLength
  endByte : t.endByte i = (before ++ e.replaced).byteLength
  splice : e.spliceInto? t.source = some (before ++ after)
  cursor_eq : e.cursor = some cursor
  offset : (before ++ after).offsetOf? cursor = some (t.startByte i)
  paste : (Edit.insertion cursor e.replaced).spliceInto? (before ++ after) = some t.source

variable {t : Tree} {i : t.Id} {e : Edit} {anchor : Anchor} {weight : Nat} {p : Position}

/-- An edit that replaces a node by nothing, with the cursor at its start, takes it out. -/
theorem Edit.takesOut_of_reads {before text after : Text} (hreads : t.Reads i before text after)
    (hspan : e.span = t.span i) (hreplaced : e.replaced = text) (hreplacement : e.replacement = [])
    (hcursor : e.cursor = some (t.span i).start) :
    e.TakesOut t i before after (t.span i).start := by
  have hexact := Edit.replaces_of_reads hreads hspan hreplaced
  subst hreplaced
  constructor
  case source => exact hreads.source
  case startByte => exact hreads.startByte
  case endByte => exact hreads.endByte
  case splice => rw [hexact.splice, hreplacement, List.append_nil]
  case cursor_eq => exact hcursor
  case offset =>
    rw [hreads.start, hreads.startByte]
    exact Text.offsetOf?_extent before after
  case paste =>
    rw [hreads.start, hreads.source]
    exact Edit.spliceInto?_insertion before e.replaced after

/-! ## 3. What is taken out -/

namespace Delete

theorem kind_mem_of_functionAt (h : functionAt t anchor weight = .ok (some i)) :
    t.kind i ∈ functionKinds := by
  cases anchor with
  | point p =>
    have hfound : t.smallestAround (t.allOfKind functionKinds) p weight = some i :=
      Except.ok.inj h
    exact Tree.mem_allOfKind.mp (Tree.smallestAround_eq_some_iff.mp hfound).mem
  | node d =>
    rw [functionAt] at h
    cases hd : t.locate d with
    | error fault =>
      rw [hd] at h
      cases h
    | ok found =>
      rw [hd] at h
      obtain ⟨j, -, hi⟩ := Option.bind_eq_some_iff.mp (Except.ok.inj h)
      exact Tree.kind_mem_of_nearestOfKind hi

/-- Node `i` is the markup element to delete at the anchor: the nearest one at or above the node
that the anchor designates. -/
def ElementAt (t : Tree) (anchor : Anchor) (i : t.Id) : Prop :=
  ∃ start, anchor.node? t = .ok (some start) ∧ t.nearestOfKind start elementKinds = some i

/-- **At a position, the element to delete is the innermost one around it.** -/
theorem elementAt_point_iff (hwf : t.WellFormed) :
    ElementAt t (.point p) i ↔ t.Innermost (t.OfKindAround elementKinds p) i := by
  rw [← hwf.spansNested.bind_nearestOfKind_eq_some_iff, Option.bind_eq_some_iff]
  constructor
  · rintro ⟨start, hstart, hi⟩
    exact ⟨start, Except.ok.inj hstart, hi⟩
  · rintro ⟨start, hstart, hi⟩
    exact ⟨start, congrArg Except.ok hstart, hi⟩

theorem exists_elementAt_point_iff (hwf : t.WellFormed) :
    (∃ i, ElementAt t (.point p) i) ↔ ∃ i, t.OfKindAround elementKinds p i := by
  constructor
  · rintro ⟨i, hi⟩
    exact ⟨i, ((elementAt_point_iff hwf).mp hi).mem⟩
  · rintro ⟨i, hi⟩
    cases hj : (t.innermostAt p).bind fun d => t.nearestOfKind d elementKinds with
    | none => exact absurd hi (hwf.spansNested.bind_nearestOfKind_eq_none_iff.mp hj i)
    | some j =>
      exact ⟨j, (elementAt_point_iff hwf).mpr (hwf.spansNested.bind_nearestOfKind_eq_some_iff.mp hj)⟩

theorem element_of_nearestOfKind {start : t.Id} {text : Text}
    (hstart : anchor.node? t = .ok (some start))
    (hi : t.nearestOfKind start elementKinds = some i) (htext : t.text i = .ok text) :
    element t anchor = .ok {
      span := t.span i, replaced := text, replacement := []
      cursor := some (t.span i).start, clipboard := some text } := by
  unfold element
  rw [hstart, Attempt.ofChecked_ok, Attempt.ok_bind, Attempt.need, Attempt.ok_bind, hi,
    Attempt.need, Attempt.ok_bind, htext, Attempt.ofChecked_ok, Attempt.ok_bind]
  rfl

/-- **Deleting an element works out exactly if there is one at the anchor.** -/
theorem exists_element_iff (hwf : t.WellFormed) :
    (∃ e, element t anchor = .ok e) ↔ ∃ i, ElementAt t anchor i := by
  constructor
  · rintro ⟨e, he⟩
    obtain ⟨start, i, -, hstart, hi, -⟩ := exists_of_element_eq_ok he
    exact ⟨i, start, hstart, hi⟩
  · rintro ⟨i, start, hstart, hi⟩
    obtain ⟨text, htext⟩ := hwf.succeeds_text i
    exact ⟨_, element_of_nearestOfKind hstart hi htext⟩

/-- Without an element it is declined. -/
theorem element_declines_iff (hwf : t.WellFormed) :
    (element t anchor).Declines ↔ ∀ i, ¬ ElementAt t anchor i := by
  constructor
  · rintro ⟨why, hwhy⟩ i hi
    obtain ⟨e, he⟩ := (exists_element_iff hwf).mpr ⟨i, hi⟩
    rw [hwhy] at he
    cases he
  · intro h
    obtain ⟨found, hfound⟩ := hwf.succeeds_node? anchor
    unfold element
    rw [hfound, Attempt.ofChecked_ok, Attempt.ok_bind]
    cases found with
    | none => exact ⟨.noNode, rfl⟩
    | some start =>
      rw [Attempt.need, Attempt.ok_bind]
      cases htag : t.nearestOfKind start elementKinds with
      | none => exact ⟨.noMarkup, rfl⟩
      | some i => exact absurd ⟨start, hfound, htag⟩ (h i)

/-! ## 4. Undoing a deletion -/

/-- **A deletion is undone by pasting.** Whatever the anchor, a deletion takes the bytes of one
node out of the source and nothing else; the cursor is at the first byte that is gone, and pasting
there what was replaced gives the source back. For a markup element the clipboard holds just that.

At a position, the element that is deleted is the innermost one of those that contain it: the
others are above it. There is nothing to delete exactly if no element contains the position, and
then the deletion is declined. -/
theorem undone_by_pasting (hwf : t.WellFormed) :
    (∀ anchor weight e, function t anchor weight = .ok e →
      ∃ i before after cursor, functionAt t anchor weight = .ok (some i)
        ∧ t.kind i ∈ functionKinds ∧ e.TakesOut t i before after cursor)
      ∧ (∀ anchor e, element t anchor = .ok e →
          ∃ i before after cursor, ElementAt t anchor i ∧ t.kind i ∈ elementKinds
            ∧ e.TakesOut t i before after cursor ∧ e.clipboard = some e.replaced
            ∧ ∀ p, anchor = .point p → t.Innermost (t.OfKindAround elementKinds p) i)
      ∧ ∀ p,
          ((∃ e, element t (.point p) = .ok e) ↔ ∃ i, t.OfKindAround elementKinds p i)
            ∧ ((element t (.point p)).Declines ↔ ∀ i, ¬ t.OfKindAround elementKinds p i) := by
  refine ⟨?functions, ?elements, ?positions⟩
  case functions =>
    intro anchor weight e h
    obtain ⟨i, text, hat, htext, rfl⟩ := exists_of_function_eq_ok h
    obtain ⟨before, after, hreads⟩ := hwf.exists_reads_of_text htext
    exact ⟨i, before, after, _, hat, kind_mem_of_functionAt hat,
      Edit.takesOut_of_reads hreads rfl rfl rfl rfl⟩
  case elements =>
    intro anchor e h
    obtain ⟨start, i, text, hstart, hi, htext, rfl⟩ := exists_of_element_eq_ok h
    obtain ⟨before, after, hreads⟩ := hwf.exists_reads_of_text htext
    have hat : ElementAt t anchor i := ⟨start, hstart, hi⟩
    refine ⟨i, before, after, _, hat, Tree.kind_mem_of_nearestOfKind hi,
      Edit.takesOut_of_reads hreads rfl rfl rfl rfl, rfl, ?_⟩
    rintro p rfl
    exact (elementAt_point_iff hwf).mp hat
  case positions =>
    intro p
    have hexists := exists_elementAt_point_iff (p := p) hwf
    constructor
    · rw [exists_element_iff hwf, hexists]
    · rw [element_declines_iff hwf, ← not_exists, hexists, not_exists]

end Delete

/-- A parse of `<p>é<b/></p>` with a line break inside of the inner element: deleting it joins two
lines, the first of which has more bytes than characters. -/
def Tree.sampleMarkup : Tree :=
  (ofRows? "<p>é<b\n/></p>".toList .moduleMarkup [
    ⟨0, ⟨"program", true, none, ⟨⟨0, 0⟩, ⟨1, 6⟩⟩, 0, 14⟩⟩,
    ⟨1, ⟨"expression_statement", true, none, ⟨⟨0, 0⟩, ⟨1, 6⟩⟩, 0, 14⟩⟩,
    ⟨2, ⟨"jsx_element", true, none, ⟨⟨0, 0⟩, ⟨1, 6⟩⟩, 0, 14⟩⟩,
    ⟨3, ⟨"jsx_opening_element", true, some "open_tag", ⟨⟨0, 0⟩, ⟨0, 3⟩⟩, 0, 3⟩⟩,
    ⟨4, ⟨"<", false, none, ⟨⟨0, 0⟩, ⟨0, 1⟩⟩, 0, 1⟩⟩,
    ⟨4, ⟨"identifier", true, some "name", ⟨⟨0, 1⟩, ⟨0, 2⟩⟩, 1, 2⟩⟩,
    ⟨4, ⟨">", false, none, ⟨⟨0, 2⟩, ⟨0, 3⟩⟩, 2, 3⟩⟩,
    ⟨3, ⟨"jsx_text", true, none, ⟨⟨0, 3⟩, ⟨0, 5⟩⟩, 3, 5⟩⟩,
    ⟨3, ⟨"jsx_self_closing_element", true, none, ⟨⟨0, 5⟩, ⟨1, 2⟩⟩, 5, 10⟩⟩,
    ⟨4, ⟨"<", false, none, ⟨⟨0, 5⟩, ⟨0, 6⟩⟩, 5, 6⟩⟩,
    ⟨4, ⟨"identifier", true, some "name", ⟨⟨0, 6⟩, ⟨0, 7⟩⟩, 6, 7⟩⟩,
    ⟨4, ⟨"/>", false, none, ⟨⟨1, 0⟩, ⟨1, 2⟩⟩, 8, 10⟩⟩,
    ⟨3, ⟨"jsx_closing_element", true, some "close_tag", ⟨⟨1, 2⟩, ⟨1, 6⟩⟩, 10, 14⟩⟩,
    ⟨4, ⟨"</", false, none, ⟨⟨1, 2⟩, ⟨1, 4⟩⟩, 10, 12⟩⟩,
    ⟨4, ⟨"identifier", true, some "name", ⟨⟨1, 4⟩, ⟨1, 5⟩⟩, 12, 13⟩⟩,
    ⟨4, ⟨">", false, none, ⟨⟨1, 5⟩, ⟨1, 6⟩⟩, 13, 14⟩⟩]).get (by decide)

theorem Tree.sampleMarkup_wellFormed : sampleMarkup.WellFormed where
  eq_root := by decide
  preorder := by decide
  start_le_end := by decide
  start_at := by decide
  stop_at := by decide
  nested := by decide
  disjoint := by decide

/-- The deletion of the inner element of `sampleMarkup`. -/
def Delete.sampleEdit : Edit where
  span := ⟨⟨0, 5⟩, ⟨1, 2⟩⟩
  replaced := "<b\n/>".toList
  replacement := []
  cursor := some ⟨0, 5⟩
  clipboard := some "<b\n/>".toList

/-- The cursor lies past the end of the first line, inside of both elements. The inner one is
deleted, and pasting it breaks the joined line again. -/
theorem Delete.undone_by_pasting_sampleMarkup :
    Tree.sampleMarkup.WellFormed
      ∧ Delete.element Tree.sampleMarkup (.point ⟨0, 99⟩) = .ok Delete.sampleEdit
      ∧ ∃ i before after cursor, Delete.sampleEdit.TakesOut Tree.sampleMarkup i before after cursor
        ∧ Tree.sampleMarkup.Innermost
            (Tree.sampleMarkup.OfKindAround Delete.elementKinds ⟨0, 99⟩) i := by
  have hrun : Delete.element Tree.sampleMarkup (.point ⟨0, 99⟩) = .ok Delete.sampleEdit :=
    Attempt.eq_ok_of_toOption (by decide +kernel)
  obtain ⟨-, helements, -⟩ := Delete.undone_by_pasting Tree.sampleMarkup_wellFormed
  obtain ⟨i, before, after, cursor, -, -, htakes, -, hinnermost⟩ := helements _ _ hrun
  exact ⟨Tree.sampleMarkup_wellFormed, hrun, i, before, after, cursor, htakes, hinnermost _ rfl⟩

end AnchoredEdit
