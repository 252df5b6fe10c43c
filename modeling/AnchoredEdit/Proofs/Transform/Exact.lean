/-
`Proofs/Transform/Exact.lean` -- every edit says exactly what it replaces.

An edit names its place twice, as a span of lines and columns and as the text that stood there,
and applying it derives byte offsets from the span once more. The two ways meet: the span is the
extent of what comes before and of what is replaced, so its offsets are the byte lengths of
those texts, and splicing exchanges the replaced text and nothing else. All transformations
that produce an edit cut it out of the source along nodes of the tree, so one lemma about cuts
serves them all.
-/
import AnchoredEdit.Engine
import AnchoredEdit.Proofs.Transform.Wrap

set_option autoImplicit false

namespace AnchoredEdit

/-! ## 1. Edits cut out of a source -/

/-- The edit replaces the bytes from `start` to `stop` of the source, which lie between `before`
and `after`: both offsets are places to cut, they are the offsets of the span's two ends, the
replaced text is what lies between them, and applying the edit puts the replacement there. -/
structure Edit.Replaces (e : Edit) (source : Text) (start stop : Nat) (before after : Text) :
    Prop where
  start_le_stop : start ≤ stop
  cut_start : source.cut? start = some (before, e.replaced ++ after)
  cut_stop : source.cut? stop = some (before ++ e.replaced, after)
  offset_start : source.offsetOf? e.span.start = some start
  offset_stop : source.offsetOf? e.span.stop = some stop
  slice : source.slice? start stop = some e.replaced
  splice : e.spliceInto? source = some (before ++ e.replacement ++ after)

/-- **An edit cut out of a source is exact.** -/
theorem Edit.replaces_of_span {e : Edit} {source before after : Text}
    (hsource : source = before ++ e.replaced ++ after)
    (hspan : e.span = ⟨before.extent, (before ++ e.replaced).extent⟩) :
    e.Replaces source before.byteLength (before ++ e.replaced).byteLength before after := by
  have hcut : source.cut? before.byteLength = some (before, e.replaced ++ after) := by
    rw [hsource, List.append_assoc]
    exact Text.cut?_append _ _
  have hstart : source.offsetOf? e.span.start = some before.byteLength := by
    rw [hsource, hspan, List.append_assoc]
    exact Text.offsetOf?_extent _ _
  have hstop : source.offsetOf? e.span.stop = some (before ++ e.replaced).byteLength := by
    rw [hsource, hspan]
    exact Text.offsetOf?_extent _ _
  constructor
  case start_le_stop =>
    rw [Text.byteLength_append]
    omega
  case cut_start => exact hcut
  case cut_stop =>
    rw [hsource]
    exact Text.cut?_append _ _
  case offset_start => exact hstart
  case offset_stop => exact hstop
  -- Texts are cut by bytes and splices are made from positions; the cuts are the same.
  case slice =>
    rw [hsource]
    exact Text.slice?_append _ _ _
  case splice =>
    rw [Edit.spliceInto?, hstart, hstop, hsource]
    exact Text.splice?_append _ _ _ _

/-- An edit that replaces one node is exact. -/
theorem Edit.replaces_of_reads {t : Tree} {i : t.Id} {before text after : Text} {e : Edit}
    (hreads : t.Reads i before text after) (hspan : e.span = t.span i)
    (hreplaced : e.replaced = text) :
    e.Replaces t.source before.byteLength (before ++ e.replaced).byteLength before after := by
  subst hreplaced
  refine Edit.replaces_of_span hreads.source ?_
  rw [hspan, ← hreads.start, ← hreads.stop]

/-! ## 2. The transformations -/

variable {t : Tree} {e : Edit}

/-- The edit that makes an exchange is exact. -/
theorem Exchange.Layout.replaces {x : Exchange t} {s : Exchange.Pieces} (h : x.Layout s)
    (joint : Text) (cursor : Position) : (s.edit joint cursor).Replaces t.source
      s.before.byteLength (s.before ++ s.replaced).byteLength s.before s.after :=
  Edit.replaces_of_span h.source rfl

theorem Move.Made.replaces {p : Position} {d : Direction} (m : Move.Made t p d)
    (cursor : Position) : (m.edit cursor).Replaces t.source m.pieces.before.byteLength
      (m.pieces.before ++ m.pieces.replaced).byteLength m.pieces.before m.pieces.after :=
  m.layout.replaces _ _

theorem Wrap.Made.replaces {p : Position} {weight : Nat} (m : Wrap.Made t p weight) (call : Text)
    (cursor : Position) : (m.edit call cursor).Replaces t.source m.before.byteLength
      (m.before ++ m.text).byteLength m.before m.after :=
  Edit.replaces_of_reads m.reads rfl rfl

/-- What a successful deletion of a function is. -/
theorem Delete.exists_of_function_eq_ok {anchor : Anchor} {weight : Nat}
    (h : Delete.function t anchor weight = .ok e) :
    ∃ i text, Delete.functionAt t anchor weight = .ok (some i) ∧ t.text i = .ok text ∧ e = {
      span := t.span i, replaced := text, replacement := []
      cursor := some (t.span i).start } := by
  unfold Delete.function at h
  obtain ⟨found, hfound, h⟩ := Attempt.bind_eq_ok_iff.mp h
  obtain ⟨i, hi, h⟩ := Attempt.bind_eq_ok_iff.mp h
  obtain ⟨text, htext, h⟩ := Attempt.bind_eq_ok_iff.mp h
  rw [Attempt.need_eq_ok_iff] at hi
  rw [hi] at hfound
  exact ⟨i, text, Attempt.ofChecked_eq_ok_iff.mp hfound, Attempt.ofChecked_eq_ok_iff.mp htext,
    (Except.ok.inj h).symm⟩

/-- What a successful deletion of a markup element is. -/
theorem Delete.exists_of_element_eq_ok {anchor : Anchor}
    (h : Delete.element t anchor = .ok e) :
    ∃ start i text, anchor.node? t = .ok (some start)
      ∧ t.nearestOfKind start Delete.elementKinds = some i ∧ t.text i = .ok text ∧ e = {
        span := t.span i, replaced := text, replacement := []
        cursor := some (t.span i).start, clipboard := some text } := by
  unfold Delete.element at h
  obtain ⟨found, hfound, h⟩ := Attempt.bind_eq_ok_iff.mp h
  obtain ⟨start, hstart, h⟩ := Attempt.bind_eq_ok_iff.mp h
  obtain ⟨i, hi, h⟩ := Attempt.bind_eq_ok_iff.mp h
  obtain ⟨text, htext, h⟩ := Attempt.bind_eq_ok_iff.mp h
  rw [Attempt.need_eq_ok_iff] at hstart
  rw [hstart] at hfound
  exact ⟨start, i, text, Attempt.ofChecked_eq_ok_iff.mp hfound, Attempt.need_eq_ok_iff.mp hi,
    Attempt.ofChecked_eq_ok_iff.mp htext, (Except.ok.inj h).symm⟩

/-- Showing the tree never produces an edit. -/
theorem Describe.run_ne_ok (anchor : Anchor) (reach : Describe.Reach) :
    Describe.run t anchor reach ≠ .ok e := by
  unfold Describe.run
  intro h
  obtain ⟨found, -, h⟩ := Attempt.bind_eq_ok_iff.mp h
  obtain ⟨anchored, -, h⟩ := Attempt.bind_eq_ok_iff.mp h
  obtain ⟨dump, -, h⟩ := Attempt.bind_eq_ok_iff.mp h
  cases h

/-- A node's text, where there is one, is what the node reads. -/
theorem Tree.WellFormed.exists_reads_of_text (hwf : t.WellFormed) {i : t.Id} {text : Text}
    (h : t.text i = .ok text) : ∃ before after, t.Reads i before text after := by
  obtain ⟨before, text', after, hreads⟩ := hwf.exists_reads i
  rw [hreads.text_eq] at h
  cases h
  exact ⟨before, after, hreads⟩

theorem Move.exists_replaces (hwf : t.WellFormed) {o : Overflow} {p : Position} {d : Direction}
    (h : Move.run t o p d = .ok e) :
    ∃ start stop before after, e.Replaces t.source start stop before after := by
  obtain ⟨m, rfl, -⟩ := Move.exists_made_of_run_eq_ok hwf h
  exact ⟨_, _, _, _, m.replaces _⟩

/-- **Every edit is exact.** Whatever the transformation, the anchor and the settings, an edit
names the bytes it replaces, by its span as well as by its text, and applying it puts the
replacement in the place of exactly those bytes. -/
theorem Mod.attempt_replaces_exactly {m : Mod} {o : Overflow} {parser : Parser}
    {anchor : Anchor} {c : Config} (hwf : t.WellFormed)
    (h : m.attempt o parser t anchor c = .ok e) :
    ∃ start stop before after, e.Replaces t.source start stop before after := by
  cases m with
  | moveLeft => exact Move.exists_replaces hwf h
  | moveRight => exact Move.exists_replaces hwf h
  | pointFreeToAnon =>
    obtain ⟨w, call, -, rfl, -⟩ := Wrap.exists_made_of_run_eq_ok hwf h
    exact ⟨_, _, _, _, w.replaces call _⟩
  | deleteFunction =>
    obtain ⟨i, text, -, htext, rfl⟩ := Delete.exists_of_function_eq_ok h
    obtain ⟨before, after, hreads⟩ := hwf.exists_reads_of_text htext
    exact ⟨_, _, _, _, Edit.replaces_of_reads hreads rfl rfl⟩
  | deleteClosestTag =>
    obtain ⟨start, i, text, -, -, htext, rfl⟩ := Delete.exists_of_element_eq_ok h
    obtain ⟨before, after, hreads⟩ := hwf.exists_reads_of_text htext
    exact ⟨_, _, _, _, Edit.replaces_of_reads hreads rfl rfl⟩
  | debugNodeUnderCursor => exact absurd h (Describe.run_ne_ok _ _)

/-- An edit that spans two lines, the first of which has more bytes than characters. -/
theorem Mod.attempt_replaces_exactly_sampleCall :
    Tree.sampleCall.WellFormed
      ∧ Mod.moveRight.attempt .wraps (fun _ _ => some Tree.sampleCall) Tree.sampleCall
          (.point ⟨0, 99⟩) .standard = .ok Move.sampleEdit
      ∧ ∃ start stop before after,
          Move.sampleEdit.Replaces Tree.sampleCall.source start stop before after := by
  have hrun : Mod.moveRight.attempt .wraps (fun _ _ => some Tree.sampleCall) Tree.sampleCall
      (.point ⟨0, 99⟩) .standard = .ok Move.sampleEdit := Move.run_sampleCall .wraps
  exact ⟨Tree.sampleCall_wellFormed, hrun,
    Mod.attempt_replaces_exactly Tree.sampleCall_wellFormed hrun⟩

end AnchoredEdit
