/-
`Proofs/Transform/Cursor.lean` -- the cursor follows the text it stood on.

Three transformations write the node under the cursor once more, somewhere else: moving left,
moving right, and wrapping a reference. Where the cursor goes is computed with lines and columns
from texts that were cut by bytes. It comes to this: the node has a copy in what the edit writes,
and the cursor is as many bytes into the copy as it was into the node. Lines and columns are
computed in words, so what can come between is a column that does not fit. Where sums fault, there
is no edit then; where they wrap around, the cursor is the remainder of where it belongs.

A column past the end of a line stands for the end of that line. A cursor in such a place keeps
its distance as a position, and since the copy has the same lines as the node, the two
distances stand for the same number of bytes.
-/
import AnchoredEdit.Proofs.Transform.Exact

set_option autoImplicit false

namespace AnchoredEdit

/-! ## 1. Edits that keep the cursor -/

/-- The bytes from `start` to `stop` of the source, with the cursor `p` on them, have a copy that
starts at byte `byte` of the result. The copy is part of what the edit writes, and `target` is as
far into it as `p` was into the original. -/
def Edit.Keeps (e : Edit) (source : Text) (p target : Position) (start stop byte : Nat) : Prop :=
  ∃ result text k, e.spliceInto? source = some result
    ∧ source.slice? start stop = some text
    ∧ result.slice? byte (byte + (stop - start)) = some text
    ∧ (∃ offset lead rest, source.offsetOf? e.span.start = some offset
        ∧ e.replacement = lead ++ text ++ rest ∧ byte = offset + lead.byteLength)
    ∧ k < stop - start
    ∧ source.offsetOf? p = some (start + k)
    ∧ result.offsetOf? target = some (byte + k)

/-- **An edit that writes a text once more keeps the cursor**, which belongs into the copy where it
was in the text. -/
theorem Edit.Replaces.keeps {e : Edit} {source front back before text after lead rest : Text}
    {offset stop : Nat} {p q : Position} (h : e.Replaces source offset stop front back)
    (hsource : source = before ++ text ++ after)
    (hreplacement : e.replacement = lead ++ text ++ rest) (hq : q < text.extent)
    (hp : p = before.extent + q) :
    e.Keeps source p ((front ++ lead).extent + q) before.byteLength (before ++ text).byteLength
      (front ++ lead).byteLength := by
  obtain ⟨k, hk, hoffset⟩ := Text.exists_offsetOf?_of_lt hq
  have hsize : (before ++ text).byteLength - before.byteLength = text.byteLength := by
    rw [Text.byteLength_append]
    omega
  have hresult : e.spliceInto? source = some (front ++ lead ++ text ++ (rest ++ back)) := by
    rw [h.splice, hreplacement]
    simp only [List.append_assoc]
  have hfront : front.byteLength = offset := (Text.cut?_eq_some h.cut_start).2
  refine ⟨_, text, k, hresult, ?_, ?_, ⟨offset, lead, rest, h.offset_start,
    hreplacement, ?_⟩, ?_, ?_, ?_⟩
  · rw [hsource]
    exact Text.slice?_append _ _ _
  · rw [hsize, ← Text.byteLength_append]
    exact Text.slice?_append _ _ _
  · rw [Text.byteLength_append, hfront]
  · rw [hsize]
    exact hk
  -- Both offsets are found behind a first part, in a text that starts with the same piece.
  · rw [hsource, hp, List.append_assoc, Text.offsetOf?_append_add, hoffset]
    rfl
  · rw [List.append_assoc, Text.offsetOf?_append_add, hoffset]
    rfl

/-! ## 2. The transformations -/

variable {t : Tree} {o : Overflow} {p : Position} {e : Edit}

theorem Move.Made.keeps {d : Direction} (m : Move.Made t p d) (cursor : Position) :
    (m.edit cursor).Keeps t.source p m.target (t.startByte m.node) (t.endByte m.node) m.byte := by
  have hreads := m.reads
  obtain ⟨lead, rest, hlead, -, hreplacement⟩ := m.copy.exists_replacement m.offered m.layout
  have hkeeps := (m.replaces cursor).keeps hreads.source hreplacement m.inside m.point_eq
  rw [← hlead, m.byte_eq, ← hreads.startByte, ← hreads.endByte] at hkeeps
  exact hkeeps

/-- The cursor of the edit is the remainder of `target`. It is `target` itself if sums fault, and if
there is room for the result. -/
def Edit.Targets (e : Edit) (o : Overflow) (source : Text) (p target : Position) : Prop :=
  e.cursor = some target.wrap
    ∧ (o = .faults ∨ (∀ result, e.spliceInto? source = some result →
        p.HasRoom result.byteLength) → e.cursor = some target)

theorem Edit.targets_of_fits {source result : Text} {p target : Position}
    (hcursor : e.cursor = some target.wrap) (hsplice : e.spliceInto? source = some result)
    (hfaults : o = .faults → target.Fits)
    (hroom : p.HasRoom result.byteLength → target.Fits) : e.Targets o source p target := by
  refine ⟨hcursor, ?_⟩
  intro h
  have hfits : target.Fits := h.elim hfaults fun hall => hroom (hall result hsplice)
  rw [hcursor, Position.wrap_of_fits hfits]

theorem Move.exists_keeps (hwf : t.WellFormed) {d : Direction} (h : Move.run t o p d = .ok e) :
    ∃ m : Move.Made t p d,
      e.Keeps t.source p m.target (t.startByte m.node) (t.endByte m.node) m.byte
        ∧ e.Targets o t.source p m.target := by
  obtain ⟨m, rfl, hfaults⟩ := Move.exists_made_of_run_eq_ok hwf h
  exact ⟨m, m.keeps _, Edit.targets_of_fits rfl (m.replaces _).splice hfaults
    fun hroom => (m.fits hroom).2⟩

theorem Wrap.exists_keeps (hwf : t.WellFormed) {parser : Parser} {weight : Nat}
    (h : Wrap.run t o parser p weight = .ok e) :
    ∃ m : Wrap.Made t p weight,
      e.Keeps t.source p m.target (t.startByte m.node) (t.endByte m.node)
          (t.startByte m.node + Wrap.arrow.byteLength)
        ∧ e.Targets o t.source p m.target := by
  obtain ⟨m, call, -, rfl, hfaults⟩ := Wrap.exists_made_of_run_eq_ok hwf h
  have hreplaces := m.replaces call m.target.wrap
  have hkeeps := hreplaces.keeps m.reads.source rfl m.inside m.point_eq
  rw [Text.byteLength_append m.before Wrap.arrow, ← m.reads.startByte, ← m.reads.endByte] at hkeeps
  refine ⟨m, hkeeps, Edit.targets_of_fits rfl hreplaces.splice hfaults fun hroom => ?_⟩
  have hresult : m.before ++ (m.edit call m.target.wrap).replacement ++ m.after
      = m.before ++ Wrap.arrow ++ m.text ++ (call ++ m.after) := by
    simp only [Wrap.Made.edit, List.append_assoc]
  rw [hresult] at hroom
  exact (Text.fits_of_hasRoom m.inside m.point_eq hroom).2

/-- `Mod.Carried t p weight m i byte`: node `i` carries the cursor `p` when transformation `m`
succeeds, and its copy starts at byte `byte` of the result. For a move it is a node that an
exchange offered around the cursor takes along; for a wrap it is the wrapped reference. -/
inductive Mod.Carried (t : Tree) (p : Position) (weight : Nat) : Mod → t.Id → Nat → Prop
  | left {parent i : t.Id} {x : Exchange t} {byte : Nat}
      (haround : t.sequenceAround p = some parent) (hoffered : x.Offered parent)
      (hcarries : x.Carries .left i byte) : Carried t p weight .moveLeft i byte
  | right {parent i : t.Id} {x : Exchange t} {byte : Nat}
      (haround : t.sequenceAround p = some parent) (hoffered : x.Offered parent)
      (hcarries : x.Carries .right i byte) : Carried t p weight .moveRight i byte
  | wrapped {i : t.Id} (htarget : Wrap.Target t p weight i) :
      Carried t p weight .pointFreeToAnon i (t.startByte i + Wrap.arrow.byteLength)

/-- **The cursor follows the moved text.** The place where it belongs is as many bytes into the copy
of the node as the cursor was into the node. The cursor of the edit is that place, except that its
words may wrap around. They do not if sums that leave their words are refused, nor if the column of
the cursor leaves room for the bytes of the result. -/
theorem Mod.cursor_follows_text {m : Mod} {parser : Parser} {anchor : Anchor} {c : Config}
    (hwf : t.WellFormed) (hm : m = .moveLeft ∨ m = .moveRight ∨ m = .pointFreeToAnon)
    (h : m.attempt o parser t anchor c = .ok e) :
    ∃ i byte target, Mod.Carried t anchor.position c.lineWeight m i byte
      ∧ t.covers i anchor.position = true
      ∧ e.Keeps t.source anchor.position target (t.startByte i) (t.endByte i) byte
      ∧ e.cursor = some target.wrap
      ∧ (o = .faults ∨ (∀ result, e.spliceInto? t.source = some result →
          anchor.position.HasRoom result.byteLength) → e.cursor = some target) := by
  rcases hm with rfl | rfl | rfl
  · obtain ⟨made, hkeeps, htargets⟩ := Move.exists_keeps hwf h
    exact ⟨_, _, _, .left made.around made.offered made.carries, made.covers, hkeeps, htargets⟩
  · obtain ⟨made, hkeeps, htargets⟩ := Move.exists_keeps hwf h
    exact ⟨_, _, _, .right made.around made.offered made.carries, made.covers, hkeeps, htargets⟩
  · obtain ⟨made, hkeeps, htargets⟩ := Wrap.exists_keeps hwf h
    exact ⟨_, _, _, .wrapped made.found, made.found.covers hwf, hkeeps, htargets⟩

/-- The cursor lies past the end of the first of two lines, with room for the result. -/
theorem Mod.cursor_follows_text_sampleCall :
    Tree.sampleCall.WellFormed
      ∧ Mod.moveRight.attempt .wraps (fun _ _ => some Tree.sampleCall) Tree.sampleCall
          (.point ⟨0, 99⟩) .standard = .ok Move.sampleEdit
      ∧ ∃ i byte, Mod.Carried Tree.sampleCall ⟨0, 99⟩ 1000 .moveRight i byte
          ∧ Tree.sampleCall.covers i ⟨0, 99⟩ = true
          ∧ Move.sampleEdit.Keeps Tree.sampleCall.source ⟨0, 99⟩ ⟨0, 102⟩
              (Tree.sampleCall.startByte i) (Tree.sampleCall.endByte i) byte := by
  have hrun : Mod.moveRight.attempt .wraps (fun _ _ => some Tree.sampleCall) Tree.sampleCall
      (.point ⟨0, 99⟩) .standard = .ok Move.sampleEdit := Move.run_sampleCall .wraps
  have hresult : Move.sampleEdit.spliceInto? Tree.sampleCall.source
      = some "f(b, [á,\n1])".toList := rfl
  obtain ⟨i, byte, target, hcarried, hcovers, hkeeps, -, hexact⟩ :=
    Mod.cursor_follows_text Tree.sampleCall_wellFormed (.inr (.inl rfl)) hrun
  obtain rfl : ⟨0, 102⟩ = target := by
    refine Option.some.inj (hexact (.inr ?_))
    rintro result hsplice
    obtain rfl := Option.some.inj (hresult.symm.trans hsplice)
    decide
  exact ⟨Tree.sampleCall_wellFormed, hrun, i, byte, hcarried, hcovers, hkeeps⟩

/-- With the largest column that fits, the cursor wraps around or the move is refused. -/
example :
    (Move.run Tree.sampleCall .wraps ⟨0, wordCount - 1⟩ .right).toOption
        = some { Move.sampleEdit with cursor := some ⟨0, 2⟩ }
      ∧ (Move.run Tree.sampleCall .faults ⟨0, wordCount - 1⟩ .right).toOption = none := by
  decide +kernel

end AnchoredEdit
