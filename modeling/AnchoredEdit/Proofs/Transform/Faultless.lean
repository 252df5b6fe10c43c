/-
`Proofs/Transform/Faultless.lean` -- nothing goes wrong on a tree that belongs to its source.

A transformation cuts the source at byte offsets, moves the cursor along with a text, reaches for
items by index and works out distances between lines. Each of these makes sense under a condition:
the offsets are in order and between characters, the cursor is not on a line above the text, the
index is one of the list, the difference is not negative. Where a condition fails, the first two
report a fault and the attempt ends with it. So an attempt without a fault is one whose every cut
and every move met its condition; the other conditions are stated about the lists and numbers
themselves.

The anchor is arbitrary: it may lie outside of the source or describe nothing in it. What makes the
conditions hold is that nothing is cut or moved before a node is found, and that a node which is
found for a position contains it.

One thing is left to go wrong. A cursor in a text of several lines may have any column, so in its new
place the column may be too large for its word. If sums wrap around, nothing comes of it. If they
fault, that is the only fault there is, and it takes a column almost as large as a word to get it.
-/
import AnchoredEdit.Proofs.Syntax.Locate
import AnchoredEdit.Proofs.Syntax.Ranking
import AnchoredEdit.Proofs.Transform.Exact

set_option autoImplicit false

namespace AnchoredEdit

/-! ## 1. What a fault is -/

/-- The computation comes to a result. -/
def Checked.Succeeds {α : Type} (x : Checked α) : Prop :=
  ∃ a, x = .ok a

/-- The attempt makes an edit or declines; it does not run into a fault. -/
def Attempt.Faultless {α : Type} (x : Attempt α) : Prop :=
  ∀ f, x ≠ .error (.fault f)

/-- **A slice succeeds exactly between two places to cut, in order.** -/
theorem Text.succeeds_slice_iff {t : Text} {start stop : Nat} :
    Checked.Succeeds (t.slice start stop) ↔
      start ≤ stop ∧ stop ≤ t.byteLength ∧ t.IsBoundary start ∧ t.IsBoundary stop := by
  constructor
  · rintro ⟨part, h⟩
    rw [slice_eq_ok_iff, slice?] at h
    split at h
    · next hle =>
      obtain ⟨⟨before, after⟩, hstop, h⟩ := Option.bind_eq_some_iff.mp h
      obtain ⟨⟨front, middle⟩, hstart, h⟩ := Option.bind_eq_some_iff.mp h
      obtain ⟨rfl, rfl⟩ := cut?_eq_some hstop
      obtain ⟨rfl, rfl⟩ := cut?_eq_some hstart
      refine ⟨hle, ?_, ?_, ?_⟩
      · rw [byteLength_append (front ++ middle) after]
        omega
      · exact isBoundary_iff.mpr ⟨front, middle ++ after, List.append_assoc _ _ _, rfl⟩
      · exact isBoundary_iff.mpr ⟨_, after, rfl, rfl⟩
    · cases h
  · rintro ⟨hle, -, hstart, hstop⟩
    obtain ⟨a, a', ha, rfl⟩ := isBoundary_iff.mp hstart
    obtain ⟨b, b', hb, rfl⟩ := isBoundary_iff.mp hstop
    obtain ⟨m, rfl, -⟩ := exists_append_of_byteLength_le (ha ▸ hb) hle
    exact ⟨m, slice_eq_ok hb rfl rfl⟩

/-- **A position has a place to move to exactly with a text that starts on its line or above.** The
other thing that can be wrong with the place is its size. -/
theorem Position.rebase_eq_lineBefore_iff {o : Overflow} {p origin target : Position} :
    p.rebase o origin target = .error (.lineBefore p origin) ↔ p.line < origin.line := by
  have hwords (moved : Position) : moved.inWords o ≠ .error (.lineBefore p origin) := by
    cases o with
    | wraps => nofun
    | faults =>
      unfold inWords
      dsimp only
      split <;> simp
  unfold rebase rebase?
  by_cases hbefore : p.line < origin.line
  · rw [if_pos hbefore]
    exact iff_of_true rfl hbefore
  · rw [if_neg hbefore]
    by_cases hline : p.line = origin.line
    · rw [if_pos hline]
      exact iff_of_false (hwords _) hbefore
    · rw [if_neg hline]
      exact iff_of_false (hwords _) hbefore

/-! ## 2. Computations one after the other -/

namespace Checked

variable {α β : Type}

theorem Succeeds.bind {x : Checked α} {f : α → Checked β} (hx : Succeeds x)
    (hf : ∀ a, Succeeds (f a)) : Succeeds (x >>= f) := by
  obtain ⟨a, rfl⟩ := hx
  exact hf a

theorem succeeds_pure (a : α) : Succeeds (pure a : Checked α) :=
  ⟨a, rfl⟩

theorem succeeds_mapM {f : α → Checked β} (hf : ∀ a, Succeeds (f a)) (l : List α) :
    Succeeds (l.mapM f) := by
  induction l with
  | nil => exact succeeds_pure []
  | cons a l ih =>
    rw [List.mapM_cons]
    exact (hf a).bind fun _ => ih.bind fun _ => succeeds_pure _

end Checked

namespace Attempt

variable {α β : Type} {x : Attempt α}

theorem faultless_ok (a : α) : Faultless (.ok a) :=
  fun _ h => nomatch h

/-- A cursor that lands and does not leave its words lands without a fault. -/
theorem Lands.faultless {o : Overflow} {target distance : Position} {f : Position → α}
    (h : Lands o target distance f x)
    (hfits : o = .wraps ∨ target.Fits ∧ (target + distance).Fits) : x.Faultless := by
  rcases hfits with hwraps | ⟨htarget, hcursor⟩
  · rw [h.wraps hwraps]
    exact faultless_ok _
  · rw [h.fits htarget hcursor]
    exact faultless_ok _

theorem Lands.faultless_or_overflows {o : Overflow} {target distance : Position}
    {f : Position → α} (h : Lands o target distance f x) : x.Faultless ∨ x.Overflows := by
  refine h.ok_or_overflows.imp_left ?_
  rintro ⟨b, rfl⟩
  exact faultless_ok b

theorem faultless_declined (f : Failure) : Faultless (.error (.declined f) : Attempt α) :=
  fun _ h => nomatch h

theorem Declines.faultless (h : x.Declines) : x.Faultless := by
  obtain ⟨why, rfl⟩ := h
  exact faultless_declined _

/-- A result that is needed and missing is no fault. -/
theorem faultless_need (why : NoMatch) (o : Option α) : (need why o).Faultless := by
  cases o with
  | none => exact faultless_declined _
  | some a => exact faultless_ok a

theorem Faultless.bind {f : α → Attempt β} (hx : x.Faultless)
    (hf : ∀ a, x = .ok a → (f a).Faultless) : (x >>= f).Faultless := by
  cases x with
  | ok a => exact hf a rfl
  | error halt =>
    cases halt with
    | declined failure => exact faultless_declined failure
    | fault fault => exact absurd rfl (hx fault)

end Attempt

theorem Checked.Succeeds.faultless {α : Type} {x : Checked α} (h : Succeeds x) :
    (Attempt.ofChecked x).Faultless := by
  obtain ⟨a, rfl⟩ := h
  exact Attempt.faultless_ok a

/-! ## 3. The transformations -/

open Attempt Checked

variable {t : Tree} {p : Position}

namespace Tree.WellFormed

/-- Every node has a text. -/
theorem succeeds_text (hwf : t.WellFormed) (i : t.Id) : Succeeds (t.text i) := by
  obtain ⟨before, text, after, hreads⟩ := hwf.exists_reads i
  exact ⟨text, hreads.text_eq⟩

theorem succeeds_node? (hwf : t.WellFormed) (anchor : Anchor) : Succeeds (anchor.node? t) := by
  cases anchor with
  | point p => exact succeeds_pure _
  | node d => exact hwf.exists_locate d

theorem succeeds_inside (hwf : t.WellFormed) (width : Nat) (atLimit : Bool) (i : t.Id) :
    Succeeds (t.inside width atLimit i) := by
  unfold inside
  split
  · split
    · exact (hwf.succeeds_text i).bind fun text => succeeds_pure _
    · exact succeeds_pure []
  · split
    · exact succeeds_pure _
    · exact succeeds_pure []

theorem succeeds_dumpLine (hwf : t.WellFormed) (marked : t.Id) (width depth : Nat)
    (atLimit : Bool) (i : t.Id) : Succeeds (t.dumpLine marked width depth atLimit i) :=
  (hwf.succeeds_inside width atLimit i).bind fun _ => succeeds_pure _

/-- The induction is on the levels that are left to show. -/
theorem succeeds_dumpLines (hwf : t.WellFormed) (marked : t.Id) (width levels : Nat) :
    ∀ depth i, Succeeds (t.dumpLines marked width levels depth i) := by
  induction levels with
  | zero =>
    intro depth i
    rw [dumpLines]
    exact (hwf.succeeds_dumpLine marked width depth true i).bind fun _ => succeeds_pure _
  | succ levels ih =>
    intro depth i
    rw [dumpLines]
    refine (hwf.succeeds_dumpLine marked width depth false i).bind fun line => ?_
    exact (succeeds_mapM (ih (depth + 1)) _).bind fun below => succeeds_pure _

theorem succeeds_dump (hwf : t.WellFormed) (top marked : t.Id) (levels width : Nat) :
    Succeeds (t.dump top marked levels width) :=
  (hwf.succeeds_dumpLines marked width levels 0 top).bind fun _ => succeeds_pure _

end Tree.WellFormed

theorem Move.run_faultless_or_overflows (hwf : t.WellFormed) (o : Overflow) (p : Position)
    (d : Direction) : (Move.run t o p d).Faultless ∨ (Move.run t o p d).Overflows := by
  rcases possible_or_declines hwf o p d with ⟨parent, haround, hpossible⟩ | hdeclines
  · obtain ⟨m⟩ := hpossible.exists_made hwf haround
    exact (m.lands_run hwf o).faultless_or_overflows
  · exact .inl hdeclines.faultless

theorem Move.run_faultless (hwf : t.WellFormed) {o : Overflow} {p : Position}
    (hroom : o = .wraps ∨ p.HasRoom (t.source.byteLength + separator.byteLength))
    (d : Direction) : (Move.run t o p d).Faultless := by
  rcases possible_or_declines hwf o p d with ⟨parent, haround, hpossible⟩ | hdeclines
  · obtain ⟨m⟩ := hpossible.exists_made hwf haround
    obtain ⟨e, he⟩ := m.exists_run hwf o hroom
    rw [he]
    exact faultless_ok e
  · exact hdeclines.faultless

/-- A call that is not known is no fault. -/
theorem Wrap.Made.run_faultless_of_error {weight : Nat} (m : Wrap.Made t p weight) {o : Overflow}
    {parser : Parser} (h : ∀ call, Wrap.callOf t parser m.text ≠ .ok call) :
    (Wrap.run t o parser p weight).Faultless := by
  rw [m.run_eq]
  refine Faultless.bind ?_ fun call hcall => absurd hcall (h call)
  unfold Wrap.callOf
  split
  · exact faultless_declined _
  · exact faultless_ok _

theorem Wrap.run_faultless_or_overflows (hwf : t.WellFormed) (o : Overflow) (parser : Parser)
    (p : Position) (weight : Nat) : (Wrap.run t o parser p weight).Faultless
      ∨ (Wrap.run t o parser p weight).Overflows := by
  rcases Wrap.exists_made_or_declines hwf o parser p weight with ⟨⟨m⟩⟩ | hdeclines
  · by_cases hcall : ∃ call, Wrap.callOf t parser m.text = .ok call
    · obtain ⟨call, hcall⟩ := hcall
      exact (m.lands_run hcall o).faultless_or_overflows
    · exact .inl (m.run_faultless_of_error (not_exists.mp hcall))
  · exact .inl hdeclines.faultless

theorem Wrap.run_faultless (hwf : t.WellFormed) {o : Overflow} {p : Position}
    (hroom : o = .wraps ∨ p.HasRoom (t.source.byteLength + arrow.byteLength))
    (parser : Parser) (weight : Nat) : (Wrap.run t o parser p weight).Faultless := by
  rcases Wrap.exists_made_or_declines hwf o parser p weight with ⟨⟨m⟩⟩ | hdeclines
  · by_cases hcall : ∃ call, Wrap.callOf t parser m.text = .ok call
    · obtain ⟨call, hcall⟩ := hcall
      exact (m.lands_run hcall o).faultless (hroom.imp_right m.fits)
    · exact m.run_faultless_of_error (not_exists.mp hcall)
  · exact hdeclines.faultless

theorem Delete.function_faultless (hwf : t.WellFormed) (anchor : Anchor) (weight : Nat) :
    (Delete.function t anchor weight).Faultless := by
  have hat : Succeeds (Delete.functionAt t anchor weight) := by
    cases anchor with
    | point p => exact succeeds_pure _
    | node d => exact Succeeds.bind (hwf.exists_locate d) fun _ => succeeds_pure _
  unfold Delete.function
  refine hat.faultless.bind fun found _ => ?_
  refine (faultless_need _ _).bind fun target _ => ?_
  exact (hwf.succeeds_text target).faultless.bind fun _ _ => faultless_ok _

theorem Delete.element_faultless (hwf : t.WellFormed) (anchor : Anchor) :
    (Delete.element t anchor).Faultless := by
  unfold Delete.element
  refine (hwf.succeeds_node? anchor).faultless.bind fun found _ => ?_
  refine (faultless_need _ _).bind fun start _ => ?_
  refine (faultless_need _ _).bind fun tag _ => ?_
  exact (hwf.succeeds_text tag).faultless.bind fun _ _ => faultless_ok _

theorem Describe.run_faultless (hwf : t.WellFormed) (anchor : Anchor) (reach : Describe.Reach) :
    (Describe.run t anchor reach).Faultless := by
  unfold Describe.run
  refine (hwf.succeeds_node? anchor).faultless.bind fun found _ => ?_
  refine (faultless_need _ _).bind fun anchored _ => ?_
  exact (hwf.succeeds_dump _ _ _ _).faultless.bind fun _ _ => faultless_declined _

/-! ## 4. Items by index -/

namespace Move

/-- The two indices of a list of `length` items that the item at `index` is exchanged at, unless
it is the last one in that direction. -/
def neighbours? (d : Direction) (index length : Nat) : Option (Nat × Nat) :=
  match d with
  | .left => if index = 0 then none else some (index - 1, index)
  | .right => if index + 1 = length then none else some (index, index + 1)

variable {o : Overflow} {parent : t.Id} {d : Direction} {index a b : Nat}

/-- **Items are exchanged at two indices of their list.** -/
theorem exchangeItems_eq_exchangePair
    (hindex : (t.items parent).findIdx? (fun i => t.covers i p) = some index)
    (hpair : neighbours? d index (t.items parent).length = some (a, b)) :
    ∃ first second, (t.items parent)[a]? = some first ∧ (t.items parent)[b]? = some second
      ∧ exchangeItems t o p d parent = exchangePair t o p d first second := by
  -- The first item around the cursor splits the list at its index.
  obtain ⟨hlt, hfind⟩ := List.findIdx?_eq_some_iff_findIdx_eq.mp hindex
  have hbefore : (t.items parent).takeWhile (fun i => !t.covers i p)
      = (t.items parent).take index := by
    rw [List.takeWhile_eq_take_findIdx_not, ← hfind]
    simp only [Bool.not_not]
  have hafter : (t.items parent).dropWhile (fun i => !t.covers i p)
      = (t.items parent)[index] :: (t.items parent).drop (index + 1) := by
    rw [List.dropWhile_eq_drop_findIdx_not, ← List.drop_eq_getElem_cons hlt, ← hfind]
    simp only [Bool.not_not]
  simp only [exchangeItems, hbefore, hafter]
  cases d with
  | left =>
    rw [neighbours?] at hpair
    split at hpair
    · cases hpair
    · next hne =>
      cases hpair
      have hprevious : index - 1 < (t.items parent).length := by omega
      refine ⟨_, _, List.getElem?_eq_getElem hprevious, List.getElem?_eq_getElem hlt, ?_⟩
      have hlast : ((t.items parent).take index).getLast? = some (t.items parent)[index - 1] := by
        rw [List.getLast?_take, if_neg hne, List.getElem?_eq_getElem hprevious]
        rfl
      simp only [hlast]
  | right =>
    rw [neighbours?] at hpair
    split at hpair
    · cases hpair
    · cases hpair
      have hnext : index + 1 < (t.items parent).length := by omega
      refine ⟨_, _, List.getElem?_eq_getElem hlt, List.getElem?_eq_getElem hnext, ?_⟩
      simp only [List.drop_eq_getElem_cons hnext]

end Move

/-! ## 5. Every transformation -/

theorem Text.isBoundary_take (text : Text) (width : Nat) :
    text.IsBoundary (Text.byteLength (text.take width)) :=
  isBoundary_iff.mpr ⟨text.take width, text.drop width, (List.take_append_drop _ _).symm, rfl⟩

/-- The only fault of a transformation is a sum that leaves its word. -/
theorem Mod.attempt_faultless_or_overflows (hwf : t.WellFormed) (m : Mod) (o : Overflow)
    (parser : Parser) (anchor : Anchor) (c : Config) :
    (m.attempt o parser t anchor c).Faultless ∨ (m.attempt o parser t anchor c).Overflows := by
  cases m with
  | moveLeft => exact Move.run_faultless_or_overflows hwf o anchor.position .left
  | moveRight => exact Move.run_faultless_or_overflows hwf o anchor.position .right
  | pointFreeToAnon =>
    exact Wrap.run_faultless_or_overflows hwf o parser anchor.position c.lineWeight
  | deleteFunction => exact .inl (Delete.function_faultless hwf anchor c.lineWeight)
  | deleteClosestTag => exact .inl (Delete.element_faultless hwf anchor)
  | debugNodeUnderCursor => exact .inl (Describe.run_faultless hwf anchor _)

/-- Without such a sum, no transformation runs into a fault. An arrow is the longest text that a
transformation adds in front of the cursor. -/
theorem Mod.attempt_faultless (hwf : t.WellFormed) (m : Mod) {o : Overflow} (parser : Parser)
    {anchor : Anchor} (c : Config) (hroom : o = .wraps
      ∨ anchor.position.HasRoom (t.source.byteLength + Wrap.arrow.byteLength)) :
    (m.attempt o parser t anchor c).Faultless := by
  have hmove : o = .wraps
      ∨ anchor.position.HasRoom (t.source.byteLength + Move.separator.byteLength) :=
    hroom.imp_right fun h => h.mono (Nat.add_le_add_left (by decide) _)
  cases m with
  | moveLeft => exact Move.run_faultless hwf hmove .left
  | moveRight => exact Move.run_faultless hwf hmove .right
  | pointFreeToAnon => exact Wrap.run_faultless hwf hroom parser c.lineWeight
  | deleteFunction => exact Delete.function_faultless hwf anchor c.lineWeight
  | deleteClosestTag => exact Delete.element_faultless hwf anchor
  | debugNodeUnderCursor => exact Describe.run_faultless hwf anchor _

/-- **On a tree that belongs to its source nothing goes wrong**, wherever the anchor is.

* Where sums wrap around, no transformation runs into a fault.
* Where sums that leave their words are refused, such a sum is the only fault that there is, and
  there is none if the column of the cursor leaves room for the bytes of the source and of an arrow.

So, whatever becomes of such sums,

* every cut that a transformation makes in the source is between two offsets in order, inside the
  source and between characters, and
* every cursor that it moves is not above the line of the text that it moves with.

As long as the weight of a line keeps the ranks of the nodes around the cursor in range,

* ranking them in checked arithmetic goes through, and it finds the candidate that the
  transformation takes.

Besides,

* links between nodes are indices of the arena, and the items that are exchanged are at two
  indices of their list,
* a text has at least the bytes up to its last line break and the break itself, so the column
  behind it, which is where a writer stands, is not negative, and
* a leaf's text is cut short between two characters. -/
theorem Mod.attempt_never_faults (hwf : t.WellFormed) (c : Config) (anchor : Anchor)
    (hweight : t.WeightFits anchor.position c.lineWeight) (m : Mod) (parser : Parser) :
    (∀ fault, m.attempt .wraps parser t anchor c ≠ .error (.fault fault))
      ∧ (∀ fault, m.attempt .faults parser t anchor c = .error (.fault fault) →
          (∃ exact : Position, fault = .overflow exact ∧ ¬ exact.Fits)
            ∧ ¬ anchor.position.HasRoom (t.source.byteLength + Wrap.arrow.byteLength))
      ∧ (∀ start stop, Succeeds (t.source.slice start stop) ↔
          start ≤ stop ∧ stop ≤ t.source.byteLength
            ∧ t.source.IsBoundary start ∧ t.source.IsBoundary stop)
      ∧ (∀ (o : Overflow) (q origin target : Position),
          q.rebase o origin target = .error (.lineBefore q origin) ↔ q.line < origin.line)
      ∧ (∀ candidates, t.scan? anchor.position c.lineWeight none candidates
          = some (t.smallestAround candidates anchor.position c.lineWeight))
      ∧ (∀ (i link : Nat) (h : i < t.nodes.size), t.nodes[i].parent = some link →
          link < t.nodes.size)
      ∧ (∀ o parent index d a b,
          (t.items parent).findIdx? (fun i => t.covers i anchor.position) = some index →
          Move.neighbours? d index (t.items parent).length = some (a, b) →
          ∃ first second, (t.items parent)[a]? = some first ∧ (t.items parent)[b]? = some second
            ∧ Move.exchangeItems t o anchor.position d parent
              = Move.exchangePair t o anchor.position d first second)
      ∧ (∀ (q : Position) text n, Text.lastBreak? text = some n →
          n + 1 ≤ text.byteLength
            ∧ q.advance text = ⟨q.line + text.count '\n', text.byteLength - n - 1⟩)
      ∧ (∀ (text : Text) width, text.IsBoundary (Text.byteLength (text.take width))) := by
  refine ⟨Mod.attempt_faultless hwf m parser c (.inl rfl), ?refused, ?slices, ?moves, ?ranks,
    ?links, ?indices, ?columns, Text.isBoundary_take⟩
  case refused =>
    intro fault hfault
    constructor
    · rcases Mod.attempt_faultless_or_overflows hwf m .faults parser anchor c with
        hnone | ⟨exact, hexact, hover⟩
      · exact absurd hfault (hnone fault)
      · rw [hover] at hfault
        cases hfault
        exact ⟨exact, rfl, hexact⟩
    · intro hroom
      exact Mod.attempt_faultless hwf m parser c (.inr hroom) fault hfault
  case slices =>
    intro start stop
    exact Text.succeeds_slice_iff
  case moves =>
    intro o q origin target
    exact Position.rebase_eq_lineBefore_iff
  case ranks => exact hweight.scan?_none
  case links =>
    intro i link hi hlink
    exact Nat.lt_trans (t.parent_lt i hi link hlink) hi
  case indices =>
    intro o parent index d a b hindex hpair
    exact Move.exchangeItems_eq_exchangePair hindex hpair
  case columns =>
    intro q text n hlast
    have hadvance := Text.advance_eq_of_lastBreak? q text
    rw [hlast] at hadvance
    exact ⟨Text.lastBreak?_lt hlast, hadvance⟩

/-- A description of nothing in `sampleCall`: it stops before it starts, and the cursor is past the
end of the first line. -/
def Anchor.sampleStray : Anchor :=
  .node ⟨⟨⟨9, 9⟩, ⟨0, 3⟩⟩, [], "identifier", some ⟨0, 9⟩⟩

theorem Tree.sampleCall_weightFits :
    sampleCall.WeightFits Anchor.sampleStray.position Config.standard.lineWeight := by
  have hwords : ∀ i, IsWord (sampleCall.span i).columns
      ∧ IsWord ((sampleCall.span i).lineExtent Config.standard.lineWeight)
      ∧ IsWord ((sampleCall.span i).lineExtent Config.standard.lineWeight
        + (sampleCall.span i).columns) := by
    decide
  intro i _
  obtain ⟨hcolumns, hlines, hsum⟩ := hwords i
  exact ⟨hcolumns, hlines, hsum⟩

/-- With that anchor, exchanging two items goes through, also where sums are refused. -/
theorem Mod.attempt_never_faults_sampleStray :
    Tree.sampleCall.WellFormed
      ∧ Tree.sampleCall.WeightFits Anchor.sampleStray.position Config.standard.lineWeight
      ∧ (∀ fault, Mod.moveRight.attempt .wraps (fun _ _ => none) Tree.sampleCall
          Anchor.sampleStray Config.standard ≠ .error (.fault fault))
      ∧ ∀ fault, Mod.moveRight.attempt .faults (fun _ _ => none) Tree.sampleCall
          Anchor.sampleStray Config.standard ≠ .error (.fault fault) := by
  obtain ⟨hwraps, hrefused, -⟩ := Mod.attempt_never_faults Tree.sampleCall_wellFormed
    Config.standard Anchor.sampleStray Tree.sampleCall_weightFits .moveRight fun _ _ => none
  refine ⟨Tree.sampleCall_wellFormed, Tree.sampleCall_weightFits, hwraps, ?_⟩
  intro fault hfault
  have hroom : Anchor.sampleStray.position.HasRoom
      (Tree.sampleCall.source.byteLength + Wrap.arrow.byteLength) := by
    decide
  exact (hrefused fault hfault).2 hroom

end AnchoredEdit
