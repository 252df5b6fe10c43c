/-
`Proofs/Session/Walk.lean` -- an item that walks through its list.

A session in which the item at the cursor is moved again and again has no memory of that item:
each step parses the source it finds and takes whatever item the cursor is on. That the same item
goes on walking is a fact about the cursor, and it carries a whole run.

The list is seen from the item that walks, the *pivot*: its neighbours to the left and to the
right, nearest first, each with the gap that lies between it and the pivot's side. A move takes
the nearest neighbour from one side to the other and leaves a separator in the gap that was
crossed. So one step of the session is one step of the list (`Session.step_move`), and what a run
keeps is read off the list: the pivot passes the other items and changes nothing else. The cursor
has to stay in its words for that, and how much room it needs is read off the list as well.
-/
import AnchoredEdit.Proofs.Transform.MoveRule
import AnchoredEdit.Session

set_option autoImplicit false

namespace AnchoredEdit

/-! ## 1. Items and gaps -/

namespace Text

/-- Items one after the other, each followed by its gap; the last one needs none. -/
def weave : (items gaps : List Text) → Text
  | [], _ => []
  | item :: items, gaps => item ++ gaps.headD [] ++ weave items gaps.tail

/-- The first byte of each item and the byte behind it, if the first item starts at `start`. -/
def placesFrom (start : Nat) : (items gaps : List Text) → List (Nat × Nat)
  | [], _ => []
  | item :: items, gaps =>
    (start, start + item.byteLength) ::
      placesFrom (start + item.byteLength + (gaps.headD []).byteLength) items gaps.tail

theorem weave_append {xs gs : List Text} (ys hs : List Text) (h : gs.length = xs.length) :
    weave (xs ++ ys) (gs ++ hs) = weave xs gs ++ weave ys hs := by
  induction xs generalizing gs with
  | nil =>
    rw [List.length_eq_zero_iff.mp h]
    rfl
  | cons x xs ih =>
    obtain ⟨g, gs, rfl⟩ := List.exists_cons_of_length_eq_add_one h
    have hgs : gs.length = xs.length := by simpa using h
    simp only [List.cons_append, weave, List.headD_cons, List.tail_cons, ih hgs,
      List.append_assoc]

theorem placesFrom_append {xs gs : List Text} (ys hs : List Text) (start : Nat)
    (h : gs.length = xs.length) : placesFrom start (xs ++ ys) (gs ++ hs)
      = placesFrom start xs gs ++ placesFrom (start + (weave xs gs).byteLength) ys hs := by
  induction xs generalizing gs start with
  | nil =>
    rw [List.length_eq_zero_iff.mp h]
    rfl
  | cons x xs ih =>
    obtain ⟨g, gs, rfl⟩ := List.exists_cons_of_length_eq_add_one h
    have hgs : gs.length = xs.length := by simpa using h
    simp only [List.cons_append, placesFrom, weave, List.headD_cons, List.tail_cons, ih _ hgs,
      byteLength_append, Nat.add_assoc]

theorem length_placesFrom (start : Nat) (items gaps : List Text) :
    (placesFrom start items gaps).length = items.length := by
  induction items generalizing start gaps with
  | nil => rfl
  | cons item items ih => rw [placesFrom, List.length_cons, List.length_cons, ih]

end Text

/-! ## 2. A list seen from one of its items -/

/-- An item beside the pivot, and the gap on that side of it which faces the pivot. -/
structure Neighbour where
  item : Text
  gap : Text
deriving DecidableEq, Inhabited, Repr

namespace Neighbour

/-- The text of the neighbours to the left, given nearest first. -/
def textBefore : List Neighbour → Text
  | [] => []
  | n :: rest => textBefore rest ++ n.item ++ n.gap

/-- The text of the neighbours to the right, given nearest first. -/
def textAfter : List Neighbour → Text
  | [] => []
  | n :: rest => n.gap ++ n.item ++ textAfter rest

theorem weave_left (left : List Neighbour) :
    Text.weave (left.map (·.item)).reverse (left.map (·.gap)).reverse = textBefore left := by
  induction left with
  | nil => rfl
  | cons n rest ih =>
    simp only [List.map_cons, List.reverse_cons]
    rw [Text.weave_append _ _ (by simp), ih]
    simp [Text.weave, textBefore]

theorem weave_right (pivot : Text) (right : List Neighbour) :
    Text.weave (pivot :: right.map (·.item)) (right.map (·.gap)) = pivot ++ textAfter right := by
  induction right generalizing pivot with
  | nil => simp [Text.weave, textAfter]
  | cons n rest ih =>
    rw [List.map_cons, List.map_cons, Text.weave, List.headD_cons, List.tail_cons, ih]
    simp only [textAfter, List.append_assoc]

end Neighbour

/-- A source that holds a list, seen from the item that the cursor is on. -/
structure Listing where
  /-- What comes before the first item. -/
  front : Text
  /-- The items to the left of the pivot, nearest first. -/
  left : List Neighbour
  pivot : Text
  /-- The items to the right of the pivot, nearest first. -/
  right : List Neighbour
  /-- What comes after the last item. -/
  back : Text
  /-- How far into the pivot the cursor is. -/
  distance : Position
  inside : distance < pivot.extent

namespace Listing

open Move

variable (l : Listing)

/-- The items in the order of the source. -/
def items : List Text :=
  (l.left.map (·.item)).reverse ++ l.pivot :: l.right.map (·.item)

/-- The gaps in the order of the source: number `j` lies between the items `j` and `j + 1`. -/
def gaps : List Text :=
  (l.left.map (·.gap)).reverse ++ l.right.map (·.gap)

/-- The place of the pivot among the items, counted from zero. -/
def index : Nat :=
  l.left.length

/-- The whole source. -/
def source : Text :=
  l.front ++ Text.weave l.items l.gaps ++ l.back

/-- The bytes that each item covers. -/
def places : List (Nat × Nat) :=
  Text.placesFrom l.front.byteLength l.items l.gaps

/-- What comes before the pivot. -/
def lead : Text :=
  l.front ++ Neighbour.textBefore l.left

/-- What comes after the pivot. -/
def trail : Text :=
  Neighbour.textAfter l.right ++ l.back

/-- Where the cursor is. -/
def cursor : Position :=
  l.lead.extent + l.distance

/-- Both the start of the pivot and the cursor are made of words. -/
def InWords : Prop :=
  l.lead.extent.Fits ∧ l.cursor.Fits

instance : Decidable l.InWords :=
  inferInstanceAs (Decidable (l.lead.extent.Fits ∧ l.cursor.Fits))

/-- The list after the pivot moved: it has traded places with its neighbour, and a separator
stands between the two. At an end of the list nothing changes. -/
def move : Direction → Listing
  | .left =>
    match l.left with
    | [] => l
    | n :: rest => { l with left := rest, right := ⟨n.item, separator⟩ :: l.right }
  | .right =>
    match l.right with
    | [] => l
    | n :: rest => { l with left := ⟨n.item, separator⟩ :: l.left, right := rest }

/-- The list after several moves. -/
def walk (ds : List Direction) : Listing :=
  ds.foldl move l

/-- The pivot is the first item, or the last one. -/
def AtEnd : Direction → Prop
  | .left => l.index = 0
  | .right => l.index + 1 = l.items.length

/-- The gap `j` lies between the places of the pivot before and after a move in direction `d`. -/
def Crosses (d : Direction) (j : Nat) : Prop :=
  l.index = j ∧ (l.move d).index = j + 1 ∨ l.index = j + 1 ∧ (l.move d).index = j

/-- The gap `j` is crossed by one of the moves `ds`. -/
def Crossed (ds : List Direction) (j : Nat) : Prop :=
  ∃ before d, before ++ [d] <+: ds ∧ (l.walk before).Crosses d j

variable {l} {n : Neighbour} {rest : List Neighbour}

theorem source_eq (l : Listing) : l.source = l.lead ++ l.pivot ++ l.trail := by
  rw [source, items, gaps, Text.weave_append _ _ (by simp), Neighbour.weave_left,
    Neighbour.weave_right]
  simp only [lead, trail, List.append_assoc]

theorem items_of_left (h : l.left = n :: rest) : l.items
    = (rest.map (·.item)).reverse ++ n.item :: l.pivot :: l.right.map (·.item) := by
  simp [items, h]

theorem gaps_of_left (h : l.left = n :: rest) :
    l.gaps = (rest.map (·.gap)).reverse ++ n.gap :: l.right.map (·.gap) := by
  simp [gaps, h]

theorem items_of_right (h : l.right = n :: rest) : l.items
    = (l.left.map (·.item)).reverse ++ l.pivot :: n.item :: rest.map (·.item) := by
  simp [items, h]

theorem gaps_of_right (h : l.right = n :: rest) :
    l.gaps = (l.left.map (·.gap)).reverse ++ n.gap :: rest.map (·.gap) := by
  simp [gaps, h]

/-- The bytes of the items from some item on. -/
theorem places_append {xs gs ys hs : List Text} (hitems : l.items = xs ++ ys)
    (hgaps : l.gaps = gs ++ hs) (h : gs.length = xs.length) : l.places
      = Text.placesFrom l.front.byteLength xs gs
        ++ Text.placesFrom (l.front ++ Text.weave xs gs).byteLength ys hs := by
  rw [places, hitems, hgaps, Text.placesFrom_append _ _ _ h, Text.byteLength_append]

theorem places_pivot (l : Listing) : ∃ before after, l.places
      = before ++ (l.lead.byteLength, l.lead.byteLength + l.pivot.byteLength) :: after
    ∧ before.length = l.left.length ∧ after.length = l.right.length := by
  have hplaces := places_append (l := l) rfl rfl (by simp)
  rw [Neighbour.weave_left, Text.placesFrom] at hplaces
  refine ⟨_, _, hplaces, ?_, ?_⟩
  · rw [Text.length_placesFrom, List.length_reverse, List.length_map]
  · rw [Text.length_placesFrom, List.length_map]

/-- Two neighbours and the bytes that they and their gap cover. -/
theorem infix_places {xs gs ys hs : List Text} {a g b : Text}
    (hitems : l.items = xs ++ a :: b :: ys) (hgaps : l.gaps = gs ++ g :: hs)
    (h : gs.length = xs.length) {u : Text} (hu : l.front ++ Text.weave xs gs = u) :
    [(u.byteLength, u.byteLength + a.byteLength),
      (u.byteLength + a.byteLength + g.byteLength,
        u.byteLength + a.byteLength + g.byteLength + b.byteLength)] <:+: l.places := by
  have hplaces := places_append hitems hgaps h
  rw [hu, Text.placesFrom, Text.placesFrom, List.headD_cons, List.tail_cons] at hplaces
  exact ⟨_, _, by rw [hplaces, List.append_assoc]; rfl⟩

theorem atEnd_left_iff : l.AtEnd .left ↔ l.left = [] :=
  List.length_eq_zero_iff

theorem atEnd_right_iff : l.AtEnd .right ↔ l.right = [] := by
  rw [← List.length_eq_zero_iff, AtEnd, index, items]
  simp only [List.length_append, List.length_reverse, List.length_map, List.length_cons]
  omega

/-! ## 3. What a move of the pivot keeps -/

/-- **All that a move can do.** -/
theorem move_cases (l : Listing) (d : Direction) :
    (l.AtEnd d ∧ l.move d = l)
      ∨ (∃ n rest, d = .left ∧ l.left = n :: rest
          ∧ l.move d = { l with left := rest, right := ⟨n.item, separator⟩ :: l.right })
      ∨ (∃ n rest, d = .right ∧ l.right = n :: rest
          ∧ l.move d = { l with left := ⟨n.item, separator⟩ :: l.left, right := rest }) := by
  cases d with
  | left =>
    rw [atEnd_left_iff, move]
    split
    · next h => exact .inl ⟨h, rfl⟩
    · next n rest h => exact .inr (.inl ⟨n, rest, rfl, h, rfl⟩)
  | right =>
    rw [atEnd_right_iff, move]
    split
    · next h => exact .inl ⟨h, rfl⟩
    · next n rest h => exact .inr (.inr ⟨n, rest, rfl, h, rfl⟩)

theorem move_of_atEnd {d : Direction} (h : l.AtEnd d) : l.move d = l := by
  cases d with
  | left => rw [move, atEnd_left_iff.mp h]
  | right => rw [move, atEnd_right_iff.mp h]

/-- Only the neighbours of the pivot change. -/
theorem move_rest (l : Listing) (d : Direction) : (l.move d).front = l.front
    ∧ (l.move d).pivot = l.pivot ∧ (l.move d).back = l.back
    ∧ (l.move d).distance = l.distance := by
  rcases l.move_cases d with ⟨-, h⟩ | ⟨n, rest, -, -, h⟩ | ⟨n, rest, -, -, h⟩
  all_goals
    rw [h]
    exact ⟨rfl, rfl, rfl, rfl⟩

/-- A move adds a separator at most. -/
theorem byteLength_source_move_le (l : Listing) (d : Direction) :
    (l.move d).source.byteLength ≤ l.source.byteLength + separator.byteLength := by
  rw [source_eq, source_eq]
  rcases l.move_cases d with ⟨-, h⟩ | ⟨n, rest, -, hleft, h⟩ | ⟨n, rest, -, hright, h⟩
  · rw [h]
    exact Nat.le_add_right _ _
  · rw [h]
    simp only [lead, trail, hleft, Neighbour.textBefore, Neighbour.textAfter,
      Text.byteLength_append]
    omega
  · rw [h]
    simp only [lead, trail, hright, Neighbour.textBefore, Neighbour.textAfter,
      Text.byteLength_append]
    omega

theorem getElem?_items_index (l : Listing) : l.items[l.index]? = some l.pivot := by
  rw [items, index, List.getElem?_append_right (by simp)]
  simp

theorem eraseIdx_items_index (l : Listing) : l.items.eraseIdx l.index
    = (l.left.map (·.item)).reverse ++ l.right.map (·.item) := by
  rw [items, index, List.eraseIdx_append_of_length_le (by simp)]
  simp

/-- **The other items keep their order.** -/
theorem eraseIdx_items_move (l : Listing) (d : Direction) :
    (l.move d).items.eraseIdx (l.move d).index = l.items.eraseIdx l.index := by
  rw [eraseIdx_items_index, eraseIdx_items_index]
  rcases l.move_cases d with ⟨-, h⟩ | ⟨n, rest, -, hleft, h⟩ | ⟨n, rest, -, hright, h⟩
  · rw [h]
  · rw [h, hleft]
    simp
  · rw [h, hright]
    simp

/-- An entry that is exchanged, and the others. -/
theorem getElem?_append_cons (xs ys : List Text) (a b : Text) (j : Nat) :
    (j = xs.length → (xs ++ b :: ys)[j]? = some b)
      ∧ (j ≠ xs.length → (xs ++ b :: ys)[j]? = (xs ++ a :: ys)[j]?) := by
  constructor
  · rintro rfl
    simp
  · intro hj
    rcases Nat.lt_or_gt_of_ne hj with hlt | hgt
    · rw [List.getElem?_append_left hlt, List.getElem?_append_left hlt]
    · obtain ⟨k, rfl⟩ := Nat.exists_eq_add_of_lt hgt
      rw [List.getElem?_append_right (by omega), List.getElem?_append_right (by omega)]
      rw [show xs.length + k + 1 - xs.length = k + 1 by omega]
      rfl

/-- **A separator stands in the gap that a move crosses, and no other gap changes.** -/
theorem getElem?_gaps_move (l : Listing) (d : Direction) (j : Nat) :
    (l.Crosses d j → (l.move d).gaps[j]? = some separator)
      ∧ (¬ l.Crosses d j → (l.move d).gaps[j]? = l.gaps[j]?) := by
  unfold Crosses
  rcases l.move_cases d with ⟨-, h⟩ | ⟨n, rest, -, hleft, h⟩ | ⟨n, rest, -, hright, h⟩
  · rw [h]
    exact ⟨fun hcross => by omega, fun _ => rfl⟩
  · have hindex : l.index = rest.length + 1 := by simp [index, hleft]
    have hindex' : (l.move d).index = rest.length := by simp [index, h]
    have hgaps' : (l.move d).gaps
        = (rest.map (·.gap)).reverse ++ separator :: l.right.map (·.gap) := by
      simp [gaps, h]
    have hentry := getElem?_append_cons (rest.map (·.gap)).reverse (l.right.map (·.gap)) n.gap
      separator j
    rw [List.length_reverse, List.length_map] at hentry
    rw [gaps_of_left hleft, hgaps', hindex, hindex']
    exact ⟨fun hcross => hentry.1 (by omega), fun hcross => hentry.2 (by omega)⟩
  · have hindex' : (l.move d).index = l.left.length + 1 := by simp [index, h]
    have hgaps' : (l.move d).gaps
        = (l.left.map (·.gap)).reverse ++ separator :: rest.map (·.gap) := by
      simp [gaps, h]
    have hentry := getElem?_append_cons (l.left.map (·.gap)).reverse (rest.map (·.gap)) n.gap
      separator j
    rw [List.length_reverse, List.length_map] at hentry
    rw [gaps_of_right hright, hgaps', hindex', index]
    exact ⟨fun hcross => hentry.1 (by omega), fun hcross => hentry.2 (by omega)⟩

/-! ## 4. What a walk of the pivot keeps -/

theorem walk_cons (l : Listing) (d : Direction) (ds : List Direction) :
    l.walk (d :: ds) = (l.move d).walk ds := rfl

theorem walk_concat (l : Listing) (ds : List Direction) (d : Direction) :
    l.walk (ds ++ [d]) = (l.walk ds).move d :=
  List.foldl_append

theorem crossed_cons {d : Direction} {ds : List Direction} {j : Nat} :
    l.Crossed (d :: ds) j ↔ l.Crosses d j ∨ (l.move d).Crossed ds j := by
  constructor
  · rintro ⟨before, d', hpre, hcross⟩
    cases before with
    | nil =>
      obtain rfl : d' = d := (List.cons_prefix_cons.mp hpre).1
      exact .inl hcross
    | cons b before =>
      obtain ⟨rfl, htail⟩ := List.cons_prefix_cons.mp hpre
      exact .inr ⟨before, d', htail, hcross⟩
  · rintro (hcross | ⟨before, d', hpre, hcross⟩)
    · exact ⟨[], d, List.cons_prefix_cons.mpr ⟨rfl, List.nil_prefix⟩, hcross⟩
    · exact ⟨d :: before, d', List.cons_prefix_cons.mpr ⟨rfl, hpre⟩, hcross⟩

theorem walk_rest (l : Listing) (ds : List Direction) : (l.walk ds).front = l.front
    ∧ (l.walk ds).pivot = l.pivot ∧ (l.walk ds).back = l.back
    ∧ (l.walk ds).distance = l.distance := by
  induction ds generalizing l with
  | nil => exact ⟨rfl, rfl, rfl, rfl⟩
  | cons d ds ih =>
    obtain ⟨hfront, hpivot, hback, hdistance⟩ := ih (l.move d)
    obtain ⟨hfront', hpivot', hback', hdistance'⟩ := l.move_rest d
    exact ⟨hfront.trans hfront', hpivot.trans hpivot', hback.trans hback',
      hdistance.trans hdistance'⟩

/-- Each move adds a separator at most. -/
theorem byteLength_source_walk_le (l : Listing) (ds : List Direction) :
    (l.walk ds).source.byteLength
      ≤ l.source.byteLength + ds.length * separator.byteLength := by
  induction ds generalizing l with
  | nil => exact Nat.le_add_right _ _
  | cons d ds ih =>
    calc (l.walk (d :: ds)).source.byteLength
        ≤ (l.move d).source.byteLength + ds.length * separator.byteLength := ih (l.move d)
      _ ≤ l.source.byteLength + separator.byteLength + ds.length * separator.byteLength :=
          Nat.add_le_add_right (l.byteLength_source_move_le d) _
      _ = l.source.byteLength + (d :: ds).length * separator.byteLength := by
          rw [List.length_cons, Nat.succ_mul]
          omega

/-- **With room for the source and the separators of a run, all its cursors are made of words.** -/
theorem inWords_walk {ds before : List Direction}
    (hroom : l.cursor.HasRoom (l.source.byteLength + ds.length * separator.byteLength))
    (hbefore : before <+: ds) : (l.walk before).InWords := by
  obtain ⟨-, hpivot, -, hdistance⟩ := l.walk_rest before
  have hsource : (l.walk before).source
      = (l.walk before).lead ++ l.pivot ++ (l.walk before).trail := by
    rw [source_eq, hpivot]
  have hsize : ((l.walk before).lead ++ l.pivot ++ (l.walk before).trail).byteLength
      ≤ l.source.byteLength + ds.length * separator.byteLength := by
    rw [← hsource]
    exact Nat.le_trans (l.byteLength_source_walk_le before)
      (Nat.add_le_add_left (Nat.mul_le_mul_right _ hbefore.length_le) _)
  have hfits := Text.fits_of_hasRoom l.inside rfl (hroom.mono hsize)
  rw [← hdistance] at hfits
  exact hfits

theorem eraseIdx_items_walk (l : Listing) (ds : List Direction) :
    (l.walk ds).items.eraseIdx (l.walk ds).index = l.items.eraseIdx l.index := by
  induction ds generalizing l with
  | nil => rfl
  | cons d ds ih => exact (ih (l.move d)).trans (l.eraseIdx_items_move d)

/-- A gap that was crossed once holds a separator, however often it is crossed again. -/
theorem getElem?_gaps_walk (l : Listing) (ds : List Direction) (j : Nat) :
    (l.Crossed ds j → (l.walk ds).gaps[j]? = some separator)
      ∧ (¬ l.Crossed ds j → (l.walk ds).gaps[j]? = l.gaps[j]?) := by
  induction ds generalizing l with
  | nil =>
    refine ⟨?_, fun _ => rfl⟩
    rintro ⟨before, d, hpre, -⟩
    simp at hpre
  | cons d ds ih =>
    obtain ⟨hin, hout⟩ := ih (l.move d)
    obtain ⟨hfirst, hsame⟩ := l.getElem?_gaps_move d j
    rw [crossed_cons, not_or, walk_cons]
    constructor
    · intro hcrossed
      by_cases hlater : (l.move d).Crossed ds j
      · exact hin hlater
      · rw [hout hlater]
        exact hfirst (hcrossed.resolve_right hlater)
    · rintro ⟨hfree, hlater⟩
      rw [hout hlater, hsame hfree]

/-! ## 5. A move in a tree is a move in the list -/

/-- The tree `t` belongs to the source, and the node `parent` around the cursor holds the list:
it is no operand or branch node, and its items are those of the list, in their places. -/
structure ParsedAs (l : Listing) (t : Tree) (parent : t.Id) : Prop where
  wellFormed : t.WellFormed
  source : t.source = l.source
  around : t.sequenceAround l.cursor = some parent
  operands : t.kind parent ∉ operandKinds
  branches : t.kind parent ≠ branchKind
  items : (t.items parent).map (fun i => (t.startByte i, t.endByte i)) = l.places

variable {t : Tree} {o : Overflow} {parent : t.Id} {d : Direction}

namespace ParsedAs

theorem run_eq (h : l.ParsedAs t parent) :
    run t o l.cursor d = exchangeItems t o l.cursor d parent := by
  rw [run, h.around]
  dsimp only
  rw [if_neg (by simpa using h.operands), if_neg h.branches]

/-- One of the items is the pivot, and the cursor is on it. -/
theorem exists_item (h : l.ParsedAs t parent) : ∃ before i after,
    t.items parent = before ++ i :: after ∧ t.covers i l.cursor = true
      ∧ before.length = l.left.length ∧ after.length = l.right.length := by
  obtain ⟨before, after, hplaces, hbefore, hafter⟩ := l.places_pivot
  obtain ⟨front, rest, hitems, rfl, hrest⟩ := List.map_eq_append_iff.mp (h.items.trans hplaces)
  obtain ⟨i, back, rfl, hi, rfl⟩ := List.map_eq_cons_iff.mp hrest
  rw [List.length_map] at hbefore hafter
  obtain ⟨hstart, hend⟩ := Prod.mk.inj hi
  have hreads : t.Reads i l.lead l.pivot l.trail := by
    refine h.wellFormed.reads (h.source.trans l.source_eq) hstart ?_
    rw [Text.byteLength_append]
    exact hend
  exact ⟨front, i, back, hitems, hreads.covers_iff.mpr ⟨l.distance, l.inside, rfl⟩, hbefore,
    hafter⟩

/-- **At an end of the list the move is declined.** -/
theorem run_declines (h : l.ParsedAs t parent) (hend : l.AtEnd d) :
    (run t o l.cursor d).Declines := by
  obtain ⟨before, i, after, hitems, hcovers, hbefore, hafter⟩ := h.exists_item
  obtain ⟨htake, hdrop⟩ := takeWhile_dropWhile_items h.wellFormed hitems hcovers
  rw [h.run_eq, exchangeItems]
  cases d with
  | left =>
    rw [atEnd_left_iff.mp hend] at hbefore
    obtain rfl := List.length_eq_zero_iff.mp hbefore
    simp only [htake, hdrop]
    exact ⟨.noPreviousItem, rfl⟩
  | right =>
    rw [atEnd_right_iff.mp hend] at hafter
    obtain rfl := List.length_eq_zero_iff.mp hafter
    simp only [hdrop]
    exact ⟨.noNextItem, rfl⟩

/-- Two neighbours of the list are neighbours in the tree, and the source is cut along them. -/
theorem exists_layout (h : l.ParsedAs t parent) {u a g b v : Text}
    (hplaces : [(u.byteLength, u.byteLength + a.byteLength),
      (u.byteLength + a.byteLength + g.byteLength,
        u.byteLength + a.byteLength + g.byteLength + b.byteLength)] <:+: l.places)
    (hsource : l.source = u ++ a ++ g ++ b ++ v) :
    ∃ i j, [i, j] <:+: t.items parent
      ∧ Exchange.Layout ⟨i, i, none, j, j, separator⟩ ⟨u, [], a, g, b, [], v⟩ := by
  obtain ⟨before, after, hpair⟩ := hplaces
  obtain ⟨xs, back, hitems, hxs, hback⟩ := List.map_eq_append_iff.mp (h.items.trans hpair.symm)
  obtain ⟨front, pair, rfl, hfront, hpair⟩ := List.map_eq_append_iff.mp hxs
  obtain ⟨i, rest, rfl, hi, hrest⟩ := List.map_eq_cons_iff.mp hpair
  obtain ⟨j, rest, rfl, hj, hnil⟩ := List.map_eq_cons_iff.mp hrest
  obtain rfl := List.map_eq_nil_iff.mp hnil
  obtain ⟨histart, hiend⟩ := Prod.mk.inj hi
  obtain ⟨hjstart, hjend⟩ := Prod.mk.inj hj
  have hsrc := h.source.trans hsource
  refine ⟨i, j, ⟨front, back, hitems.symm⟩, .of_reads ?_ ?_⟩
  · refine h.wellFormed.reads ?_ histart ?_
    · rw [hsrc]
      simp only [List.append_assoc]
    · rw [hiend, Text.byteLength_append]
  · refine h.wellFormed.reads hsrc ?_ ?_
    · simp only [hjstart, Text.byteLength_append]
    · simp only [hjend, Text.byteLength_append]

/-- A cursor that lands behind what comes before the pivot after the move is where the list has
it. -/
theorem run_of_lands {lead : Text} {f : Position → Edit}
    (hlands : Attempt.Lands o lead.extent l.distance f (run t o l.cursor d))
    (hlead : (l.move d).lead = lead) (hwords : (l.move d).InWords) :
    run t o l.cursor d = .ok (f (l.move d).cursor) := by
  have hcursor : (l.move d).cursor = lead.extent + l.distance := by
    rw [cursor, hlead, (l.move_rest d).2.2.2]
  rw [InWords, hlead, hcursor] at hwords
  rw [hcursor]
  exact hlands.fits hwords.1 hwords.2

/-- **The pivot moves right.** -/
theorem run_right (h : l.ParsedAs t parent) (hright : l.right = n :: rest)
    (hwords : (l.move .right).InWords) :
    ∃ e, run t o l.cursor .right = .ok e
      ∧ e.spliceInto? t.source = some (l.move .right).source
      ∧ e.cursor = some (l.move .right).cursor := by
  have hmove : l.move .right = { l with left := ⟨n.item, separator⟩ :: l.left, right := rest } := by
    rw [move, hright]
  have hplaces := infix_places (items_of_right hright) (gaps_of_right hright) (by simp)
    (congrArg (l.front ++ ·) (Neighbour.weave_left l.left))
  have hsource : l.source
      = l.lead ++ l.pivot ++ n.gap ++ n.item ++ (Neighbour.textAfter rest ++ l.back) := by
    rw [source_eq, trail, hright, Neighbour.textAfter]
    simp only [List.append_assoc]
  obtain ⟨i, j, hadjacent, hl⟩ := h.exists_layout hplaces hsource
  have hlands := lands_run_of_copy o h.wellFormed
    (.items (by simpa using h.operands) h.branches hadjacent) hl .first l.inside
    (by rw [List.append_nil]; rfl) h.around
  have hlead : (l.move .right).lead = l.lead ++ [] ++ n.item ++ separator := by
    rw [hmove]
    simp only [lead, Neighbour.textBefore, List.append_nil, List.append_assoc]
  refine ⟨_, run_of_lands hlands hlead hwords, ?_, rfl⟩
  rw [(hl.replaces _ _).splice, source_eq, hmove]
  simp only [Exchange.Pieces.edit, Exchange.Pieces.replacement, lead, trail,
    Neighbour.textBefore, List.nil_append, List.append_assoc]

/-- **The pivot moves left.** -/
theorem run_left (h : l.ParsedAs t parent) (hleft : l.left = n :: rest)
    (hwords : (l.move .left).InWords) :
    ∃ e, run t o l.cursor .left = .ok e
      ∧ e.spliceInto? t.source = some (l.move .left).source
      ∧ e.cursor = some (l.move .left).cursor := by
  have hmove : l.move .left = { l with left := rest, right := ⟨n.item, separator⟩ :: l.right } := by
    rw [move, hleft]
  have hplaces := infix_places (items_of_left hleft) (gaps_of_left hleft) (by simp)
    (congrArg (l.front ++ ·) (Neighbour.weave_left rest))
  have hlead : l.lead = l.front ++ Neighbour.textBefore rest ++ n.item ++ n.gap := by
    rw [lead, hleft, Neighbour.textBefore]
    simp only [List.append_assoc]
  have hsource : l.source
      = l.front ++ Neighbour.textBefore rest ++ n.item ++ n.gap ++ l.pivot ++ l.trail := by
    rw [source_eq, hlead]
  obtain ⟨i, j, hadjacent, hl⟩ := h.exists_layout hplaces hsource
  have hlands := lands_run_of_copy o h.wellFormed
    (.items (by simpa using h.operands) h.branches hadjacent) hl .second l.inside
    (by rw [cursor, hlead, List.append_nil]) h.around
  have hlead' : (l.move .left).lead = l.front ++ Neighbour.textBefore rest ++ [] := by
    rw [hmove, List.append_nil]
    rfl
  refine ⟨_, run_of_lands hlands hlead' hwords, ?_, rfl⟩
  rw [(hl.replaces _ _).splice, source_eq, hmove]
  simp only [Exchange.Pieces.edit, Exchange.Pieces.replacement, lead, trail,
    Neighbour.textAfter, List.nil_append, List.append_assoc]

/-- **Inside the list the move is made**, and it is the move of the list. -/
theorem run_moves (h : l.ParsedAs t parent) (hend : ¬ l.AtEnd d)
    (hwords : (l.move d).InWords) :
    ∃ e, run t o l.cursor d = .ok e ∧ e.spliceInto? t.source = some (l.move d).source
      ∧ e.cursor = some (l.move d).cursor := by
  rcases l.move_cases d with ⟨hstop, -⟩ | ⟨n, rest, rfl, hleft, -⟩ | ⟨n, rest, rfl, hright, -⟩
  · exact absurd hstop hend
  · exact h.run_left hleft hwords
  · exact h.run_right hright hwords

end ParsedAs

end Listing

/-! ## 6. A run of the session is a walk in the list -/

/-- The transformation that moves in direction `d`. -/
def Direction.mod : Direction → Mod
  | left => .moveLeft
  | right => .moveRight

/-- The step that moves the item at the cursor in direction `d`. -/
def Session.Step.move (d : Direction) : Session.Step :=
  .run d.mod none false

namespace Listing

/-- The session on the source of the list, with the cursor on the pivot. -/
def session (l : Listing) (v : Variant) : Session where
  source := l.source
  variant := v
  cursor := l.cursor

/-- The parser finds the list in its source. -/
def Found (l : Listing) (parser : Parser) (v : Variant) : Prop :=
  ∃ t parent, parser v l.source = some t ∧ l.ParsedAs t parent

end Listing

variable {e : Engine} {v : Variant} {l : Listing} {d : Direction} {ds : List Direction}

theorem Engine.run_move {t : Tree} {source : Text} {p : Position}
    (h : e.parser v source = some t) :
    e.run d.mod ⟨source, v, .point p⟩ = (Move.run t e.overflow p d).report := by
  rw [Engine.run, h]
  cases d <;> rfl

namespace Session

variable {s : Session} {m : Mod}

theorem step_run_of_error {f : Failure}
    (h : e.run m ⟨s.source, s.variant, .point s.cursor⟩ = .error f) :
    step e s (.run m none false) = (s, .failed f) := by
  simp only [step, anchor, Option.getD_none, h]

theorem step_run_of_ok {edit : Edit} {source : Text} {cursor : Position}
    (h : e.run m ⟨s.source, s.variant, .point s.cursor⟩ = .ok edit)
    (hsource : edit.spliceInto? s.source = some source) (hcursor : edit.cursor = some cursor) :
    step e s (.run m none false) = ({ s with source, cursor }, .edited edit source cursor) := by
  simp only [step, anchor, Option.getD_none, h, hsource, hcursor, Option.getD_some]

/-- **One step of the session**: at an end of the list it fails and changes nothing, and anywhere
else it makes the move of the list. -/
theorem step_move (h : l.Found e.parser v) (hwords : (l.move d).InWords) :
    (l.AtEnd d → ∃ f, step e (l.session v) (.move d) = (l.session v, .failed f)
        ∧ f.code = .noMatch)
      ∧ (¬ l.AtEnd d → ∃ edit, step e (l.session v) (.move d)
          = ((l.move d).session v, .edited edit (l.move d).source (l.move d).cursor)) := by
  obtain ⟨t, parent, hparser, hparsed⟩ := h
  have hrun := Engine.run_move (d := d) (p := l.cursor) hparser
  constructor
  · intro hend
    obtain ⟨why, hwhy⟩ := hparsed.run_declines hend
    rw [hwhy] at hrun
    exact ⟨⟨.noMatch, why.message⟩, step_run_of_error hrun, rfl⟩
  · intro hend
    obtain ⟨edit, hedit, hsplice, hcursor⟩ := hparsed.run_moves hend hwords
    rw [hedit] at hrun
    rw [hparsed.source] at hsplice
    exact ⟨edit, step_run_of_ok hrun hsplice hcursor⟩

theorem step_move_fst (h : l.Found e.parser v) (hwords : (l.move d).InWords) :
    (step e (l.session v) (.move d)).1 = (l.move d).session v := by
  obtain ⟨hstop, hgo⟩ := step_move h hwords
  by_cases hend : l.AtEnd d
  · obtain ⟨f, hf, -⟩ := hstop hend
    rw [hf, Listing.move_of_atEnd hend]
  · obtain ⟨edit, hedit⟩ := hgo hend
    rw [hedit]

/-- **A run of the session**: as long as the parser finds the list and the cursor is made of
words, the session follows the list. -/
theorem steps_move_fst
    (h : ∀ before d, before ++ [d] <+: ds → (l.walk before).Found e.parser v)
    (hwords : ∀ before, before <+: ds → (l.walk before).InWords) :
    (steps e (l.session v) (ds.map .move)).1 = (l.walk ds).session v := by
  induction ds generalizing l with
  | nil => rfl
  | cons d ds ih =>
    have hfirst : l.Found e.parser v :=
      h [] d (List.cons_prefix_cons.mpr ⟨rfl, List.nil_prefix⟩)
    show (steps e (step e (l.session v) (.move d)).1 (ds.map .move)).1 = _
    have hnext : (l.move d).InWords :=
      hwords [d] (List.cons_prefix_cons.mpr ⟨rfl, List.nil_prefix⟩)
    rw [step_move_fst hfirst hnext, Listing.walk_cons]
    apply ih
    · intro before d' hbefore
      exact h (d :: before) d' (List.cons_prefix_cons.mpr ⟨rfl, hbefore⟩)
    · intro before hbefore
      exact hwords (d :: before) (List.cons_prefix_cons.mpr ⟨rfl, hbefore⟩)

end Session

/-! ## 7. What a run keeps -/

/-- What is left of the list `l` in the session `s` after the moves `ds`. -/
structure Listing.Walked (l : Listing) (ds : List Direction) (s : Session) : Prop where
  /-- What comes before the first item and after the last one is as it was. -/
  source : s.source = l.front ++ Text.weave (l.walk ds).items (l.walk ds).gaps ++ l.back
  /-- The pivot is where its moves led it. -/
  pivot : (l.walk ds).items[(l.walk ds).index]? = l.items[l.index]?
  /-- Without the pivot, the items are as they were. -/
  others : (l.walk ds).items.eraseIdx (l.walk ds).index = l.items.eraseIdx l.index
  crossed : ∀ j, l.Crossed ds j → (l.walk ds).gaps[j]? = some Move.separator
  uncrossed : ∀ j, ¬ l.Crossed ds j → (l.walk ds).gaps[j]? = l.gaps[j]?
  /-- The cursor is as many bytes into the pivot as it was. -/
  cursor : ∃ start start' size k, l.places[l.index]? = some (start, start + size)
    ∧ (l.walk ds).places[(l.walk ds).index]? = some (start', start' + size) ∧ k < size
    ∧ l.source.offsetOf? l.cursor = some (start + k)
    ∧ s.source.offsetOf? s.cursor = some (start' + k)

namespace Listing

theorem getElem?_places_index (l : Listing) : l.places[l.index]?
    = some (l.lead.byteLength, l.lead.byteLength + l.pivot.byteLength) := by
  obtain ⟨before, after, hplaces, hbefore, -⟩ := l.places_pivot
  rw [hplaces, index, ← hbefore, List.getElem?_append_right (Nat.le_refl _), Nat.sub_self]
  rfl

/-- The cursor is on a byte of the pivot, and which one it is depends on the pivot only. -/
theorem exists_offset (l : Listing) : ∃ k < l.pivot.byteLength,
    ∀ l' : Listing, l'.pivot = l.pivot → l'.distance = l.distance →
      l'.source.offsetOf? l'.cursor = some (l'.lead.byteLength + k) := by
  obtain ⟨k, hk, hoffset⟩ := Text.exists_offsetOf?_of_lt l.inside
  refine ⟨k, hk, ?_⟩
  intro l' hpivot hdistance
  rw [source_eq, cursor, hpivot, hdistance, List.append_assoc, Text.offsetOf?_append_add, hoffset]
  rfl

theorem walked (l : Listing) (ds : List Direction) (v : Variant) :
    l.Walked ds ((l.walk ds).session v) := by
  obtain ⟨hfront, hpivot, hback, hdistance⟩ := l.walk_rest ds
  constructor
  case source =>
    show (l.walk ds).source = _
    rw [Listing.source, hfront, hback]
  case pivot => rw [getElem?_items_index, getElem?_items_index, hpivot]
  case others => exact l.eraseIdx_items_walk ds
  case crossed => exact fun j => (l.getElem?_gaps_walk ds j).1
  case uncrossed => exact fun j => (l.getElem?_gaps_walk ds j).2
  case cursor =>
    obtain ⟨k, hk, hoffset⟩ := l.exists_offset
    have hplace := (l.walk ds).getElem?_places_index
    rw [hpivot] at hplace
    exact ⟨_, _, _, k, l.getElem?_places_index, hplace, hk, hoffset l rfl rfl,
      hoffset (l.walk ds) hpivot hdistance⟩

end Listing

/-- The parse of `sampleCall` after its first argument moved behind the second one. -/
def Tree.sampleMovedCall : Tree :=
  (ofRows? "f(b, [á,\n1])".toList .module [
    ⟨0, ⟨"program", true, none, ⟨⟨0, 0⟩, ⟨1, 3⟩⟩, 0, 13⟩⟩,
    ⟨1, ⟨"expression_statement", true, none, ⟨⟨0, 0⟩, ⟨1, 3⟩⟩, 0, 13⟩⟩,
    ⟨2, ⟨"call_expression", true, none, ⟨⟨0, 0⟩, ⟨1, 3⟩⟩, 0, 13⟩⟩,
    ⟨3, ⟨"identifier", true, some "function", ⟨⟨0, 0⟩, ⟨0, 1⟩⟩, 0, 1⟩⟩,
    ⟨3, ⟨"arguments", true, some "arguments", ⟨⟨0, 1⟩, ⟨1, 3⟩⟩, 1, 13⟩⟩,
    ⟨4, ⟨"(", false, none, ⟨⟨0, 1⟩, ⟨0, 2⟩⟩, 1, 2⟩⟩,
    ⟨4, ⟨"identifier", true, none, ⟨⟨0, 2⟩, ⟨0, 3⟩⟩, 2, 3⟩⟩,
    ⟨4, ⟨",", false, none, ⟨⟨0, 3⟩, ⟨0, 4⟩⟩, 3, 4⟩⟩,
    ⟨4, ⟨"array", true, none, ⟨⟨0, 5⟩, ⟨1, 2⟩⟩, 5, 12⟩⟩,
    ⟨5, ⟨"[", false, none, ⟨⟨0, 5⟩, ⟨0, 6⟩⟩, 5, 6⟩⟩,
    ⟨5, ⟨"identifier", true, none, ⟨⟨0, 6⟩, ⟨0, 8⟩⟩, 6, 8⟩⟩,
    ⟨5, ⟨",", false, none, ⟨⟨0, 8⟩, ⟨0, 9⟩⟩, 8, 9⟩⟩,
    ⟨5, ⟨"number", true, none, ⟨⟨1, 0⟩, ⟨1, 1⟩⟩, 10, 11⟩⟩,
    ⟨5, ⟨"]", false, none, ⟨⟨1, 1⟩, ⟨1, 2⟩⟩, 11, 12⟩⟩,
    ⟨4, ⟨")", false, none, ⟨⟨1, 2⟩, ⟨1, 3⟩⟩, 12, 13⟩⟩]).get (by decide)

theorem Tree.sampleMovedCall_wellFormed : sampleMovedCall.WellFormed where
  eq_root := by decide
  preorder := by decide
  start_le_end := by decide
  start_at := by decide
  stop_at := by decide
  nested := by decide
  disjoint := by decide

/-- An engine that knows the two calls. -/
def Engine.sampleCalls : Engine where
  parser := fun _ source =>
    if source = Tree.sampleCall.source then some Tree.sampleCall
    else if source = Tree.sampleMovedCall.source then some Tree.sampleMovedCall
    else none
  config := .standard
  overflow := .wraps

/-- The arguments of `sampleCall`, seen from the first one. -/
def Listing.sampleArguments : Listing where
  front := "f(".toList
  left := []
  pivot := "[á,\n1]".toList
  right := [⟨"b".toList, ",".toList⟩]
  back := ")".toList
  distance := ⟨0, 97⟩
  inside := by decide

theorem Listing.found_sampleArguments :
    sampleArguments.Found Engine.sampleCalls.parser .module
      ∧ (sampleArguments.move .right).Found Engine.sampleCalls.parser .module := by
  constructor
  · refine ⟨Tree.sampleCall, ⟨4, by decide⟩, rfl, Tree.sampleCall_wellFormed, rfl, ?_, ?_, ?_, ?_⟩
    · decide +kernel
    · decide
    · decide
    · decide
  · refine ⟨Tree.sampleMovedCall, ⟨4, by decide⟩, rfl, Tree.sampleMovedCall_wellFormed, rfl, ?_,
      ?_, ?_, ?_⟩
    · decide +kernel
    · decide
    · decide
    · decide

end AnchoredEdit
