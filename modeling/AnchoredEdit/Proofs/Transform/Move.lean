/-
`Proofs/Transform/Move.lean` -- what moving a sibling does, in terms of exchanges.

Two facts say everything about `Move.run` on a tree that belongs to its source. If the node
around the cursor offers an exchange and the cursor is on a node that the exchange carries in
the direction asked for, then the edit is the one that the layout of the exchange spells out, and
all that can keep it from being made is a cursor that leaves its words (`lands_run_of_copy`). In
every other case the move is declined, for one of the reasons on the list
(`possible_or_declines`). Nothing else goes wrong: each text is cut along the layout, and a cursor
on a node never lies on a line before it.

The first part opens the three exchange functions once; everything later goes through the two
facts.
-/
import AnchoredEdit.Proofs.Text.InWords
import AnchoredEdit.Proofs.Transform.Exchange

set_option autoImplicit false

namespace AnchoredEdit

/-- The attempt was declined because nothing matches, and not for any other reason. -/
def Attempt.Declines {α : Type} (a : Attempt α) : Prop :=
  ∃ why, a = Attempt.noMatch why

theorem Attempt.ok_bind {α β : Type} (a : α) (f : α → Attempt β) :
    ((.ok a : Attempt α) >>= f) = f a := rfl

theorem Attempt.eq_ok_of_toOption {α : Type} {x : Attempt α} {a : α}
    (h : x.toOption = some a) : x = .ok a := by
  cases x with
  | error halt => cases h
  | ok b => exact congrArg Except.ok (Option.some.inj h)

theorem Attempt.bind_eq_ok_iff {α β : Type} {x : Attempt α} {f : α → Attempt β} {b : β} :
    (x >>= f) = .ok b ↔ ∃ a, x = .ok a ∧ f a = .ok b := by
  constructor
  · intro h
    cases x with
    | error halt => cases h
    | ok a => exact ⟨a, rfl, h⟩
  · rintro ⟨a, rfl, h⟩
    exact h

theorem Attempt.ofChecked_eq_ok_iff {α : Type} {x : Checked α} {a : α} :
    Attempt.ofChecked x = .ok a ↔ x = .ok a := by
  cases x <;> simp [Attempt.ofChecked]

theorem Attempt.need_eq_ok_iff {α : Type} {why : NoMatch} {o : Option α} {a : α} :
    Attempt.need why o = .ok a ↔ o = some a := by
  cases o <;> simp [Attempt.need, Attempt.noMatch]

namespace Move

open Attempt Exchange

variable {t : Tree} {o : Overflow} {p : Position} {d : Direction} {parent : t.Id} {s : Pieces}
  {joint : Text}

/-! ## 1. The three exchanges as layouts -/

theorem exchangeOperands_eq {left operator right : t.Id} {m₁ text m₂ : Text}
    (hparts : t.parts parent = [left, operator, right])
    (hl : Layout ⟨left, left, some operator, right, right, joint⟩ s)
    (ho : t.Reads operator (s.before ++ s.head ++ s.first ++ m₁) text
      (m₂ ++ s.second ++ s.tail ++ s.after)) :
    exchangeOperands t o p d parent
      = operandCursor t o p d left operator right s.second m₁ s.middle >>= fun cursor =>
          .ok (s.edit s.middle cursor) := by
  have hbefore : t.textBetween left operator = .ok m₁ := hl.first.textBetween_eq ho
  have hmiddle : t.textBetween left right = .ok s.middle := hl.textBetween_eq
  have hthrough : t.textThrough left right = .ok (s.first ++ s.middle ++ s.second) :=
    hl.textThrough_eq
  rw [exchangeOperands, hparts]
  simp only [hl.second.text_eq, hbefore, hmiddle, hthrough, hl.first.text_eq, ofChecked_ok,
    ok_bind, hl.edit_eq rfl rfl]
  rfl

theorem exchangeBranches_eq {condition question consequence colon alternative : t.Id}
    {m₁ text m₂ : Text} (hwf : t.WellFormed)
    (hparts : t.parts parent = [condition, question, consequence, colon, alternative])
    (hl : Layout ⟨parent, consequence, some colon, alternative, parent, joint⟩ s)
    (hcolon : t.Reads colon (s.before ++ s.head ++ s.first ++ m₁) text
      (m₂ ++ s.second ++ s.tail ++ s.after)) :
    exchangeBranches t o p d parent
      = branchCursor t o p d ⟨condition, question, consequence, colon, alternative⟩
          s.before.extent s.head s.second m₁ s.middle >>= fun cursor =>
          .ok (s.edit s.middle cursor) := by
  have hparent : t.Reads parent s.before s.replaced s.after :=
    hwf.reads hl.source hl.startByte hl.endByte
  have hhead : t.textBefore parent consequence = .ok s.head := hparent.textBefore_eq hl.first
  have hbefore : t.textBetween consequence colon = .ok m₁ := hl.first.textBetween_eq hcolon
  have hbetween : t.textBetween consequence alternative = .ok s.middle := hl.textBetween_eq
  have hspan : t.span parent = ⟨s.before.extent, (s.before ++ s.replaced).extent⟩ := by
    rw [← hparent.start, ← hparent.stop]
  rw [exchangeBranches, hparts]
  simp only [hhead, hl.first.text_eq, hl.second.text_eq, hbefore, hbetween, hparent.text_eq,
    ofChecked_ok, ok_bind, hspan]
  rfl

theorem exchangePair_eq {first second : t.Id}
    (hl : Layout ⟨first, first, none, second, second, joint⟩ s) :
    exchangePair t o p d first second
      = (ofChecked <| match d with
          | .left => p.rebase o (t.span second).start (t.span first).start
          | .right => p.carry o (t.span first).start (t.span first).start
              (s.second ++ separator)) >>= fun cursor =>
          .ok (s.edit separator cursor) := by
  have hthrough : t.textThrough first second = .ok (s.first ++ s.middle ++ s.second) :=
    hl.textThrough_eq
  rw [exchangePair]
  simp only [hl.first.text_eq, hl.second.text_eq, hthrough, ofChecked_ok, ok_bind,
    hl.edit_eq rfl rfl]
  rfl

/-- The search for the item at the cursor stops at the only one that contains it: no item
before that one does, because items do not overlap. -/
theorem takeWhile_dropWhile_items (hwf : t.WellFormed) {before after : List t.Id} {pivot : t.Id}
    (hitems : t.items parent = before ++ pivot :: after) (hcovers : t.covers pivot p = true) :
    (t.items parent).takeWhile (fun i => !t.covers i p) = before
      ∧ (t.items parent).dropWhile (fun i => !t.covers i p) = pivot :: after := by
  have hpivot : t.parent pivot = some parent := Tree.parent_of_mem_items (by simp [hitems])
  have hsorted := Tree.pairwise_items parent
  rw [hitems, List.pairwise_append] at hsorted
  have hfree : ∀ i ∈ before, (!t.covers i p) = true := by
    intro i hi
    have hparent : t.parent i = some parent := Tree.parent_of_mem_items (by simp [hitems, hi])
    have hlt : i < pivot := hsorted.2.2 i hi pivot (List.mem_cons_self ..)
    by_cases hcov : t.covers i p = true
    · rw [hwf.not_covers_of_lt hparent hpivot hlt hcov] at hcovers
      cases hcovers
    · simpa using hcov
  constructor
  · rw [hitems, List.takeWhile_append_of_pos hfree, List.takeWhile_cons]
    simp [hcovers]
  · rw [hitems, List.dropWhile_append_of_pos hfree, List.dropWhile_cons]
    simp [hcovers]

theorem exchangeItems_left_eq (hwf : t.WellFormed) {previous pivot : t.Id}
    (hadjacent : [previous, pivot] <:+: t.items parent) (hcovers : t.covers pivot p = true) :
    exchangeItems t o p .left parent = exchangePair t o p .left previous pivot := by
  obtain ⟨l, r, hitems⟩ := hadjacent
  have hsplit : t.items parent = (l ++ [previous]) ++ pivot :: r := by
    rw [← hitems]
    simp
  obtain ⟨htake, hdrop⟩ := takeWhile_dropWhile_items hwf hsplit hcovers
  rw [exchangeItems]
  simp only [htake, hdrop, List.getLast?_concat]

theorem exchangeItems_right_eq (hwf : t.WellFormed) {pivot next : t.Id}
    (hadjacent : [pivot, next] <:+: t.items parent) (hcovers : t.covers pivot p = true) :
    exchangeItems t o p .right parent = exchangePair t o p .right pivot next := by
  obtain ⟨l, r, hitems⟩ := hadjacent
  have hsplit : t.items parent = l ++ pivot :: next :: r := by
    rw [← hitems]
    simp
  obtain ⟨htake, hdrop⟩ := takeWhile_dropWhile_items hwf hsplit hcovers
  rw [exchangeItems]
  simp only [hdrop]

/-! ## 2. An exchange is made when the cursor is on a node that it carries -/

variable {q : Position} {i : t.Id} {x : Exchange t} {before text after lead rest : Text}

theorem lands_exchangeOperands (hwf : t.WellFormed) {left operator right : t.Id}
    (hparts : t.parts parent = [left, operator, right])
    (hl : Layout ⟨left, left, some operator, right, right, s.middle⟩ s)
    (hcopy : Copy ⟨left, left, some operator, right, right, s.middle⟩ s d i before text after
      lead rest) (hq : q < text.extent) :
    Lands o lead.extent q (s.edit s.middle)
      (exchangeOperands t o (before.extent + q) d parent) := by
  have hcovers := (hcopy.reads hl).covers_iff.mpr ⟨q, hq, rfl⟩
  have hapart := hwf.pairwise_parts_covers parent (before.extent + q)
  have hstart : (t.span left).start = (s.before ++ s.head).extent := hl.first.start
  rw [hparts] at hapart
  simp only [List.pairwise_cons, List.mem_cons, List.not_mem_nil, forall_eq_or_imp, or_false,
    forall_eq] at hapart
  obtain ⟨⟨hlo, hlr⟩, hor, -⟩ := hapart
  -- Each case closes the tests that come before its own: no other part contains the cursor.
  cases hcopy with
  | first =>
    obtain ⟨m₁, text, m₂, -, ho⟩ := hl.hinge operator rfl
    simp only [hcovers, Bool.true_and] at hlo
    rw [exchangeOperands_eq hparts hl ho, operandCursor]
    simp only [hlo, hcovers, Bool.false_eq_true, if_false, if_true]
    rw [hstart]
    exact lands_carry o _ q (by rw [Text.advance_extent, List.append_assoc _ s.second]) _
  | second =>
    obtain ⟨m₁, text, m₂, -, ho⟩ := hl.hinge operator rfl
    have hon : (t.span right).start = (s.before ++ s.head ++ s.first ++ s.middle).extent :=
      hl.second.start
    simp only [hcovers, Bool.and_true] at hlr hor
    rw [exchangeOperands_eq hparts hl ho, operandCursor]
    simp only [hor, hlr, hcovers, Bool.false_eq_true, if_false, if_true]
    rw [hon, hstart]
    exact lands_rebase o _ _ q _
  | @hinge d i m₁ text m₂ hi hmiddle hreads =>
    -- The operator is asked for first, and the direction is not looked at.
    cases hi
    rw [exchangeOperands_eq hparts hl hreads]
    unfold operandCursor
    simp only [hcovers, if_true]
    rw [hreads.start, hstart]
    exact lands_carry o _ q (by rw [Text.advance_extent, List.append_assoc _ s.second]) _

theorem lands_exchangeBranches (hwf : t.WellFormed)
    {condition question consequence colon alternative : t.Id}
    (hparts : t.parts parent = [condition, question, consequence, colon, alternative])
    (hl : Layout ⟨parent, consequence, some colon, alternative, parent, s.middle⟩ s)
    (hcopy : Copy ⟨parent, consequence, some colon, alternative, parent, s.middle⟩ s d i
      before text after lead rest) (hq : q < text.extent) :
    Lands o lead.extent q (s.edit s.middle)
      (exchangeBranches t o (before.extent + q) d parent) := by
  have hcovers := (hcopy.reads hl).covers_iff.mpr ⟨q, hq, rfl⟩
  have hapart := hwf.pairwise_parts_covers parent (before.extent + q)
  rw [hparts] at hapart
  simp only [List.pairwise_cons, List.mem_cons, List.not_mem_nil, forall_eq_or_imp, or_false,
    forall_eq] at hapart
  obtain ⟨⟨-, hcx, hco, hcy⟩, ⟨hqx, hqo, hqy⟩, ⟨hxo, hxy⟩, hoy, -⟩ := hapart
  cases hcopy with
  | first =>
    obtain ⟨m₁, text, m₂, -, ho⟩ := hl.hinge colon rfl
    have hon : (t.span consequence).start = (s.before ++ s.head).extent := hl.first.start
    simp only [hcovers, Bool.and_true, Bool.true_and] at hcx hqx hxo
    rw [exchangeBranches_eq hwf hparts hl ho, branchCursor]
    -- The cursor is not on the condition, the question mark or the colon.
    simp only [hcx, hqx, hxo, hcovers, Bool.or_self, Bool.false_eq_true, if_false, if_true]
    rw [hon]
    exact lands_carry o _ q (by simp only [Text.advance_extent, List.append_assoc]) _
  | second =>
    obtain ⟨m₁, text, m₂, -, ho⟩ := hl.hinge colon rfl
    have hon : (t.span alternative).start = (s.before ++ s.head ++ s.first ++ s.middle).extent :=
      hl.second.start
    simp only [hcovers, Bool.and_true] at hcy hqy hxy hoy
    rw [exchangeBranches_eq hwf hparts hl ho, branchCursor]
    simp only [hcy, hqy, hxy, hoy, hcovers, Bool.or_self, Bool.false_eq_true, if_false, if_true]
    rw [hon]
    exact lands_carry o _ q (Text.advance_extent ..) _
  | @hinge d i m₁ text m₂ hi hmiddle hreads =>
    cases hi
    simp only [hcovers, Bool.and_true] at hco hqo
    rw [exchangeBranches_eq hwf hparts hl hreads]
    unfold branchCursor
    simp only [hco, hqo, hcovers, Bool.or_self, Bool.false_eq_true, if_false, if_true]
    rw [hreads.start]
    exact lands_carry o _ q (by simp only [Text.advance_extent, List.append_assoc]) _

theorem lands_exchangeItems (hwf : t.WellFormed) {first second : t.Id}
    (hadjacent : [first, second] <:+: t.items parent)
    (hl : Layout ⟨first, first, none, second, second, separator⟩ s)
    (hcopy : Copy ⟨first, first, none, second, second, separator⟩ s d i before text after
      lead rest) (hq : q < text.extent) :
    Lands o lead.extent q (s.edit separator)
      (exchangeItems t o (before.extent + q) d parent) := by
  have hcovers := (hcopy.reads hl).covers_iff.mpr ⟨q, hq, rfl⟩
  have hstart : (t.span first).start = (s.before ++ s.head).extent := hl.first.start
  cases hcopy with
  | first =>
    rw [exchangeItems_right_eq hwf hadjacent hcovers, exchangePair_eq hl]
    simp only
    rw [hstart]
    exact lands_carry o _ q (by rw [Text.advance_extent, List.append_assoc _ s.second]) _
  | second =>
    have hon : (t.span second).start = (s.before ++ s.head ++ s.first ++ s.middle).extent :=
      hl.second.start
    rw [exchangeItems_left_eq hwf hadjacent hcovers, exchangePair_eq hl]
    simp only
    rw [hon, hstart]
    exact lands_rebase o _ _ q _
  | hinge hi => cases hi

/-- **An exchange is made when the cursor is on a node that it carries.** The cursor belongs as
far into the copy as it was in the node. -/
theorem lands_run_of_copy (o : Overflow) (hwf : t.WellFormed) (ho : x.Offered parent)
    (hl : x.Layout s) (hcopy : x.Copy s d i before text after lead rest) (hq : q < text.extent)
    (hp : p = before.extent + q) (hparent : t.sequenceAround p = some parent) :
    Lands o lead.extent q (s.edit x.joint) (run t o p d) := by
  subst hp
  rw [run, hparent]
  -- The kind of the node selects the function, and the joint is then what that function reads.
  cases ho with
  | operands hkind hparts hjoint =>
    cases hl.joint_eq hjoint
    dsimp only
    rw [if_pos hkind]
    exact lands_exchangeOperands hwf hparts hl hcopy hq
  | branches hkind hparts hjoint =>
    cases hl.joint_eq hjoint
    dsimp only
    rw [if_neg (by rw [hkind]; decide), if_pos hkind]
    exact lands_exchangeBranches hwf hparts hl hcopy hq
  | items hoperands hbranches hadjacent =>
    dsimp only
    rw [if_neg (by rw [hoperands]; decide), if_neg hbranches]
    exact lands_exchangeItems hwf hadjacent hl hcopy hq

/-! ## 3. Everything else is declined -/

/-- The cursor is on a node that an exchange offered by `parent` carries in direction `d`. -/
def Possible (t : Tree) (p : Position) (d : Direction) (parent : t.Id) : Prop :=
  ∃ (x : Exchange t) (i : t.Id) (n : Nat),
    x.Offered parent ∧ x.Carries d i n ∧ t.covers i p = true

theorem possible_or_declines_operands (hwf : t.WellFormed)
    (hkind : operandKinds.contains (t.kind parent) = true) :
    Possible t p d parent ∨ (exchangeOperands t o p d parent).Declines := by
  by_cases hparts : ∃ left operator right, t.parts parent = [left, operator, right]
  · obtain ⟨left, operator, right, hparts⟩ := hparts
    -- The joint plays no part in the layout, so any one will do to get the pieces.
    obtain ⟨s, hl⟩ := (inOrder_operands hwf hparts []).exists_layout hwf
    obtain ⟨m₁, text, m₂, -, ho⟩ := hl.hinge operator rfl
    have hoffered := Offered.operands hkind hparts hl.textBetween_eq
    rw [exchangeOperands_eq hparts hl ho]
    unfold operandCursor
    by_cases hoperator : t.covers operator p = true
    · exact .inl ⟨_, _, _, hoffered, .hinge rfl, hoperator⟩
    · rw [if_neg hoperator]
      by_cases hleft : t.covers left p = true
      · rw [if_pos hleft]
        cases d with
        | left => exact .inr ⟨_, rfl⟩
        | right => exact .inl ⟨_, _, _, hoffered, .first, hleft⟩
      · rw [if_neg hleft]
        by_cases hright : t.covers right p = true
        · rw [if_pos hright]
          cases d with
          | left => exact .inl ⟨_, _, _, hoffered, .second, hright⟩
          | right => exact .inr ⟨_, rfl⟩
        · rw [if_neg hright]
          exact .inr ⟨_, rfl⟩
  · refine .inr ⟨.noSwappableOperands, ?_⟩
    unfold exchangeOperands
    split
    · next left operator right h => exact absurd ⟨_, _, _, h⟩ hparts
    · rfl

theorem possible_or_declines_branches (hwf : t.WellFormed)
    (hkind : t.kind parent = branchKind) :
    Possible t p d parent ∨ (exchangeBranches t o p d parent).Declines := by
  by_cases hparts : ∃ condition question consequence colon alternative,
      t.parts parent = [condition, question, consequence, colon, alternative]
  · obtain ⟨condition, question, consequence, colon, alternative, hparts⟩ := hparts
    obtain ⟨s, hl⟩ := (inOrder_branches hwf hparts []).exists_layout hwf
    obtain ⟨m₁, text, m₂, -, ho⟩ := hl.hinge colon rfl
    have hoffered := Offered.branches hkind hparts hl.textBetween_eq
    rw [exchangeBranches_eq hwf hparts hl ho]
    unfold branchCursor
    dsimp only
    by_cases hfront : (t.covers condition p || t.covers question p) = true
    · rw [if_pos hfront]
      exact .inr ⟨_, rfl⟩
    · rw [if_neg hfront]
      by_cases hcolon : t.covers colon p = true
      · exact .inl ⟨_, _, _, hoffered, .hinge rfl, hcolon⟩
      · rw [if_neg hcolon]
        by_cases hfirst : t.covers consequence p = true
        · rw [if_pos hfirst]
          cases d with
          | left => exact .inr ⟨_, rfl⟩
          | right => exact .inl ⟨_, _, _, hoffered, .first, hfirst⟩
        · rw [if_neg hfirst]
          by_cases hsecond : t.covers alternative p = true
          · rw [if_pos hsecond]
            cases d with
            | left => exact .inl ⟨_, _, _, hoffered, .second, hsecond⟩
            | right => exact .inr ⟨_, rfl⟩
          · rw [if_neg hsecond]
            exact .inr ⟨_, rfl⟩
  · refine .inr ⟨.noSwappableBranches, ?_⟩
    unfold exchangeBranches
    split
    · next h => exact absurd ⟨_, _, _, _, _, h⟩ hparts
    · rfl

theorem possible_or_declines_items
    (hoperands : operandKinds.contains (t.kind parent) = false)
    (hbranches : t.kind parent ≠ branchKind) :
    Possible t p d parent ∨ (exchangeItems t o p d parent).Declines := by
  unfold exchangeItems
  dsimp only
  have hitems := List.takeWhile_append_dropWhile (p := fun i => !t.covers i p)
    (l := t.items parent)
  split
  · exact .inr ⟨_, rfl⟩
  · next pivot after hdrop =>
    -- What `dropWhile` stops at fails the test, so it contains the cursor.
    have hpivot : t.covers pivot p = true := by
      have h := List.head?_dropWhile_not (fun i => !t.covers i p) (t.items parent)
      rw [hdrop] at h
      simpa using h
    rw [hdrop] at hitems
    cases d with
    | left =>
      dsimp only
      split
      · exact .inr ⟨_, rfl⟩
      · next previous hlast =>
        obtain ⟨l, hl⟩ := List.getLast?_eq_some_iff.mp hlast
        have hadjacent : [previous, pivot] <:+: t.items parent :=
          ⟨l, after, by rw [← hitems, hl]; simp⟩
        exact .inl ⟨_, _, _, .items hoperands hbranches hadjacent, .second, hpivot⟩
    | right =>
      dsimp only
      split
      · exact .inr ⟨_, rfl⟩
      · next next rest =>
        have hadjacent : [pivot, next] <:+: t.items parent :=
          ⟨_, rest, by simpa using hitems⟩
        exact .inl ⟨_, _, _, .items hoperands hbranches hadjacent, .first, hpivot⟩

/-- **A move is possible or declined.** -/
theorem possible_or_declines (hwf : t.WellFormed) (o : Overflow) (p : Position)
    (d : Direction) : (∃ parent, t.sequenceAround p = some parent ∧ Possible t p d parent)
      ∨ (run t o p d).Declines := by
  unfold run
  cases hparent : t.sequenceAround p with
  | none => exact .inr ⟨_, rfl⟩
  | some parent =>
    dsimp only
    have hcase : Possible t p d parent ∨ (if operandKinds.contains (t.kind parent) = true then
        exchangeOperands t o p d parent
      else if t.kind parent = branchKind then exchangeBranches t o p d parent
      else exchangeItems t o p d parent).Declines := by
      by_cases hoperands : operandKinds.contains (t.kind parent) = true
      · rw [if_pos hoperands]
        exact possible_or_declines_operands hwf hoperands
      · rw [if_neg hoperands]
        by_cases hbranches : t.kind parent = branchKind
        · rw [if_pos hbranches]
          exact possible_or_declines_branches hwf hbranches
        · rw [if_neg hbranches]
          exact possible_or_declines_items (by simpa using hoperands) hbranches
    rcases hcase with hpossible | hdeclines
    · exact .inl ⟨parent, rfl, hpossible⟩
    · exact .inr hdeclines

/-! ## 4. Moves that are made -/

/-- A move that is made, with all that goes into it: the node around the cursor, the exchange
it offers, the source cut along that exchange, the node that carries the cursor, the first byte
of its copy, and how far into the node the cursor is. -/
structure Made (t : Tree) (p : Position) (d : Direction) where
  parent : t.Id
  exchange : Exchange t
  pieces : Pieces
  node : t.Id
  byte : Nat
  (before text after lead rest : Text)
  distance : Position
  around : t.sequenceAround p = some parent
  offered : exchange.Offered parent
  layout : exchange.Layout pieces
  carries : exchange.Carries d node byte
  copy : exchange.Copy pieces d node before text after lead rest
  byte_eq : lead.byteLength = byte
  inside : distance < text.extent
  point_eq : p = before.extent + distance

namespace Made

/-- Where the cursor belongs after the move. -/
def target (m : Made t p d) : Position :=
  m.lead.extent + m.distance

/-- The source after the move. -/
def result (m : Made t p d) : Text :=
  m.pieces.result m.exchange.joint

/-- The edit of a move that puts the cursor at `cursor`. -/
def edit (m : Made t p d) (cursor : Position) : Edit :=
  m.pieces.edit m.exchange.joint cursor

theorem lands_run (m : Made t p d) (hwf : t.WellFormed) (o : Overflow) :
    Lands o m.lead.extent m.distance m.edit (run t o p d) :=
  lands_run_of_copy o hwf m.offered m.layout m.copy m.inside m.point_eq m.around

theorem reads (m : Made t p d) : t.Reads m.node m.before m.text m.after :=
  m.copy.reads m.layout

theorem covers (m : Made t p d) : t.covers m.node p = true :=
  m.reads.covers_iff.mpr ⟨m.distance, m.inside, m.point_eq⟩

/-- With room for the result, the cursor stays in its words. -/
theorem fits (m : Made t p d) (hroom : p.HasRoom m.result.byteLength) :
    m.lead.extent.Fits ∧ m.target.Fits := by
  rw [result, m.copy.result_eq m.offered m.layout] at hroom
  exact Text.fits_of_hasRoom m.inside m.point_eq hroom

/-- A move adds no more than a separator. -/
theorem byteLength_result_le (m : Made t p d) :
    m.result.byteLength ≤ t.source.byteLength + separator.byteLength := by
  have hjoint : m.exchange.joint.byteLength
      ≤ m.pieces.middle.byteLength + separator.byteLength := by
    rcases m.offered.joint_eq_or m.layout with h | h
    · rw [h]
      exact Nat.le_add_right _ _
    · rw [h]
      exact Nat.le_add_left _ _
  rw [result, m.layout.source]
  simp only [Pieces.result, Pieces.replacement, Pieces.replaced, Text.byteLength_append]
  omega

/-- **With room for the source and a separator, the move is made.** -/
theorem exists_run (m : Made t p d) (hwf : t.WellFormed) (o : Overflow)
    (hroom : o = .wraps ∨ p.HasRoom (t.source.byteLength + separator.byteLength)) :
    ∃ e, run t o p d = .ok e := by
  rcases hroom with hwraps | hroom
  · exact ⟨_, (m.lands_run hwf o).wraps hwraps⟩
  · obtain ⟨hlead, htarget⟩ := m.fits (hroom.mono m.byteLength_result_le)
    exact ⟨_, (m.lands_run hwf o).fits hlead htarget⟩

end Made

/-- An exchange that carries the node under the cursor is made. -/
theorem exists_made (hwf : t.WellFormed) {byte : Nat} (haround : t.sequenceAround p = some parent)
    (hoffered : x.Offered parent) (hcarries : x.Carries d i byte) (hcovers : t.covers i p = true) :
    ∃ m : Made t p d, m.exchange = x := by
  obtain ⟨s, hl⟩ := hoffered.exists_layout hwf
  obtain ⟨before, text, after, lead, rest, hcopy, hbyte⟩ := hcarries.exists_copy hl
  obtain ⟨q, hq, hp⟩ := (hcopy.reads hl).covers_iff.mp hcovers
  exact ⟨{
    parent, exchange := x, pieces := s, node := i, byte, before, text, after, lead, rest
    distance := q, around := haround, offered := hoffered, layout := hl, carries := hcarries
    copy := hcopy, byte_eq := hbyte, inside := hq, point_eq := hp }, rfl⟩

/-- What is possible is made. -/
theorem Possible.exists_made (hwf : t.WellFormed) (haround : t.sequenceAround p = some parent)
    (h : Possible t p d parent) : Nonempty (Made t p d) := by
  obtain ⟨x, i, n, hoffered, hcarries, hcovers⟩ := h
  obtain ⟨m, -⟩ := Move.exists_made hwf haround hoffered hcarries hcovers
  exact ⟨m⟩

/-- **A successful move is a move that is made.** -/
theorem exists_made_of_run_eq_ok (hwf : t.WellFormed) {e : Edit} (h : run t o p d = .ok e) :
    ∃ m : Made t p d, e = m.edit m.target.wrap ∧ (o = .faults → m.target.Fits) := by
  rcases possible_or_declines hwf o p d with ⟨parent, haround, hpossible⟩ | ⟨why, hwhy⟩
  · obtain ⟨m⟩ := hpossible.exists_made hwf haround
    exact ⟨m, (m.lands_run hwf o).eq_of_ok h⟩
  · rw [hwhy] at h
    cases h

/-- The first argument of `sampleCall` moves behind the second one. -/
def sampleEdit : Edit where
  span := ⟨⟨0, 2⟩, ⟨1, 4⟩⟩
  replaced := "[á,\n1],b".toList
  replacement := "b, [á,\n1]".toList
  cursor := some ⟨0, 102⟩

/-- The cursor lies past the end of the first line of the argument. -/
theorem run_sampleCall (o : Overflow) : run Tree.sampleCall o ⟨0, 99⟩ .right = .ok sampleEdit :=
  Attempt.eq_ok_of_toOption (by cases o <;> decide +kernel)

end Move

end AnchoredEdit
