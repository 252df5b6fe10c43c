/-
`Proofs/Transform/Spine.lean` -- which reference is wrapped, and what it becomes.

A reference may be the object of a chain such as `a.b`, that chain the object of another, and so
on. The reference and the chains around it are its *spine*. Each step along the spine goes to a
parent, so the spine ends. A node can be wrapped if it is an argument, or all there is in an
interpolation; the node around it is then no chain, so the spine ends there, and no two nodes of
one spine can be wrapped.

Hence the climb along the spine has one outcome at most, and wrapping comes to one of four things:
there is no reference at the cursor, nothing on its spine can be wrapped, the reference does not
parse on its own, or it is wrapped. How the wrapped reference is called is read off that parse.
-/
import Mathlib.Logic.Relation
import AnchoredEdit.Proofs.Transform.Exact

set_option autoImplicit false

namespace AnchoredEdit

namespace Wrap

open Attempt

variable {t : Tree} {r i j k : t.Id} {o : Overflow} {p : Position} {weight : Nat}
  {parser : Parser}

/-! ## 1. The spine of a reference -/

/-- Node `i` is the object of the chain `j`: the first child of it in that role. -/
structure ObjectOf (t : Tree) (i j : t.Id) : Prop where
  parent_eq : t.parent i = some j
  kind_mem : t.kind j ∈ chainKinds
  object_eq : t.childInRole j "object" = some i

/-- Node `i` is on the spine of `r`: it is `r`, or a chain that is reached from `r` by going from
objects to their chains. -/
def OnSpine (t : Tree) (r i : t.Id) : Prop :=
  Relation.ReflTransGen (ObjectOf t) r i

theorem outerChain?_eq_some_iff : outerChain? t i = some j ↔ ObjectOf t i j := by
  rw [outerChain?, Option.filter_eq_some_iff, Bool.and_eq_true, List.contains_iff_mem,
    decide_eq_true_eq]
  constructor
  · rintro ⟨hparent, hkind, hobject⟩
    exact ⟨hparent, hkind, hobject⟩
  · rintro ⟨hparent, hkind, hobject⟩
    exact ⟨hparent, hkind, hobject⟩

/-- A node is the object of one chain at most. -/
theorem ObjectOf.unique (hj : ObjectOf t i j) (hk : ObjectOf t i k) : j = k :=
  Option.some.inj (hj.parent_eq.symm.trans hk.parent_eq)

/-- **No spine goes on for ever**: chains come before their objects in document order. -/
theorem wellFounded_objectOf (t : Tree) : WellFounded fun j i => ObjectOf t i j := by
  refine Subrelation.wf ?_ (measure fun i : t.Id => i.val).wf
  intro j i h
  exact t.lt_of_parent h.parent_eq

/-! ## 2. Nodes that can be wrapped -/

/-- Node `i` is the only child of `parent` that is named and no comment. -/
def SoleItem (t : Tree) (parent i : t.Id) : Prop :=
  ∀ j, (t.parent j = some parent ∧ (t.label j).named = true ∧ t.isComment j = false) ↔ j = i

/-- Node `i` can be wrapped. -/
inductive Eligible (t : Tree) (i : t.Id) : Prop
  /-- It is an argument of a call. -/
  | argument {parent : t.Id} (hparent : t.parent i = some parent)
      (hkind : t.kind parent = "arguments")
  /-- It is all there is in an interpolation. -/
  | interpolated {parent : t.Id} (hparent : t.parent i = some parent)
      (hkind : t.kind parent ∈ interpolationKinds) (hsole : SoleItem t parent i)

theorem items_eq_singleton_iff {parent : t.Id} : t.items parent = [i] ↔ SoleItem t parent i := by
  rw [Tree.eq_singleton_iff_of_nodup ((Tree.pairwise_items parent).imp Fin.ne_of_lt)]
  simp only [Tree.mem_items_iff]
  rfl

theorem isWrappable_iff : isWrappable t i = true ↔ Eligible t i := by
  unfold isWrappable
  constructor
  · intro h
    split at h
    · cases h
    · next parent hparent =>
      rw [Bool.or_eq_true, Bool.and_eq_true, decide_eq_true_eq, decide_eq_true_eq,
        List.contains_iff_mem, items_eq_singleton_iff] at h
      rcases h with hkind | ⟨hkind, hsole⟩
      · exact .argument hparent hkind
      · exact .interpolated hparent hkind hsole
  · rintro (⟨hparent, hkind⟩ | ⟨hparent, hkind, hsole⟩)
    · simp [hparent, hkind]
    · simp [hparent, hkind, items_eq_singleton_iff.mpr hsole]

/-- What stands around a node that can be wrapped is no chain. -/
theorem Eligible.not_objectOf (hi : Eligible t i) (hj : ObjectOf t i j) : False := by
  have hchain := hj.kind_mem
  rcases hi with ⟨hparent, hkind⟩ | ⟨hparent, hkind, -⟩
  · rw [hj.parent_eq] at hparent
    cases hparent
    rw [hkind] at hchain
    exact absurd hchain (by decide)
  · rw [hj.parent_eq] at hparent
    cases hparent
    have hapart : ∀ kind ∈ interpolationKinds, kind ∉ chainKinds := by decide
    exact hapart _ hkind hchain

/-- The spine of a node that can be wrapped is that node. -/
theorem Eligible.eq_of_onSpine (hi : Eligible t i) (hj : OnSpine t i j) : i = j := by
  rcases Relation.ReflTransGen.cases_head hj with hij | ⟨k, hk, -⟩
  · exact hij
  · exact (hi.not_objectOf hk).elim

/-- **No two nodes of one spine can be wrapped.** -/
theorem eq_of_eligible (hi : OnSpine t r i) (hj : OnSpine t r j) (hie : Eligible t i)
    (hje : Eligible t j) : i = j := by
  induction hi using Relation.ReflTransGen.head_induction_on with
  | refl => exact hie.eq_of_onSpine hj
  | head hstep _ ih =>
    -- The other node is further up as well, and there is one way up.
    rcases Relation.ReflTransGen.cases_head hj with rfl | ⟨k, hk, hkj⟩
    · exact (hje.not_objectOf hstep).elim
    · rw [← hstep.unique hk] at hkj
      exact ih hkj

/-- **The climb finds what can be wrapped on the spine.** -/
theorem wrappableFrom_eq_some_iff :
    wrappableFrom t r = some i ↔ OnSpine t r i ∧ Eligible t i := by
  induction r using wrappableFrom.induct t with
  | case1 r hr =>
    have hre := isWrappable_iff.mp hr
    rw [wrappableFrom, if_pos hr, Option.some.injEq]
    constructor
    · rintro rfl
      exact ⟨.refl, hre⟩
    · rintro ⟨hi, -⟩
      exact hre.eq_of_onSpine hi
  | case2 r hr hnone =>
    rw [wrappableFrom_of_outerChain?_eq_none hr hnone]
    constructor
    · intro h
      cases h
    · rintro ⟨hi, hie⟩
      rcases Relation.ReflTransGen.cases_head hi with rfl | ⟨k, hk, -⟩
      · exact absurd (isWrappable_iff.mpr hie) hr
      · rw [outerChain?_eq_some_iff.mpr hk] at hnone
        cases hnone
  | case3 r hr k hk ih =>
    have hrk := outerChain?_eq_some_iff.mp hk
    rw [wrappableFrom_of_outerChain? hr hk, ih]
    constructor
    · rintro ⟨hi, hie⟩
      exact ⟨hi.head hrk, hie⟩
    · rintro ⟨hi, hie⟩
      rcases Relation.ReflTransGen.cases_head hi with rfl | ⟨k', hk', hi⟩
      · exact absurd (isWrappable_iff.mpr hie) hr
      · rw [← hrk.unique hk'] at hi
        exact ⟨hi, hie⟩

/-! ## 3. The call of a reference -/

/-- The reference that `u` is a parse of ends in an optional accessor: the first item of the first
item of the root is a chain with an optional link among its children. -/
def EndsInOptional (u : Tree) : Prop :=
  ∃ statement expression, (u.items u.root).head? = some statement
    ∧ (u.items statement).head? = some expression ∧ u.kind expression ∈ chainKinds
    ∧ ∃ link, u.parent link = some expression ∧ u.kind link = "optional_chain"

/-- How the reference that `u` is a parse of is called. -/
inductive Called (u : Tree) : Text → Prop
  | optional (h : EndsInOptional u) : Called u "?.()".toList
  | plain (h : ¬ EndsInOptional u) : Called u "()".toList

theorem endsOptional_iff {u : Tree} : endsOptional u = true ↔ EndsInOptional u := by
  unfold endsOptional EndsInOptional
  cases hstatement : (u.items u.root).head? with
  | none => simp
  | some statement =>
    cases hexpression : (u.items statement).head? with
    | none => simp [hexpression]
    | some expression => simp [hexpression]

theorem exists_called {u : Tree} {text : Text} (hu : parser t.variant text = some u) :
    ∃ call, callOf t parser text = .ok call ∧ Called u call := by
  unfold callOf
  rw [hu]
  by_cases hends : endsOptional u = true
  · exact ⟨_, rfl, by rw [if_pos hends]; exact .optional (endsOptional_iff.mp hends)⟩
  · exact ⟨_, rfl, by rw [if_neg hends]; exact .plain (mt endsOptional_iff.mpr hends)⟩

/-! ## 4. Wrapping -/

/-- Node `i` is the reference to wrap at `p`: it can be wrapped, and it is on the spine of `r`, the
closest reference there. -/
structure Chosen (t : Tree) (p : Position) (weight : Nat) (r i : t.Id) : Prop where
  closest : t.smallestAround (t.allOfKind referenceKinds) p weight = some r
  onSpine : OnSpine t r i
  eligible : Eligible t i

theorem Chosen.target (h : Chosen t p weight r i) : Target t p weight i :=
  ⟨r, h.closest, wrappableFrom_eq_some_iff.mpr ⟨h.onSpine, h.eligible⟩⟩

/-- What is wrapped is chosen. -/
theorem Made.exists_chosen (m : Made t p weight) : ∃ r, Chosen t p weight r m.node := by
  obtain ⟨r, hr, hwrap⟩ := m.found
  obtain ⟨hspine, heligible⟩ := wrappableFrom_eq_some_iff.mp hwrap
  exact ⟨r, hr, hspine, heligible⟩

/-- What a wrap makes of the source. -/
theorem Made.splice_eq (m : Made t p weight) (call : Text) (cursor : Position) :
    (m.edit call cursor).spliceInto? t.source
      = some (m.before ++ ("() => ".toList ++ m.text ++ call) ++ m.after) :=
  (m.replaces call cursor).splice

/-- **A reference that parses on its own is wrapped**, or its cursor leaves its words. -/
theorem Made.ok_or_overflows (m : Made t p weight) (o : Overflow) {u : Tree}
    (hu : parser t.variant m.text = some u) :
    (∃ e, run t o parser p weight = .ok e) ∨ (run t o parser p weight).Overflows := by
  obtain ⟨call, hcall, -⟩ := exists_called hu
  exact (m.lands_run hcall o).ok_or_overflows

theorem Made.exists_run (m : Made t p weight) {u : Tree} (hu : parser t.variant m.text = some u)
    (hroom : o = .wraps ∨ p.HasRoom (t.source.byteLength + arrow.byteLength)) :
    ∃ e, run t o parser p weight = .ok e := by
  obtain ⟨call, hcall, -⟩ := exists_called hu
  rcases hroom with hwraps | hroom
  · exact ⟨_, (m.lands_run hcall o).wraps hwraps⟩
  · obtain ⟨hstart, hcursor⟩ := m.fits hroom
    exact ⟨_, (m.lands_run hcall o).fits hstart hcursor⟩

theorem Made.run_of_parser_eq_none (m : Made t p weight)
    (hnone : parser t.variant m.text = none) :
    run t o parser p weight
      = .error (.declined (Error.parse t.variant.grammar).toFailure) := by
  rw [m.run_eq, callOf, hnone]
  rfl

/-- **What a wrap comes to.** The reference that is wrapped parses, and its bytes become an arrow,
its text and its call. -/
theorem Made.exists_called_of_run_eq_ok (m : Made t p weight) {e : Edit}
    (h : run t o parser p weight = .ok e) : ∃ u call, parser t.variant m.text = some u
      ∧ Called u call ∧ e.spliceInto? t.source
          = some (m.before ++ ("() => ".toList ++ m.text ++ call) ++ m.after) := by
  cases hu : parser t.variant m.text with
  | none =>
    rw [m.run_of_parser_eq_none hu] at h
    cases h
  | some u =>
    obtain ⟨call, hcall, hcalled⟩ := exists_called hu
    obtain ⟨rfl, -⟩ := (m.lands_run hcall o).eq_of_ok h
    exact ⟨u, call, rfl, hcalled, m.splice_eq call _⟩

theorem run_of_no_reference
    (h : t.smallestAround (t.allOfKind referenceKinds) p weight = none) :
    run t o parser p weight = noMatch .noReference := by
  unfold run
  rw [h]
  rfl

theorem run_of_none_eligible
    (hr : t.smallestAround (t.allOfKind referenceKinds) p weight = some r)
    (h : ∀ i, OnSpine t r i → ¬ Eligible t i) :
    run t o parser p weight = noMatch .notWrappable := by
  have hnone : wrappableFrom t r = none := by
    rw [Option.eq_none_iff_forall_ne_some]
    intro i hi
    obtain ⟨hspine, heligible⟩ := wrappableFrom_eq_some_iff.mp hi
    exact h i hspine heligible
  unfold run
  rw [hr, need, ok_bind, hnone]
  rfl

/-- **Wrapping takes exactly the reference on the spine that can be wrapped.** Every spine comes
to an end, and at most one node of it can be wrapped.

* If there is such a node on the spine of the closest reference, it contains the cursor. If its
  text parses on its own, the node's bytes become an arrow, that text and a call, and the call is
  optional exactly if the reference ends in an optional accessor; if it does not parse, that is
  the failure.
* Without a reference at the cursor, or without such a node on its spine, nothing matches.

So wrapping succeeds exactly if there is such a node and its text parses. Where sums that leave their
words are refused, the column of the cursor has to leave room for the bytes of the source and of an
arrow; without that room the position of the cursor may be refused instead. -/
theorem run_wraps_eligible (hwf : t.WellFormed) (o : Overflow) (parser : Parser) (p : Position)
    (weight : Nat) :
    (WellFounded fun j i => ObjectOf t i j)
      ∧ (∀ r i j, OnSpine t r i → OnSpine t r j → Eligible t i → Eligible t j → i = j)
      ∧ (∀ r i, Chosen t p weight r i → t.covers i p = true
          ∧ ∃ before text after, t.Reads i before text after
            ∧ (∀ u, parser t.variant text = some u →
                (o = .wraps ∨ p.HasRoom (t.source.byteLength + arrow.byteLength) →
                    ∃ e, run t o parser p weight = .ok e)
                  ∧ ((∃ e, run t o parser p weight = .ok e)
                      ∨ (run t o parser p weight).Overflows)
                  ∧ ∀ e, run t o parser p weight = .ok e → ∃ call, Called u call
                      ∧ e.spliceInto? t.source
                          = some (before ++ ("() => ".toList ++ text ++ call) ++ after))
            ∧ (parser t.variant text = none → run t o parser p weight
                = .error (.declined (Error.parse t.variant.grammar).toFailure)))
      ∧ (t.smallestAround (t.allOfKind referenceKinds) p weight = none →
          run t o parser p weight = noMatch .noReference)
      ∧ (∀ r, t.smallestAround (t.allOfKind referenceKinds) p weight = some r →
          (∀ i, OnSpine t r i → ¬ Eligible t i) →
          run t o parser p weight = noMatch .notWrappable)
      ∧ (o = .wraps ∨ p.HasRoom (t.source.byteLength + arrow.byteLength) →
          ((∃ e, run t o parser p weight = .ok e) ↔
            ∃ r i text u, Chosen t p weight r i ∧ t.text i = .ok text
              ∧ parser t.variant text = some u)) := by
  refine ⟨wellFounded_objectOf t, fun r i j => eq_of_eligible, ?chosen,
    run_of_no_reference, fun r => run_of_none_eligible, ?success⟩
  case chosen =>
    intro r i h
    obtain ⟨m, rfl⟩ := h.target.exists_made hwf
    refine ⟨h.target.covers hwf, m.before, m.text, m.after, m.reads, ?_, m.run_of_parser_eq_none⟩
    intro u hu
    refine ⟨m.exists_run hu, m.ok_or_overflows o hu, ?_⟩
    intro e he
    obtain ⟨u', call, hu', hcalled, hsplice⟩ := m.exists_called_of_run_eq_ok he
    obtain rfl : u = u' := Option.some.inj (hu.symm.trans hu')
    exact ⟨call, hcalled, hsplice⟩
  case success =>
    intro hroom
    constructor
    · rintro ⟨e, he⟩
      obtain ⟨m, -, -, -⟩ := exists_made_of_run_eq_ok hwf he
      obtain ⟨r, hr⟩ := m.exists_chosen
      obtain ⟨u, -, hu, -⟩ := m.exists_called_of_run_eq_ok he
      exact ⟨r, m.node, m.text, u, hr, m.reads.text_eq, hu⟩
    · rintro ⟨r, i, text, u, h, htext, hu⟩
      obtain ⟨m, rfl⟩ := h.target.exists_made hwf
      obtain rfl : m.text = text := Except.ok.inj (m.reads.text_eq.symm.trans htext)
      exact m.exists_run hu hroom

end Wrap

/-- A parse of `f(a?.b)`. -/
def Tree.sampleReference : Tree :=
  (ofRows? "f(a?.b)".toList .module [
    ⟨0, ⟨"program", true, none, ⟨⟨0, 0⟩, ⟨0, 7⟩⟩, 0, 7⟩⟩,
    ⟨1, ⟨"expression_statement", true, none, ⟨⟨0, 0⟩, ⟨0, 7⟩⟩, 0, 7⟩⟩,
    ⟨2, ⟨"call_expression", true, none, ⟨⟨0, 0⟩, ⟨0, 7⟩⟩, 0, 7⟩⟩,
    ⟨3, ⟨"identifier", true, some "function", ⟨⟨0, 0⟩, ⟨0, 1⟩⟩, 0, 1⟩⟩,
    ⟨3, ⟨"arguments", true, some "arguments", ⟨⟨0, 1⟩, ⟨0, 7⟩⟩, 1, 7⟩⟩,
    ⟨4, ⟨"(", false, none, ⟨⟨0, 1⟩, ⟨0, 2⟩⟩, 1, 2⟩⟩,
    ⟨4, ⟨"member_expression", true, none, ⟨⟨0, 2⟩, ⟨0, 6⟩⟩, 2, 6⟩⟩,
    ⟨5, ⟨"identifier", true, some "object", ⟨⟨0, 2⟩, ⟨0, 3⟩⟩, 2, 3⟩⟩,
    ⟨5, ⟨"optional_chain", true, some "optional_chain", ⟨⟨0, 3⟩, ⟨0, 5⟩⟩, 3, 5⟩⟩,
    ⟨6, ⟨"?.", false, none, ⟨⟨0, 3⟩, ⟨0, 5⟩⟩, 3, 5⟩⟩,
    ⟨5, ⟨"property_identifier", true, some "property", ⟨⟨0, 5⟩, ⟨0, 6⟩⟩, 5, 6⟩⟩,
    ⟨4, ⟨")", false, none, ⟨⟨0, 6⟩, ⟨0, 7⟩⟩, 6, 7⟩⟩]).get (by decide)

theorem Tree.sampleReference_wellFormed : sampleReference.WellFormed where
  eq_root := by decide
  preorder := by decide
  start_le_end := by decide
  start_at := by decide
  stop_at := by decide
  nested := by decide
  disjoint := by decide

/-- A parse of `a?.b`. -/
def Tree.sampleOptional : Tree :=
  (ofRows? "a?.b".toList .module [
    ⟨0, ⟨"program", true, none, ⟨⟨0, 0⟩, ⟨0, 4⟩⟩, 0, 4⟩⟩,
    ⟨1, ⟨"expression_statement", true, none, ⟨⟨0, 0⟩, ⟨0, 4⟩⟩, 0, 4⟩⟩,
    ⟨2, ⟨"member_expression", true, none, ⟨⟨0, 0⟩, ⟨0, 4⟩⟩, 0, 4⟩⟩,
    ⟨3, ⟨"identifier", true, some "object", ⟨⟨0, 0⟩, ⟨0, 1⟩⟩, 0, 1⟩⟩,
    ⟨3, ⟨"optional_chain", true, some "optional_chain", ⟨⟨0, 1⟩, ⟨0, 3⟩⟩, 1, 3⟩⟩,
    ⟨4, ⟨"?.", false, none, ⟨⟨0, 1⟩, ⟨0, 3⟩⟩, 1, 3⟩⟩,
    ⟨3, ⟨"property_identifier", true, some "property", ⟨⟨0, 3⟩, ⟨0, 4⟩⟩, 3, 4⟩⟩]).get (by decide)

/-- From `a` the spine goes on to `a?.b`, which is an argument. -/
theorem Wrap.sampleReference_chosen :
    Wrap.Chosen Tree.sampleReference ⟨0, 2⟩ 1000 ⟨7, by decide⟩ ⟨6, by decide⟩ := by
  have hclosest : Tree.sampleReference.smallestAround
      (Tree.sampleReference.allOfKind Wrap.referenceKinds) ⟨0, 2⟩ 1000
        = some ⟨7, by decide⟩ := by
    decide +kernel
  have hwrap : Wrap.wrappableFrom Tree.sampleReference ⟨7, by decide⟩ = some ⟨6, by decide⟩ := by
    decide +kernel
  obtain ⟨hspine, heligible⟩ := Wrap.wrappableFrom_eq_some_iff.mp hwrap
  exact ⟨hclosest, hspine, heligible⟩

/-- The edit that wraps the argument of `sampleReference`. -/
def Wrap.sampleEdit : Edit where
  span := ⟨⟨0, 2⟩, ⟨0, 6⟩⟩
  replaced := "a?.b".toList
  replacement := "() => a?.b?.()".toList
  cursor := some ⟨0, 8⟩

/-- With the cursor on `a`, all of `a?.b` is wrapped, and its call is optional. -/
theorem Wrap.run_wraps_eligible_sampleReference :
    Tree.sampleReference.WellFormed
      ∧ Wrap.Chosen Tree.sampleReference ⟨0, 2⟩ 1000 ⟨7, by decide⟩ ⟨6, by decide⟩
      ∧ Wrap.run Tree.sampleReference .wraps (fun _ _ => some Tree.sampleOptional) ⟨0, 2⟩ 1000
          = .ok Wrap.sampleEdit
      ∧ ∃ before text after call,
          Tree.sampleReference.Reads ⟨6, by decide⟩ before text after
            ∧ Wrap.Called Tree.sampleOptional call
            ∧ Wrap.sampleEdit.spliceInto? Tree.sampleReference.source
                = some (before ++ ("() => ".toList ++ text ++ call) ++ after) := by
  have hedit : Wrap.run Tree.sampleReference .wraps (fun _ _ => some Tree.sampleOptional)
      ⟨0, 2⟩ 1000 = .ok Wrap.sampleEdit :=
    Attempt.eq_ok_of_toOption (by decide +kernel)
  obtain ⟨-, -, hchosen, -⟩ := Wrap.run_wraps_eligible Tree.sampleReference_wellFormed .wraps
    (fun _ _ => some Tree.sampleOptional) ⟨0, 2⟩ 1000
  obtain ⟨-, before, text, after, hreads, hwrapped, -⟩ := hchosen _ _ Wrap.sampleReference_chosen
  obtain ⟨-, -, hresult⟩ := hwrapped _ rfl
  obtain ⟨call, hcalled, hsplice⟩ := hresult _ hedit
  exact ⟨Tree.sampleReference_wellFormed, Wrap.sampleReference_chosen, hedit, before, text, after,
    call, hreads, hcalled, hsplice⟩

end AnchoredEdit
