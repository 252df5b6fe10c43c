/-
`Proofs/Syntax/Locate.lean` -- finding a node again by what it looks like.

A description keeps a node's span, text and kind. On the tree it was taken from, the span leads
back to the node and to whatever else covers that span; all of those read the same text, because
a span in lines and columns stands for one pair of byte offsets. Only the kind can tell them
apart. So a node is found again as soon as no other node has both its span and its kind, and it
does not matter which of the nodes on the span is looked at first.
-/
import AnchoredEdit.Proofs.Syntax.Path
import AnchoredEdit.Syntax.Descriptor

set_option autoImplicit false

namespace AnchoredEdit

namespace Tree

variable {t : Tree} {i j : t.Id} {s : Span} {d : Descriptor} {cursor : Option Position}

/-! ## 1. Nodes on one span -/

/-- **Nodes on one span read the same text.** -/
theorem WellFormed.text_eq_of_span_eq (hwf : t.WellFormed) (h : t.span i = t.span j) :
    t.text i = t.text j := by
  have hstart : t.startByte i = t.startByte j := by
    have hi := Text.offsetOf?_of_positionAt? (hwf.start_at i)
    rw [h, Text.offsetOf?_of_positionAt? (hwf.start_at j)] at hi
    exact (Option.some.inj hi).symm
  have hend : t.endByte i = t.endByte j := by
    have hi := Text.offsetOf?_of_positionAt? (hwf.stop_at i)
    rw [h, Text.offsetOf?_of_positionAt? (hwf.stop_at j)] at hi
    exact (Option.some.inj hi).symm
  show t.source.slice (t.startByte i) (t.endByte i) = t.source.slice (t.startByte j) (t.endByte j)
  rw [hstart, hend]

/-- Every node of a tree that belongs to its source can be described. -/
theorem WellFormed.exists_describe (hwf : t.WellFormed) (i : t.Id) (cursor : Option Position) :
    ∃ text, t.text i = .ok text
      ∧ t.describe i cursor = .ok ⟨t.span i, text, t.kind i, cursor⟩ := by
  obtain ⟨before, text, after, hreads⟩ := hwf.exists_reads i
  refine ⟨text, hreads.text_eq, ?_⟩
  rw [describe, hreads.text_eq]
  rfl

theorem mem_nodesOn : i ∈ t.nodesOn s ↔ t.span i = s := by
  simp [nodesOn, ids]

theorem nodup_nodesOn (t : Tree) (s : Span) : (t.nodesOn s).Nodup :=
  (List.nodup_finRange _).filter _

theorem nodesOn_eq_singleton_iff : t.nodesOn s = [i] ↔ ∀ j, t.span j = s ↔ j = i := by
  rw [eq_singleton_iff_of_nodup (nodup_nodesOn t s)]
  simp only [mem_nodesOn]

/-- What only node `i` satisfies among the nodes on a span leaves just `i` of them. -/
theorem filter_nodesOn_eq_singleton_iff {q : t.Id → Bool} :
    (t.nodesOn s).filter q = [i] ↔ ∀ j, (t.span j = s ∧ q j = true) ↔ j = i := by
  rw [eq_singleton_iff_of_nodup ((nodup_nodesOn t s).filter _)]
  simp only [List.mem_filter, mem_nodesOn]

/-! ## 2. What a description matches -/

/-- The element of a list that has just one. -/
def sole? {α : Type} : List α → Option α
  | [a] => some a
  | _ => none

theorem sole?_eq_some_iff {α : Type} {l : List α} {a : α} : sole? l = some a ↔ l = [a] := by
  unfold sole?
  split
  · rw [Option.some.injEq, List.singleton_inj]
  · next h =>
    constructor
    · intro hnone
      cases hnone
    · intro hl
      exact absurd hl (h a)

/-- What locating a description comes to, once a node on its span has been read. -/
theorem locate_of_nodesOn {first : t.Id} {rest : List t.Id} {text : Text}
    (hon : t.nodesOn d.span = first :: rest) (htext : t.text first = .ok text) :
    t.locate d = .ok (if text = d.text then
      if rest = [] then some first
      else sole? ((t.nodesOn d.span).filter fun i => t.kind i = d.kind)
      else none) := by
  rw [hon]
  unfold locate
  rw [hon]
  dsimp only
  rw [htext]
  show (if text ≠ d.text then _ else _) = _
  by_cases hstale : text = d.text
  · rw [if_neg (not_not_intro hstale), if_pos hstale]
    by_cases hrest : rest = []
    · rw [if_pos hrest, if_pos hrest]
      rfl
    · rw [if_neg hrest, if_neg hrest]
      generalize (first :: rest).filter (fun i => decide (t.kind i = d.kind)) = left
      match left with
      | [] => rfl
      | [_] => rfl
      | _ :: _ :: _ => rfl
  · rw [if_pos hstale, if_neg hstale]
    rfl

/-- Node `i` is what the description `d` is of: it has the span and the text, and it is the only
node on the span, or the only one of the described kind there. -/
structure Matches (t : Tree) (d : Descriptor) (i : t.Id) : Prop where
  span_eq : t.span i = d.span
  text_eq : t.text i = .ok d.text
  unique : (∀ j, t.span j = d.span ↔ j = i)
    ∨ ∀ j, (t.span j = d.span ∧ t.kind j = d.kind) ↔ j = i

namespace WellFormed

/-- Locating a description comes to an end with a node or without one. -/
theorem exists_locate (hwf : t.WellFormed) (d : Descriptor) :
    ∃ found, t.locate d = .ok found := by
  cases hon : t.nodesOn d.span with
  | nil =>
    refine ⟨none, ?_⟩
    rw [locate, hon]
    rfl
  | cons first rest =>
    obtain ⟨text, htext, -⟩ := hwf.exists_describe first none
    exact ⟨_, locate_of_nodesOn hon htext⟩

/-- **A description is located exactly at the node that it matches.** The text of one node on the
span stands for the text of all of them. -/
theorem locate_eq_some_iff (hwf : t.WellFormed) :
    t.locate d = .ok (some i) ↔ t.Matches d i := by
  cases hon : t.nodesOn d.span with
  | nil =>
    have hnone : t.locate d = .ok none := by
      rw [locate, hon]
      rfl
    rw [hnone]
    constructor
    · intro h
      cases h
    · intro h
      have hmem := mem_nodesOn.mpr h.span_eq
      rw [hon] at hmem
      cases hmem
  | cons first rest =>
    obtain ⟨text, htext, -⟩ := hwf.exists_describe first none
    have hfirst : t.span first = d.span := by
      rw [← mem_nodesOn, hon]
      exact List.mem_cons_self ..
    have htext_iff : t.span i = d.span → (t.text i = .ok d.text ↔ text = d.text) := by
      intro hi
      rw [hwf.text_eq_of_span_eq (hi.trans hfirst.symm), htext, Except.ok.injEq]
    rw [locate_of_nodesOn hon htext, Except.ok.injEq]
    by_cases hstale : text = d.text
    · rw [if_pos hstale]
      by_cases hrest : rest = []
      · rw [hrest, nodesOn_eq_singleton_iff] at hon
        rw [if_pos hrest, Option.some.injEq]
        constructor
        · rintro rfl
          exact ⟨hfirst, (htext_iff hfirst).mpr hstale, .inl hon⟩
        · intro h
          exact ((hon i).mp h.span_eq).symm
      · rw [if_neg hrest, sole?_eq_some_iff, filter_nodesOn_eq_singleton_iff]
        simp only [decide_eq_true_eq]
        constructor
        · intro hunique
          have hi := ((hunique i).mpr rfl).1
          exact ⟨hi, (htext_iff hi).mpr hstale, .inr hunique⟩
        · rintro ⟨-, -, hsole | hunique⟩
          · -- A node alone on the span would leave nothing behind the first one.
            rw [← nodesOn_eq_singleton_iff, hon] at hsole
            exact absurd (List.cons.inj hsole).2 hrest
          · exact hunique
    · rw [if_neg hstale]
      constructor
      · intro h
        cases h
      · intro h
        exact absurd ((htext_iff h.span_eq).mp h.text_eq) hstale

theorem locate_eq_none_iff (hwf : t.WellFormed) :
    t.locate d = .ok none ↔ ∀ i, ¬ t.Matches d i := by
  constructor
  · intro h i hi
    rw [← hwf.locate_eq_some_iff, h] at hi
    cases hi
  · intro h
    obtain ⟨found, hfound⟩ := hwf.exists_locate d
    cases found with
    | none => exact hfound
    | some i => exact absurd (hwf.locate_eq_some_iff.mp hfound) (h i)

/-! ## 3. Descriptions of a tree's own nodes -/

/-- **A node's description matches that node or nothing.** It matches unless another node has
both the span and the kind. -/
theorem matches_describe_iff (hwf : t.WellFormed) (hd : t.describe i cursor = .ok d) :
    t.Matches d j ↔ j = i ∧ ∀ k, t.span k = t.span i → t.kind k = t.kind i → k = i := by
  obtain ⟨text, htext, hdescribe⟩ := hwf.exists_describe i cursor
  rw [hdescribe] at hd
  cases hd
  constructor
  · rintro ⟨-, -, hsole | hunique⟩
    · obtain rfl : i = j := (hsole i).mp rfl
      exact ⟨rfl, fun k hk _ => (hsole k).mp hk⟩
    · obtain rfl : i = j := (hunique i).mp ⟨rfl, rfl⟩
      exact ⟨rfl, fun k hk hkind => (hunique k).mp ⟨hk, hkind⟩⟩
  · rintro ⟨rfl, hunique⟩
    refine ⟨rfl, htext, .inr ?_⟩
    intro k
    constructor
    · rintro ⟨hk, hkind⟩
      exact hunique k hk hkind
    · rintro rfl
      exact ⟨rfl, rfl⟩

end WellFormed

/-- **A description of the node at a position leads back to it**, unless a node around it looks
the same. Every node on its span contains the position too, so only those around it count. -/
theorem WellFormed.locate_of_innermostAt (hwf : t.WellFormed) {q : Position}
    (hi : t.innermostAt q = some i) (hd : t.describe i cursor = .ok d)
    (hdistinct : ∀ j ∈ t.ancestors i, ¬ (t.span j = t.span i ∧ t.kind j = t.kind i)) :
    t.locate d = .ok (some i) := by
  rw [hwf.locate_eq_some_iff, hwf.matches_describe_iff hd]
  refine ⟨rfl, ?_⟩
  intro j hj hkind
  have hcovers : t.covers j q = true := by
    have hiq := covers_of_innermostAt hi
    rw [covers] at hiq ⊢
    rw [hj]
    exact hiq
  rcases (hwf.spansNested.covers_iff_mem_path hi).mp hcovers with hji | hji
  · exact hji
  · exact absurd ⟨hj, hkind⟩ (hdistinct j hji)

/-- **Locating a description is finding its unique match.** A description is located at a node
exactly if the node has its span and its text and no other node is on the span, or none of the
described kind; it is located nowhere exactly if it matches no node. The description of a node of
the tree can be made, it leads back to the node exactly if no other node has both its span and its
kind, otherwise nowhere, and never to another node. -/
theorem locate_is_unique_match (hwf : t.WellFormed) :
    (∀ d i, t.locate d = .ok (some i) ↔ t.Matches d i)
      ∧ (∀ d, t.locate d = .ok none ↔ ∀ i, ¬ t.Matches d i)
      ∧ ∀ i cursor, ∃ d, t.describe i cursor = .ok d
          ∧ (t.locate d = .ok (some i) ↔
              ∀ j, t.span j = t.span i → t.kind j = t.kind i → j = i)
          ∧ (t.locate d = .ok none ↔
              ∃ j, j ≠ i ∧ t.span j = t.span i ∧ t.kind j = t.kind i)
          ∧ ∀ j, t.locate d = .ok (some j) → j = i := by
  refine ⟨fun d i => hwf.locate_eq_some_iff, fun d => hwf.locate_eq_none_iff, ?_⟩
  intro i cursor
  obtain ⟨text, -, hdescribe⟩ := hwf.exists_describe i cursor
  refine ⟨_, hdescribe, ?found, ?lost, ?never⟩
  case found =>
    rw [hwf.locate_eq_some_iff, hwf.matches_describe_iff hdescribe]
    exact and_iff_right rfl
  case lost =>
    rw [hwf.locate_eq_none_iff]
    simp only [hwf.matches_describe_iff hdescribe]
    grind
  case never =>
    intro j hj
    rw [hwf.locate_eq_some_iff, hwf.matches_describe_iff hdescribe] at hj
    exact hj.1

/-- A parse of `f(g(`: both lists of arguments are closed by a parenthesis of no width, at the same
place, and three nodes cover all of the text. -/
def sampleUnclosed : Tree :=
  (ofRows? "f(g(".toList .module [
    ⟨0, ⟨"program", true, none, ⟨⟨0, 0⟩, ⟨0, 4⟩⟩, 0, 4⟩⟩,
    ⟨1, ⟨"expression_statement", true, none, ⟨⟨0, 0⟩, ⟨0, 4⟩⟩, 0, 4⟩⟩,
    ⟨2, ⟨"call_expression", true, none, ⟨⟨0, 0⟩, ⟨0, 4⟩⟩, 0, 4⟩⟩,
    ⟨3, ⟨"identifier", true, some "function", ⟨⟨0, 0⟩, ⟨0, 1⟩⟩, 0, 1⟩⟩,
    ⟨3, ⟨"arguments", true, some "arguments", ⟨⟨0, 1⟩, ⟨0, 4⟩⟩, 1, 4⟩⟩,
    ⟨4, ⟨"(", false, none, ⟨⟨0, 1⟩, ⟨0, 2⟩⟩, 1, 2⟩⟩,
    ⟨4, ⟨"call_expression", true, none, ⟨⟨0, 2⟩, ⟨0, 4⟩⟩, 2, 4⟩⟩,
    ⟨5, ⟨"identifier", true, some "function", ⟨⟨0, 2⟩, ⟨0, 3⟩⟩, 2, 3⟩⟩,
    ⟨5, ⟨"arguments", true, some "arguments", ⟨⟨0, 3⟩, ⟨0, 4⟩⟩, 3, 4⟩⟩,
    ⟨6, ⟨"(", false, none, ⟨⟨0, 3⟩, ⟨0, 4⟩⟩, 3, 4⟩⟩,
    ⟨6, ⟨")", false, none, ⟨⟨0, 4⟩, ⟨0, 4⟩⟩, 4, 4⟩⟩,
    ⟨4, ⟨")", false, none, ⟨⟨0, 4⟩, ⟨0, 4⟩⟩, 4, 4⟩⟩]).get (by decide)

theorem sampleUnclosed_wellFormed : sampleUnclosed.WellFormed where
  eq_root := by decide
  preorder := by decide
  start_le_end := by decide
  start_at := by decide
  stop_at := by decide
  nested := by decide
  disjoint := by decide

/-- The outer call is told apart from what covers the same text; the two closing parentheses are
not told apart. -/
theorem locate_is_unique_match_sampleUnclosed :
    sampleUnclosed.WellFormed
      ∧ (∃ d, sampleUnclosed.describe ⟨2, by decide⟩ none = .ok d
          ∧ sampleUnclosed.locate d = .ok (some ⟨2, by decide⟩))
      ∧ ∃ d, sampleUnclosed.describe ⟨10, by decide⟩ none = .ok d
          ∧ sampleUnclosed.locate d = .ok none := by
  obtain ⟨-, -, hown⟩ := locate_is_unique_match sampleUnclosed_wellFormed
  obtain ⟨call, hcall, hfound, -, -⟩ := hown ⟨2, by decide⟩ none
  obtain ⟨parenthesis, hparenthesis, -, hlost, -⟩ := hown ⟨10, by decide⟩ none
  refine ⟨sampleUnclosed_wellFormed, ⟨call, hcall, hfound.mpr ?_⟩,
    ⟨parenthesis, hparenthesis, hlost.mpr ?_⟩⟩
  · decide
  · exact ⟨⟨11, by decide⟩, by decide, by decide, by decide⟩

end Tree

end AnchoredEdit
