/-
`Proofs/Syntax/Dump.lean` -- a dump has one line for each node of the outline.

What a line shows is mostly text from elsewhere. The texts of leaves are arbitrary pieces of
source; they are quoted, and no quoted text holds a line break. The names of kinds and roles come
from a grammar and are shown as they are, so they have to be free of line breaks themselves. With
that each line of the dump is one line of its text.

The mark is told apart from all that a line may show by one character. Without the mark a line
ends in a digit of its span, in a quote, or in a parenthesis, and the mark ends in none of these.
So a leaf whose text looks like the mark does not pass for the marked node.
-/
import Mathlib.Data.List.Forall2
import AnchoredEdit.Proofs.Syntax.Outline
import AnchoredEdit.Proofs.Text.Lines
import AnchoredEdit.Syntax.Dump

set_option autoImplicit false

namespace AnchoredEdit

/-! ## 1. Quoted texts -/

namespace Text

theorem not_mem_toDigits {b n : Nat} (hb : 1 < b) (hb' : b ≤ 16) : '\n' ∉ Nat.toDigits b n := by
  have hdigit : ∀ d < 16, '\n' ≠ Nat.digitChar d := by decide
  induction n using Nat.strongRecOn with
  | _ n ih =>
    by_cases hn : n < b
    · rw [Nat.toDigits_of_lt_base hn, List.mem_singleton]
      exact hdigit n (by omega)
    · rw [Nat.toDigits_of_base_le hb (by omega), List.mem_append, List.mem_singleton, not_or]
      refine ⟨ih (n / b) (Nat.div_lt_self (by omega) hb), ?_⟩
      exact hdigit _ (Nat.lt_of_lt_of_le (Nat.mod_lt n (by omega)) hb')

theorem not_mem_quoteChar (c : Char) : '\n' ∉ quoteChar c := by
  unfold quoteChar
  split
  case h_7 hbreak _ _ _ =>
    by_cases hc : isUnprintable c = true
    · rw [if_pos hc]
      have hdigits : '\n' ∉ hexDigits c := not_mem_toDigits (by decide) (by decide)
      simp [hdigits]
    · rw [if_neg hc, List.mem_singleton]
      exact Ne.symm hbreak
  all_goals decide

/-- **No quoted text holds a line break.** -/
theorem not_mem_quote (t : Text) : '\n' ∉ quote t := by
  unfold quote
  simp only [List.cons_append, List.mem_cons, List.mem_append, List.mem_flatMap, List.not_mem_nil,
    or_false, not_or, not_exists, not_and]
  refine ⟨by decide, ?_, by decide⟩
  intro c _
  exact not_mem_quoteChar c

theorem getLast?_quote (t : Text) : (quote t).getLast? = some '"' := by
  unfold quote
  rw [List.getLast?_append]
  rfl

end Text

/-! ## 2. Spans -/

theorem Position.toList_toText (p : Position) :
    p.toText.toList = Nat.toDigits 10 p.line ++ ':' :: Nat.toDigits 10 p.column := by
  simp [toText]

theorem Span.toList_toText (s : Span) :
    s.toText.toList = s.start.toText.toList ++ '-' :: s.stop.toText.toList := by
  simp [toText]

theorem Span.not_mem_toText (s : Span) : '\n' ∉ s.toText.toList := by
  have hdigits : ∀ n, '\n' ∉ Nat.toDigits 10 n :=
    fun _ => Text.not_mem_toDigits (by decide) (by decide)
  simp [toList_toText, Position.toList_toText, hdigits]

theorem Span.getLast?_toText (s : Span) :
    ∃ c, s.toText.toList.getLast? = some c ∧ c.isDigit = true := by
  have hne : Nat.toDigits 10 s.stop.column ≠ [] := Nat.toDigits_ne_nil
  have hlast := List.getLast?_eq_some_getLast hne
  refine ⟨_, ?_, Nat.isDigit_of_mem_toDigits (by decide) (by decide) (List.getLast_mem hne)⟩
  rw [toList_toText, Position.toList_toText s.stop, List.getLast?_append, List.getLast?_cons,
    List.getLast?_append, List.getLast?_cons, hlast]
  rfl

/-! ## 3. Lines -/

namespace Tree

variable {t : Tree} {i top marked : t.Id} {width levels depth : Nat}

/-- No name of a kind or of a role in the tree holds a line break. -/
def NamesUnbroken (t : Tree) : Prop :=
  ∀ i, '\n' ∉ (t.kind i).toList ∧ ∀ role ∈ (t.label i).role, '\n' ∉ role.toList

instance (t : Tree) : Decidable t.NamesUnbroken :=
  inferInstanceAs (Decidable (∀ i, '\n' ∉ (t.kind i).toList
    ∧ ∀ role ∈ (t.label i).role, '\n' ∉ role.toList))

/-- The line shows node `i` on level `level`: it is one line, indented by two blanks per level, it
starts with what the node is, and it ends with the mark exactly if `i` is the marked node. -/
structure ShowsNode (t : Tree) (marked i : t.Id) (level : Nat) (line : Text) : Prop where
  unbroken : '\n' ∉ line
  indented : ∃ rest, line = List.replicate (2 * level) ' ' ++ headline (t.label i) ++ rest
  marked_iff : mark <:+ line ↔ i = marked

theorem NamesUnbroken.not_mem_headline (hnames : t.NamesUnbroken) (i : t.Id) :
    '\n' ∉ headline (t.label i) := by
  obtain ⟨hkind, hrole⟩ := hnames i
  unfold headline
  simp only [List.mem_append, List.mem_cons, not_or]
  refine ⟨⟨?role, ?kind⟩, by decide, Span.not_mem_toText _⟩
  case role =>
    split
    · next role h =>
      have hrole := hrole role (by rw [h]; rfl)
      simp [hrole]
    · exact List.not_mem_nil
  case kind =>
    by_cases hnamed : (t.label i).named = true
    · rw [if_pos hnamed]
      exact hkind
    · rw [if_neg hnamed]
      exact Text.not_mem_quote _

theorem getLast?_headline (l : Label) : ∃ c, (headline l).getLast? = some c ∧ c.isDigit = true := by
  obtain ⟨c, hlast, hdigit⟩ := l.span.getLast?_toText
  refine ⟨c, ?_, hdigit⟩
  unfold headline
  rw [List.getLast?_append, List.getLast?_cons, hlast]
  rfl

/-- What is inside of a node fits on its line, and it ends in a quote or a parenthesis. -/
theorem WellFormed.exists_inside (hwf : t.WellFormed) (width : Nat) (atLimit : Bool) (i : t.Id) :
    ∃ inner, t.inside width atLimit i = .ok inner ∧ '\n' ∉ inner
      ∧ (inner = [] ∨ inner.getLast? = some '"' ∨ inner.getLast? = some ')') := by
  unfold inside
  split
  · by_cases hnamed : (t.label i).named = true
    · obtain ⟨before, text, after, hreads⟩ := hwf.exists_reads i
      rw [if_pos hnamed, hreads.text_eq]
      refine ⟨' ' :: Text.quote (text.truncate width), rfl, ?_, .inr (.inl ?_)⟩
      · have hquote := Text.not_mem_quote (text.truncate width)
        simp [hquote]
      · rw [List.getLast?_cons, Text.getLast?_quote]
        rfl
    · rw [if_neg hnamed]
      exact ⟨[], rfl, List.not_mem_nil, .inl rfl⟩
  · by_cases hlimit : atLimit = true
    · rw [if_pos hlimit]
      refine ⟨_, rfl, ?_, .inr (.inr ?_)⟩
      · have hdigits : '\n' ∉ Nat.toDigits 10 (t.children i).length :=
          Text.not_mem_toDigits (by decide) (by decide)
        simp [hdigits]
      · rw [List.getLast?_append]
        rfl
    · rw [if_neg hlimit]
      exact ⟨[], rfl, List.not_mem_nil, .inl rfl⟩

/-- A line does not end like the mark unless the mark was put there. -/
theorem not_mark_suffix {indent inner : Text}
    (hinner : inner = [] ∨ inner.getLast? = some '"' ∨ inner.getLast? = some ')') (l : Label) :
    ¬ mark <:+ indent ++ headline l ++ inner := by
  obtain ⟨c, hlast, hdigit⟩ := getLast?_headline l
  rintro ⟨front, hfront⟩
  have hend : (indent ++ headline l ++ inner).getLast? = some 'r' := by
    rw [← hfront, List.getLast?_append]
    rfl
  rw [List.getLast?_append, List.getLast?_append, hlast] at hend
  rcases hinner with hinner | hinner | hinner
  · rw [hinner, List.getLast?_nil] at hend
    have hc : c = 'r' := Option.some.inj hend
    rw [hc] at hdigit
    exact absurd hdigit (by decide)
  · rw [hinner, Option.some_or, Option.some.injEq] at hend
    exact absurd hend (by decide)
  · rw [hinner, Option.some_or, Option.some.injEq] at hend
    exact absurd hend (by decide)

/-- **Every node has a line that shows it.** -/
theorem WellFormed.exists_dumpLine (hwf : t.WellFormed) (hnames : t.NamesUnbroken) (marked : t.Id)
    (width depth : Nat) (atLimit : Bool) (i : t.Id) :
    ∃ line, t.dumpLine marked width depth atLimit i = .ok line
      ∧ t.ShowsNode marked i depth line := by
  obtain ⟨inner, hinside, hunbroken, hend⟩ := hwf.exists_inside width atLimit i
  have hindent : '\n' ∉ List.replicate (2 * depth) ' ' := by
    rw [List.mem_replicate]
    rintro ⟨-, h⟩
    exact absurd h (by decide)
  unfold dumpLine
  rw [hinside]
  refine ⟨_, rfl, ?_⟩
  constructor
  case unbroken =>
    have hhead := hnames.not_mem_headline i
    have hmark : '\n' ∉ if i = marked then mark else [] := by
      split
      · decide
      · exact List.not_mem_nil
    simp only [List.mem_append, not_or]
    exact ⟨⟨⟨hindent, hhead⟩, hunbroken⟩, hmark⟩
  case indented =>
    refine ⟨inner ++ if i = marked then mark else [], ?_⟩
    rw [← List.append_assoc]
  case marked_iff =>
    by_cases hmarked : i = marked
    · rw [if_pos hmarked]
      exact iff_of_true (List.suffix_append _ _) hmarked
    · rw [if_neg hmarked, List.append_nil]
      exact iff_of_false (not_mark_suffix hend _) hmarked

/-! ## 4. The dump -/

/-- A computation that succeeds on every element of a list succeeds on the list, element by
element. -/
theorem exists_mapM {α β : Type} {f : α → Checked β} {R : α → β → Prop} {l : List α}
    (h : ∀ a ∈ l, ∃ b, f a = .ok b ∧ R a b) : ∃ bs, l.mapM f = .ok bs ∧ List.Forall₂ R l bs := by
  induction l with
  | nil => exact ⟨[], rfl, .nil⟩
  | cons a l ih =>
    rw [List.forall_mem_cons] at h
    obtain ⟨b, hb, hab⟩ := h.1
    obtain ⟨bs, hbs, hl⟩ := ih h.2
    refine ⟨b :: bs, ?_, .cons hab hl⟩
    rw [List.mapM_cons, hb, hbs]
    rfl

/-- **The lines of a dump show the nodes of the listing**, one after the other. The induction is on
the levels that are left. -/
theorem WellFormed.exists_dumpLines (hwf : t.WellFormed) (hnames : t.NamesUnbroken) (marked : t.Id)
    (width levels : Nat) : ∀ depth i,
      ∃ lines, t.dumpLines marked width levels depth i = .ok lines
        ∧ List.Forall₂ (fun n line => t.ShowsNode marked n.1 n.2 line)
            (t.listing levels depth i) lines := by
  induction levels with
  | zero =>
    intro depth i
    obtain ⟨line, hline, hshows⟩ := hwf.exists_dumpLine hnames marked width depth true i
    refine ⟨[line], ?_, .cons hshows .nil⟩
    rw [dumpLines, hline]
    rfl
  | succ levels ih =>
    intro depth i
    obtain ⟨line, hline, hshows⟩ := hwf.exists_dumpLine hnames marked width depth false i
    obtain ⟨below, hbelow, hall⟩ := exists_mapM (l := t.children i) fun c _ => ih (depth + 1) c
    refine ⟨line :: below.flatten, ?_, ?_⟩
    · rw [dumpLines, hline]
      show ((t.children i).mapM (t.dumpLines marked width levels (depth + 1)) : Checked _) >>= _ = _
      rw [hbelow]
      rfl
    · rw [listing, List.flatMap_def]
      exact .cons hshows (List.rel_flatten (List.forall₂_map_left_iff.mpr hall))

theorem not_mem_of_showsNode {nodes : List (t.Id × Nat)} {lines : List Text}
    (h : List.Forall₂ (fun n line => t.ShowsNode marked n.1 n.2 line) nodes lines) :
    ∀ line ∈ lines, '\n' ∉ line := by
  induction h with
  | nil => exact List.forall_mem_nil _
  | cons hshows _ ih => exact List.forall_mem_cons.mpr ⟨hshows.unbroken, ih⟩

/-- **A dump lists the outline**: cut at its line breaks, it has one line for each node of the
outline, in the same order, and nothing behind the last break. -/
theorem WellFormed.exists_dump (hwf : t.WellFormed) (hnames : t.NamesUnbroken) (top marked : t.Id)
    (levels width : Nat) :
    ∃ dump lines, t.dump top marked levels width = .ok dump ∧ dump.lines = lines ++ [[]]
      ∧ List.Forall₂ (fun n line => t.ShowsNode marked n.1 n.2 line)
          (t.outline top levels) lines := by
  obtain ⟨lines, hlines, hshows⟩ := hwf.exists_dumpLines hnames marked width levels 0 top
  refine ⟨lines.flatMap fun line => line ++ ['\n'], lines, ?_, ?_, ?_⟩
  · unfold dump
    rw [hlines]
    rfl
  · exact Text.lines_flatMap (not_mem_of_showsNode hshows)
  · rw [← hwf.listing_eq_outline]
    exact hshows

end Tree

end AnchoredEdit
