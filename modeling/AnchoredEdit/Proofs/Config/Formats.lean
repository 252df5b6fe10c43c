/-
`Proofs/Config/Formats.lean` -- the same settings in two formats.

An assignment gives values to some of the settings, to each at most one. It is written in YAML with
one line for each setting, or in JSON as an object. The two readers have nothing in common but
the end: both collect the settings they find, the last one first, and from there on the defaults
are filled in and the result is checked in one place. So it is enough that each reader collects
what was written.
-/
import AnchoredEdit.Config.Load
import AnchoredEdit.Proofs.Json.Layout
import AnchoredEdit.Proofs.Protocol.Shapes
import AnchoredEdit.Proofs.Yaml.BlockMapping

set_option autoImplicit false

namespace AnchoredEdit

namespace Config

variable {a b : Assignment} {s : Setting} {n : Nat} {c d : Config} {t : Text}

/-! ## 1. What an assignment comes to -/

theorem ext_get (h : ∀ s, c.get s = d.get s) : c = d := by
  obtain ⟨_, _, _, _, _⟩ := c
  obtain ⟨_, _, _, _, _⟩ := d
  simpa only [Config.mk.injEq] using
    ⟨h .lineWeight, h .debugAncestorLevels, h .debugRenderDepth, h .debugTextWidth,
      h .requestTimeoutMs⟩

namespace Assignment

/-- No setting is given twice. -/
def Distinct (a : Assignment) : Prop :=
  (a.map (·.1)).Nodup

/-- Every value takes 64 bits at most. -/
def Fits (a : Assignment) : Prop :=
  ∀ e ∈ a, e.2 < wordCount

/-- What loading an assignment gives. Of the two settings that have to be positive the first one
that is not is named. Otherwise the defaults are changed where a value is given and nowhere else. -/
inductive Gives (a : Assignment) : Except Error Config → Prop
  | noWeight (hweight : (.lineWeight, 0) ∈ a) :
      Gives a (.error (.invalidConfig (.notPositive "line_weight")))
  | noTimeout (hweight : (.lineWeight, 0) ∉ a) (htimeout : (.requestTimeoutMs, 0) ∈ a) :
      Gives a (.error (.invalidConfig (.notPositive "request_timeout_ms")))
  | config {c : Config} (hweight : (.lineWeight, 0) ∉ a) (htimeout : (.requestTimeoutMs, 0) ∉ a)
      (hgiven : ∀ s n, (s, n) ∈ a → c.get s = n)
      (hother : ∀ s, (∀ n, (s, n) ∉ a) → c.get s = standard.get s) : Gives a (.ok c)

theorem get?_cons (e : Setting × Nat) (a : Assignment) (s : Setting) :
    Assignment.get? (e :: a) s = if e.1 = s then some e.2 else a.get? s := by
  simp only [get?, List.find?_cons]
  split <;> simp_all

theorem get?_eq_none (h : ∀ n, (s, n) ∉ a) : a.get? s = none := by
  simp only [get?, Option.map_eq_none_iff, List.find?_eq_none, decide_eq_true_eq]
  rintro ⟨_, n⟩ hmem rfl
  exact h n hmem

theorem get?_of_mem (ha : a.Distinct) (h : (s, n) ∈ a) : a.get? s = some n := by
  induction a with
  | nil => cases h
  | cons e a ih =>
    obtain ⟨hfresh, ha⟩ := List.nodup_cons.mp ha
    rw [get?_cons]
    rcases List.mem_cons.mp h with rfl | h
    · rw [if_pos rfl]
    · have hne : e.1 ≠ s := fun he => hfresh (List.mem_map.mpr ⟨(s, n), h, he.symm⟩)
      rw [if_neg hne, ih ha h]

theorem mem_of_get? (h : a.get? s = some n) : (s, n) ∈ a := by
  obtain ⟨⟨r, n⟩, hfind, rfl⟩ := Option.map_eq_some_iff.mp h
  obtain rfl : r = s := by simpa using List.find?_some hfind
  exact List.mem_of_find?_eq_some hfind

/-- Settings that come only once are still to come after the first of them was collected. -/
theorem get?_collected {e : Setting × Nat} (ha : Distinct (e :: a))
    (hfresh : ∀ e' ∈ a, b.get? e'.1 = none) : ∀ e' ∈ a, get? (e :: b) e'.1 = none := by
  intro e' he'
  have hne : e.1 ≠ e'.1 := fun h =>
    (List.nodup_cons.mp ha).1 (List.mem_map.mpr ⟨e', he', h.symm⟩)
  rw [get?_cons, if_neg hne, hfresh e' he']

/-- A setting holds the value given for it, or else its default. -/
theorem get_toConfig (a : Assignment) (s : Setting) :
    a.toConfig.get s = (a.get? s).getD (standard.get s) := by
  induction a with
  | nil => rfl
  | cons e a ih =>
    rw [toConfig, List.foldr_cons, get_set, get?_cons, ← toConfig, ih]
    by_cases hs : e.1 = s
    · rw [if_pos hs.symm, if_pos hs, Option.getD_some]
    · rw [if_neg (Ne.symm hs), if_neg hs]

/-- A setting with a positive default is zero only if it was given so. -/
theorem get_toConfig_eq_zero (ha : a.Distinct) (hs : standard.get s ≠ 0) :
    a.toConfig.get s = 0 ↔ (s, 0) ∈ a := by
  rw [get_toConfig]
  constructor
  · intro h
    cases hget : a.get? s with
    | none => exact absurd (by simpa [hget] using h) hs
    | some n =>
      obtain rfl : n = 0 := by simpa [hget] using h
      exact mem_of_get? hget
  · intro h
    rw [get?_of_mem ha h, Option.getD_some]

/-- **Defaults and the check** make of an assignment what it gives. -/
theorem gives_validate (ha : a.Distinct) : a.Gives a.toConfig.validate := by
  have hweight : a.toConfig.lineWeight = 0 ↔ (.lineWeight, 0) ∈ a :=
    get_toConfig_eq_zero (s := .lineWeight) ha (by decide)
  have htimeout : a.toConfig.requestTimeoutMs = 0 ↔ (.requestTimeoutMs, 0) ∈ a :=
    get_toConfig_eq_zero (s := .requestTimeoutMs) ha (by decide)
  rw [validate]
  split
  · next h => exact .noWeight (hweight.mp h)
  · next h =>
    split
    · next h' => exact .noTimeout (h ∘ hweight.mpr) (htimeout.mp h')
    · next h' =>
      refine .config (h ∘ hweight.mpr) (h' ∘ htimeout.mpr) ?_ ?_
      · intro s n hmem
        rw [get_toConfig, get?_of_mem ha hmem, Option.getD_some]
      · intro s hnone
        rw [get_toConfig, get?_eq_none hnone, Option.getD_none]

/-- The order of the settings does not matter. -/
theorem Gives.of_mem_iff {r : Except Error Config} (hr : a.Gives r) (h : ∀ e, e ∈ a ↔ e ∈ b) :
    b.Gives r := by
  cases hr with
  | noWeight hweight => exact .noWeight ((h _).mp hweight)
  | noTimeout hweight htimeout => exact .noTimeout (hweight ∘ (h _).mpr) ((h _).mp htimeout)
  | config hweight htimeout hgiven hother =>
    exact .config (hweight ∘ (h _).mpr) (htimeout ∘ (h _).mpr)
      (fun s n hmem => hgiven s n ((h _).mpr hmem))
      (fun s hnone => hother s fun n => hnone n ∘ (h _).mp)

/-- **An assignment gives one outcome.** -/
theorem Gives.unique {r r' : Except Error Config} (h : a.Gives r) (h' : a.Gives r') : r = r' := by
  cases h with
  | noWeight hweight =>
    cases h' with
    | noWeight => rfl
    | noTimeout hweight' | config hweight' => exact absurd hweight hweight'
  | noTimeout hweight htimeout =>
    cases h' with
    | noWeight hweight' => exact absurd hweight' hweight
    | noTimeout => rfl
    | config _ htimeout' => exact absurd htimeout htimeout'
  | config hweight htimeout hgiven hother =>
    cases h' with
    | noWeight hweight' => exact absurd hweight' hweight
    | noTimeout _ htimeout' => exact absurd htimeout' htimeout
    | config _ _ hgiven' hother' =>
      -- Each setting is either given or not, and both configurations say what it then holds.
      refine congrArg _ (ext_get fun s => ?_)
      by_cases hs : ∃ n, (s, n) ∈ a
      · obtain ⟨n, hmem⟩ := hs
        rw [hgiven s n hmem, hgiven' s n hmem]
      · have hnone := not_exists.mp hs
        rw [hother s hnone, hother' s hnone]

end Assignment

/-! ## 2. Integers in YAML -/

theorem digit?_of_isDigit {c : Char} (hc : c.isDigit = true) :
    digit? 10 c = some (Json.digitValue c) := by
  have hrange : 48 ≤ c.toNat ∧ c.toNat ≤ 57 := by
    rw [Char.isDigit, Bool.and_eq_true, decide_eq_true_eq, decide_eq_true_eq, ge_iff_le,
      UInt32.le_iff_toNat_le, UInt32.le_iff_toNat_le] at hc
    exact hc
  simp only [digit?, Yaml.hexValue?, hc, if_true, Json.digitValue]
  exact Option.filter_some_pos (decide_eq_true (by change c.toNat - 48 < 10; omega))

/-- Digits are read off from the left. -/
theorem foldlM_digit? (ht : ∀ c ∈ t, c.isDigit = true) (n : Nat) :
    t.foldlM (fun n c => (digit? 10 c).map (10 * n + ·)) n
      = some (t.foldl (fun n c => 10 * n + Json.digitValue c) n) := by
  induction t generalizing n with
  | nil => rfl
  | cons c t ih =>
    obtain ⟨hc, ht⟩ := List.forall_mem_cons.mp ht
    rw [List.foldlM_cons, digit?_of_isDigit hc]
    exact ih ht _

theorem number?_toDigits (hn : n < wordCount) : number? 10 (Nat.toDigits 10 n) = some n := by
  have hfold := foldlM_digit? (fun _ => Json.isDigit_of_mem_toDigits (n := n)) 0
  have hvalue := Json.natOfDigits_toDigits n
  rw [Json.natOfDigits] at hvalue
  rw [number?, if_neg Nat.toDigits_ne_nil, hfold, hvalue]
  exact Option.filter_some_pos (decide_eq_true hn)

/-- No number is written with a zero in front. -/
theorem hasLeadingZero_toDigits (n : Nat) : hasLeadingZero (Nat.toDigits 10 n) = false := by
  unfold hasLeadingZero
  split
  · next h =>
    have hzero := Json.eq_zero_of_head?_toDigits n (by rw [h]; rfl)
    rw [hzero, Nat.toDigits_zero] at h
    cases h
  · rfl

/-- Digits have neither a sign nor a base. -/
theorem unsigned?_of_isDigit (ht : ∀ c ∈ t, c.isDigit = true) : unsigned? t = decimal? t := by
  have hmem {c : Char} (hc : c.isDigit = false) : c ∉ t := fun h => by
    rw [ht c h] at hc
    cases hc
  rw [unsigned?]
  · rintro rest rfl
    exact hmem (c := '+') rfl (by simp)
  · rintro rest rfl
    exact hmem (c := 'x') rfl (by simp)
  · rintro rest rfl
    exact hmem (c := 'o') rfl (by simp)
  · rintro rest rfl
    exact hmem (c := 'b') rfl (by simp)

/-- **An unsigned 64-bit integer is read back.** -/
theorem unsigned?_toDigits (hn : n < wordCount) : unsigned? (Nat.toDigits 10 n) = some n := by
  rw [unsigned?_of_isDigit fun _ => Json.isDigit_of_mem_toDigits, decimal?,
    hasLeadingZero_toDigits, number?_toDigits hn]
  rfl

/-! ## 3. Settings in YAML -/

namespace Assignment

/-- The lines of the settings: each is a key and a decimal. -/
def yamlEntries (a : Assignment) : List (Text × Text) :=
  a.map fun e => (e.1.key.toList, Nat.toDigits 10 e.2)

/-- The settings as YAML, one on each line. The last line ends with a break or not. -/
def toYaml (ended : Bool) (a : Assignment) : Text :=
  Yaml.mappingText ended a.yamlEntries

end Assignment

theorem isWord_toDigits (n : Nat) : Yaml.IsWord (Nat.toDigits 10 n) where
  nonempty := Nat.toDigits_ne_nil
  chars c hc := by simp [Yaml.isWordChar, Char.isAlphanum, Json.isDigit_of_mem_toDigits hc]

theorem isWord_key (s : Setting) : Yaml.IsWord s.key.toList := by
  cases s <;> decide

theorem byteLength_key (s : Setting) : Text.byteLength s.key.toList ≤ 1024 := by
  cases s <;> decide

theorem isEntry_of_mem_yamlEntries {e : Text × Text} (he : e ∈ a.yamlEntries) : Yaml.IsEntry e := by
  obtain ⟨e, -, rfl⟩ := List.mem_map.mp he
  exact ⟨isWord_key e.1, byteLength_key e.1, isWord_toDigits e.2⟩

/-- A setting that was not collected before is collected. -/
theorem collect?_setting {doc : Yaml.Document} {entries : List (Yaml.Node × Yaml.Node)}
    (hfresh : b.get? s = none) (hn : n < wordCount) :
    collect? doc (Yaml.Compose.entryNodes (s.key.toList, Nat.toDigits 10 n) :: entries) b
      = collect? doc entries ((s, n) :: b) := by
  simp [collect?, Yaml.Compose.entryNodes, Yaml.Compose.plainNode, Yaml.Document.scalar?,
    Setting.ofKey?_key, hfresh, settingValue?, unsigned?_toDigits hn]

/-- **All settings are collected**, the last one first. None of them was collected before. -/
theorem collect?_yamlEntries (doc : Yaml.Document) (ha : a.Distinct) (hfits : a.Fits)
    (hfresh : ∀ e ∈ a, b.get? e.1 = none) :
    collect? doc (a.yamlEntries.map Yaml.Compose.entryNodes) b = some (a.reverse ++ b) := by
  induction a generalizing b with
  | nil => rfl
  | cons e a ih =>
    obtain ⟨hn, hfits⟩ := List.forall_mem_cons.mp hfits
    obtain ⟨hfirst, hfresh⟩ := List.forall_mem_cons.mp hfresh
    have hrest := ih (List.nodup_cons.mp ha).2 hfits (Assignment.get?_collected ha hfresh)
    rw [Assignment.yamlEntries, List.map_cons, List.map_cons, collect?_setting hfirst hn,
      List.reverse_cons, List.append_assoc]
    exact hrest

/-- **Settings on lines are loaded** as what was collected from them. -/
theorem ofYamlText_toYaml (ended : Bool) (ha : a.Distinct) (hfits : a.Fits) :
    ofYamlText (a.toYaml ended) = (Assignment.toConfig a.reverse).validate := by
  have hcollect : (Yaml.parse? (a.toYaml ended)).bind assignment? = some a.reverse := by
    cases a with
    | nil =>
      -- Where nothing is given nothing is written, and an empty text holds no mapping at all.
      rw [Assignment.toYaml, Assignment.yamlEntries, List.map_nil, Yaml.mappingText,
        Yaml.parse?_nil]
      rfl
    | cons e a =>
      rw [Assignment.toYaml, Assignment.yamlEntries, List.map_cons, Yaml.parse?_mappingText]
      · exact (collect?_yamlEntries _ ha hfits fun _ _ => rfl).trans (by rw [List.append_nil])
      · exact fun e' => isEntry_of_mem_yamlEntries (a := e :: a)
  rw [ofYamlText, hcollect]

/-! ## 4. Settings in JSON -/

/-- The members of an object with the settings. -/
def Assignment.jsonMembers (a : Assignment) : List (String × Nat) :=
  a.map fun e => (e.1.key, e.2)

/-- **All members are collected**, the last one first. -/
theorem foldMembers_jsonMembers (ha : a.Distinct) (hfresh : ∀ e ∈ a, b.get? e.1 = none) :
    Json.foldMembers slotStep b (a.jsonMembers.map Json.memberDraft) = .ok (a.reverse ++ b) := by
  induction a generalizing b with
  | nil => rfl
  | cons e a ih =>
    obtain ⟨hfirst, hfresh⟩ := List.forall_mem_cons.mp hfresh
    have hrest := ih (List.nodup_cons.mp ha).2 (Assignment.get?_collected ha hfresh)
    have hstep : slotStep b e.1.key
        = some (Json.fillSlot e.1.key none e.1.decode fun n => (e.1, n) :: b) := by
      simp [slotStep, Setting.ofKey?_key, hfirst]
    rw [Assignment.jsonMembers, List.map_cons, List.map_cons, Json.memberDraft,
      Json.foldMembers_fill hstep rfl, List.reverse_cons, List.append_assoc]
    exact hrest

/-- **An object with the settings is loaded** as what was collected from it. -/
theorem ofJsonText_of_writes (ha : a.Distinct) (hfits : a.Fits)
    (ht : Json.WritesObject a.jsonMembers t) :
    ofJsonText t = (Assignment.toConfig a.reverse).validate := by
  have hmembers : ∀ m ∈ a.jsonMembers, m.2 < wordCount := by
    rintro m hm
    obtain ⟨e, he, rfl⟩ := List.mem_map.mp hm
    exact hfits e he
  have hcollect := foldMembers_jsonMembers (b := []) ha fun _ _ => rfl
  rw [List.append_nil] at hcollect
  have hdecode : shape.decode .text (.obj (a.jsonMembers.map Json.memberDraft) true)
      = .ok (Assignment.toConfig a.reverse) := by
    change (Json.readMembersInto slotStep [] _ true >>= fun a => pure a.toConfig) = _
    rewrite [Json.readMembersInto_of_foldMembers hcollect]
    rfl
  have htext : Json.decodeText (shape.decode .text) t = .ok (Assignment.toConfig a.reverse) := by
    simp [Json.decodeText, ht.read hmembers, hdecode]
  rw [ofJsonText, htext]

/-! ## 5. Both formats -/

theorem Assignment.Distinct.perm (ha : a.Distinct) (h : a.Perm b) : b.Distinct :=
  (h.map _).nodup_iff.mp ha

/-- The order in which settings were collected does not show. -/
theorem Assignment.gives_validate_reverse (ha : a.Distinct) :
    a.Gives (Assignment.toConfig a.reverse).validate :=
  (gives_validate (ha.perm (List.reverse_perm a).symm)).of_mem_iff fun _ => List.mem_reverse

/-- **The two formats agree.** An assignment of 64-bit values to distinct settings, written as YAML
with one setting on each line and, in any order and layout, as a JSON object, is loaded with the
same outcome, and the outcome is what the assignment gives. -/
theorem yaml_and_json_load_alike (a b : Assignment) (ha : a.Distinct) (hfits : a.Fits)
    (hperm : a.Perm b) (ended : Bool) (json : Text) (hjson : Json.WritesObject b.jsonMembers json) :
    ∃ outcome, a.Gives outcome
      ∧ ofYamlText (a.toYaml ended) = outcome
      ∧ ofJsonText json = outcome
      ∧ ∀ (files : Files) (path : String), files.readText path = .ok json →
          ofJsonFile files path = outcome := by
  have hb : b.Distinct := ha.perm hperm
  have hfits' : b.Fits := fun e he => hfits e (hperm.mem_iff.mpr he)
  -- Both orders give an outcome, and what is given does not depend on the order.
  have hsame : (Assignment.toConfig b.reverse).validate
      = (Assignment.toConfig a.reverse).validate :=
    ((Assignment.gives_validate_reverse hb).of_mem_iff fun _ => hperm.mem_iff.symm).unique
      (Assignment.gives_validate_reverse ha)
  have hload : ofJsonText json = (Assignment.toConfig a.reverse).validate :=
    (ofJsonText_of_writes hb hfits' hjson).trans hsame
  refine ⟨_, Assignment.gives_validate_reverse ha, ofYamlText_toYaml ended ha hfits, hload, ?_⟩
  intro files path hread
  rw [ofJsonFile, readConfig, hread]
  exact hload

theorem yaml_and_json_load_alike_largest :
    ∃ outcome,
      Assignment.Gives [(.requestTimeoutMs, 5), (.lineWeight, 18446744073709551615)] outcome
      ∧ ofYamlText "request_timeout_ms: 5\nline_weight: 18446744073709551615\n".toList = outcome
      ∧ ofJsonText
          "\x7b\n \"line_weight\" : 18446744073709551615,\"request_timeout_ms\":5\n\x7d\n".toList
        = outcome
      ∧ ∀ (files : Files) (path : String), files.readText path = .ok
          "\x7b\n \"line_weight\" : 18446744073709551615,\"request_timeout_ms\":5\n\x7d\n".toList →
          ofJsonFile files path = outcome := by
  have hweight : Json.WritesMember "line_weight" 18446744073709551615
      "\n \"line_weight\" : 18446744073709551615".toList :=
    .mk "\n ".toList [' '] [' '] [] (by decide) (by decide) (by decide) (by decide)
  have htimeout : Json.WritesMember "request_timeout_ms" 5 "\"request_timeout_ms\":5\n".toList :=
    .mk [] [] [] ['\n'] (by decide) (by decide) (by decide) (by decide)
  exact yaml_and_json_load_alike [(.requestTimeoutMs, 5), (.lineWeight, 18446744073709551615)]
    [(.lineWeight, 18446744073709551615), (.requestTimeoutMs, 5)]
    (by simp [Assignment.Distinct]) (by simp [Assignment.Fits, wordCount]) (.swap ..) true _
    (.members [] ['\n'] (by decide) (.more hweight (.last htimeout)) (by decide))

end Config

end AnchoredEdit
