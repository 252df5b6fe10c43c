/-
`Proofs/Json/RoundTrip.lean` -- values, written in the compact form and read back.

The reader gets fuel, and the length of the text is enough of it: each step down into a value
takes one unit and leaves at least one character behind. The induction is over the value, with
one statement for a value, one for the elements of an array and one for the members of an
object, and it runs along the text: what stands behind the part that is read is arbitrary,
except that it must not carry a numeral on.

Reading gives the draft of the value back, member by member in the order of the text. Only when
the draft becomes a value again are the members of its objects sorted by key, so a text that is
parsed gives the value with all of its objects sorted.
-/
import AnchoredEdit.Proofs.Json.Tokens

set_option autoImplicit false

namespace AnchoredEdit

namespace Json

/-! ## 1. Values that can be read back -/

mutual

/-- The value is nested at most `depth` levels deep, and its numbers are integers of 64 bits. -/
def Plain (depth : Nat) : Json → Prop
  | .null | .bool _ | .str _ => True
  | .num n => n.Fits
  | .arr items =>
    match depth with
    | 0 => False
    | depth + 1 => PlainItems depth items
  | .obj members =>
    match depth with
    | 0 => False
    | depth + 1 => PlainMembers depth members

/-- The elements of an array are plain. -/
def PlainItems (depth : Nat) : List Json → Prop
  | [] => True
  | v :: rest => Plain depth v ∧ PlainItems depth rest

/-- The members of an object are plain. -/
def PlainMembers (depth : Nat) : List (String × Json) → Prop
  | [] => True
  | (_, v) :: rest => Plain depth v ∧ PlainMembers depth rest

end

@[simp] theorem plain_ofText (depth : Nat) (t : Text) : (ofText t).Plain depth := trivial

/-! ## 2. The front of a written value -/

theorem compactItems_cons_cons (v w : Json) (vs : List Json) :
    compactItems (v :: w :: vs) = v.compact ++ ',' :: compactItems (w :: vs) := by
  rw [compactItems]
  nofun

theorem compactMembers_cons_cons (k : String) (v : Json) (m : String × Json)
    (ms : List (String × Json)) :
    compactMembers ((k, v) :: m :: ms)
      = writeString k ++ ':' :: v.compact ++ ',' :: compactMembers (m :: ms) := by
  rw [compactMembers]
  nofun

/-- The characters that numerals start with. -/
def startsNumeral (c : Char) : Bool :=
  c = '-' || c.isDigit

theorem ne_of_startsNumeral {c d : Char} (hc : startsNumeral c = true)
    (hd : startsNumeral d = false) : c ≠ d := by
  rintro rfl
  rw [hc] at hd
  cases hd

theorem isGap_of_startsNumeral {c : Char} (hc : startsNumeral c = true) : isGap c = false := by
  have hne : ∀ {d : Char}, startsNumeral d = false → c ≠ d := ne_of_startsNumeral hc
  simp only [isGap, Bool.or_eq_false_iff, decide_eq_false_iff_not]
  exact ⟨⟨⟨hne rfl, hne rfl⟩, hne rfl⟩, hne rfl⟩

theorem write_starts {n : Number} (hn : n.Fits) :
    ∃ c t, n.write = c :: t ∧ startsNumeral c = true := by
  cases n with
  | nat n =>
    obtain ⟨c, t, hstart, hc⟩ := toDigits_starts n
    exact ⟨c, t, hstart, by simp [startsNumeral, hc]⟩
  | neg n => exact ⟨'-', _, rfl, rfl⟩
  | real negative x => exact hn.elim

/-- No value starts with a blank or a closing bracket. -/
theorem compact_starts {depth : Nat} {v : Json} (hv : v.Plain depth) :
    ∃ c t, v.compact = c :: t ∧ isGap c = false ∧ c ≠ ']' := by
  cases v with
  | null => exact ⟨'n', "ull".toList, by simp [compact], by decide⟩
  | bool b => cases b <;> simp [compact, writeBool, isGap]
  | num n =>
    obtain ⟨c, t, hwrite, hc⟩ := write_starts hv
    exact ⟨c, t, hwrite, isGap_of_startsNumeral hc, ne_of_startsNumeral hc rfl⟩
  | str s => exact ⟨'"', _, rfl, by decide⟩
  | arr items => exact ⟨'[', _, rfl, by decide⟩
  | obj members => exact ⟨'{', _, rfl, by decide⟩

theorem compactItems_starts {depth : Nat} {v : Json} (hv : v.Plain depth) (vs : List Json) :
    ∃ c t, compactItems (v :: vs) = c :: t ∧ isGap c = false ∧ c ≠ ']' := by
  obtain ⟨c, t, hstart, hgap, hc⟩ := compact_starts hv
  cases vs with
  | nil => exact ⟨c, t, by rw [compactItems, hstart], hgap, hc⟩
  | cons w vs => exact ⟨c, _, by rw [compactItems_cons_cons, hstart, List.cons_append], hgap, hc⟩

theorem compactMembers_starts (k : String) (v : Json) (ms : List (String × Json)) :
    ∃ t, compactMembers ((k, v) :: ms) = '"' :: t := by
  cases ms with
  | nil => exact ⟨_, by rw [compactMembers, writeString]; rfl⟩
  | cons m ms => exact ⟨_, by rw [compactMembers_cons_cons, writeString]; rfl⟩

/-! ## 3. Steps of the reader -/

variable {fuel : Nat} {t t' rest : Text}

theorem skipGap_cons {c : Char} (hc : isGap c = false) : skipGap (c :: t) = c :: t := by
  simp [skipGap, hc]

/-- A text that starts like a numeral is read as one. -/
theorem readValue_numeral {c : Char} (hc : startsNumeral c = true) :
    readValue (fuel + 1) (c :: t) = readNumber (c :: t) := by
  have hne : ∀ {d : Char}, startsNumeral d = false → c ≠ d := ne_of_startsNumeral hc
  rw [readValue, skipGap_cons (isGap_of_startsNumeral hc)]
  split
  case h_7 => rfl
  -- The other branches want a character that no numeral starts with.
  all_goals
    next h => exact absurd (List.cons.inj h).1 (hne (by decide))

theorem readValue_array {c : Char} {items : List Draft} (hgap : isGap c = false) (hc : c ≠ ']')
    (h : readItems fuel (c :: t) = (items, some rest)) :
    readValue (fuel + 1) ('[' :: c :: t) = (.arr items true, some rest) := by
  simp [readValue, skipGap, isGap.eq_def '[', hgap, hc, h]

theorem readValue_object {members : List (Option String × Draft)}
    (h : readMembers fuel ('"' :: t) = (members, some rest)) :
    readValue (fuel + 1) ('{' :: '"' :: t) = (.obj members true, some rest) := by
  simp [readValue, skipGap, isGap, h]

theorem readItems_last {item : Draft} (h : readValue fuel t = (item, some (']' :: rest))) :
    readItems (fuel + 1) t = ([item], some rest) := by
  simp [readItems, h, skipGap, isGap]

theorem readItems_more {item : Draft} {items : List Draft}
    (h : readValue fuel t = (item, some (',' :: t')))
    (hmore : readItems fuel t' = (items, some rest)) :
    readItems (fuel + 1) t = (item :: items, some rest) := by
  simp [readItems, h, skipGap, isGap, hmore]

theorem readMembers_last {key : Option String} {value : Draft}
    (hkey : readString? t = some (key, ':' :: t'))
    (hvalue : readValue fuel t' = (value, some ('}' :: rest))) :
    readMembers (fuel + 1) ('"' :: t) = ([(key, value)], some rest) := by
  simp [readMembers, skipGap, isGap, hkey, hvalue]

theorem readMembers_more {key : Option String} {value : Draft} {t'' : Text}
    {members : List (Option String × Draft)}
    (hkey : readString? t = some (key, ':' :: t'))
    (hvalue : readValue fuel t' = (value, some (',' :: t'')))
    (hmore : readMembers fuel t'' = (members, some rest)) :
    readMembers (fuel + 1) ('"' :: t) = ((key, value) :: members, some rest) := by
  simp [readMembers, skipGap, isGap, hkey, hvalue, hmore]

/-! ## 4. Reading what was written -/

mutual

/-- **A value is read back** as the draft of itself, up to where it ends. -/
theorem readValue_compact {depth fuel : Nat} {rest : Text} :
    (v : Json) → v.Plain depth → v.compact.length ≤ fuel → EndsNumeral rest →
      readValue fuel (v.compact ++ rest) = (v.toDraft, some rest)
  | v, hv, hfuel, hrest => by
    -- Even the shortest value has a character, so there is fuel for one step.
    obtain ⟨c, t, hstart, -, -⟩ := compact_starts hv
    obtain ⟨fuel, rfl⟩ : ∃ n, fuel = n + 1 := by
      rw [hstart, List.length_cons] at hfuel
      exact ⟨fuel - 1, by omega⟩
    cases v with
    | null => simp [compact, toDraft, readValue, skipGap, isGap, readWord, expect?]
    | bool b => cases b <;>
        simp [compact, toDraft, writeBool, readValue, skipGap, isGap, readWord, expect?]
    | num n =>
      obtain ⟨c, t, hwrite, hc⟩ := write_starts hv
      have hread := readNumber_write hv hrest
      rw [hwrite, List.cons_append] at hread
      rw [compact, hwrite, List.cons_append, readValue_numeral hc, hread, toDraft]
    | str s =>
      simp [compact, toDraft, writeString, readValue, skipGap, isGap, readText,
        readString?_escaped]
    | arr items =>
      match depth, items, hv, hfuel with
      | _ + 1, [], _, _ =>
        simp [compact, compactItems, toDraft, toDrafts, readValue, skipGap, isGap]
      | depth + 1, v :: vs, hv, hfuel =>
        -- The two brackets pay for the step down to the elements and for the last one of them.
        simp only [compact, List.length_append, List.length_cons] at hfuel
        have hitems : readItems fuel (compactItems (v :: vs) ++ ']' :: rest)
            = (toDrafts (v :: vs), some rest) := readItems_compact v vs hv (by omega)
        obtain ⟨c, t, hstart, hgap, hc⟩ := compactItems_starts hv.1 vs
        rw [hstart] at hitems
        rw [compact, hstart, toDraft]
        simpa using readValue_array hgap hc hitems
    | obj members =>
      match depth, members, hv, hfuel with
      | _ + 1, [], _, _ =>
        simp [compact, compactMembers, toDraft, toDraftMembers, readValue, skipGap, isGap]
      | depth + 1, (k, v) :: ms, hv, hfuel =>
        simp only [compact, List.length_append, List.length_cons] at hfuel
        have hmembers : readMembers fuel (compactMembers ((k, v) :: ms) ++ '}' :: rest)
            = (toDraftMembers ((k, v) :: ms), some rest) := readMembers_compact k v ms hv (by omega)
        obtain ⟨t, hstart⟩ := compactMembers_starts k v ms
        rw [hstart] at hmembers
        rw [compact, hstart, toDraft]
        simpa using readValue_object hmembers

/-- The elements of an array are read back. Each one but the last is followed by a comma, which
pays for the step to the next. -/
theorem readItems_compact {depth fuel : Nat} {rest : Text} :
    (v : Json) → (vs : List Json) → PlainItems depth (v :: vs) →
      (compactItems (v :: vs)).length < fuel →
      readItems fuel (compactItems (v :: vs) ++ ']' :: rest) = (toDrafts (v :: vs), some rest)
  | v, [], hv, hfuel => by
    obtain ⟨fuel, rfl⟩ : ∃ n, fuel = n + 1 := ⟨fuel - 1, by omega⟩
    rw [compactItems] at hfuel ⊢
    exact readItems_last (readValue_compact v hv.1 (by omega) (endsNumeral_bracket rest))
  | v, w :: vs, hv, hfuel => by
    obtain ⟨fuel, rfl⟩ : ∃ n, fuel = n + 1 := ⟨fuel - 1, by omega⟩
    rw [compactItems_cons_cons, List.length_append, List.length_cons] at hfuel
    rw [compactItems_cons_cons, List.append_assoc, List.cons_append]
    exact readItems_more (readValue_compact v hv.1 (by omega) (endsNumeral_comma _))
      (readItems_compact w vs hv.2 (by omega))

/-- The members of an object are read back. -/
theorem readMembers_compact {depth fuel : Nat} {rest : Text} :
    (k : String) → (v : Json) → (ms : List (String × Json)) → PlainMembers depth ((k, v) :: ms) →
      (compactMembers ((k, v) :: ms)).length < fuel →
      readMembers fuel (compactMembers ((k, v) :: ms) ++ '}' :: rest)
        = (toDraftMembers ((k, v) :: ms), some rest)
  | k, v, [], hv, hfuel => by
    obtain ⟨fuel, rfl⟩ : ∃ n, fuel = n + 1 := ⟨fuel - 1, by omega⟩
    have htext : compactMembers [(k, v)] ++ '}' :: rest
        = '"' :: (k.toList.flatMap escapeChar ++ '"' :: ':' :: (v.compact ++ '}' :: rest)) := by
      simp [compactMembers, writeString]
    have hlength : v.compact.length < (compactMembers [(k, v)]).length := by
      simp only [compactMembers, List.length_append, List.length_cons]
      omega
    rw [htext]
    exact readMembers_last (readString?_escaped k _)
      (readValue_compact v hv.1 (by omega) (endsNumeral_brace rest))
  | k, v, (l, w) :: ms, hv, hfuel => by
    obtain ⟨fuel, rfl⟩ : ∃ n, fuel = n + 1 := ⟨fuel - 1, by omega⟩
    have htext : compactMembers ((k, v) :: (l, w) :: ms) ++ '}' :: rest
        = '"' :: (k.toList.flatMap escapeChar ++ '"' :: ':'
          :: (v.compact ++ ',' :: (compactMembers ((l, w) :: ms) ++ '}' :: rest))) := by
      simp [compactMembers, writeString]
    have hlength : v.compact.length + (compactMembers ((l, w) :: ms)).length + 1
        < (compactMembers ((k, v) :: (l, w) :: ms)).length := by
      simp only [compactMembers, List.length_append, List.length_cons]
      omega
    rw [htext]
    exact readMembers_more (readString?_escaped k _)
      (readValue_compact v hv.1 (by omega) (endsNumeral_comma _))
      (readMembers_compact l w ms hv.2 (by omega))

end

/-- **A whole text is read back.** -/
theorem read_compact {depth : Nat} {v : Json} (hv : v.Plain depth) :
    read v.compact = ⟨v.toDraft, true⟩ := by
  have hread : readValue (2 * v.compact.length + 1) (v.compact ++ []) = (v.toDraft, some []) :=
    readValue_compact v hv (by omega) endsNumeral_nil
  rw [List.append_nil] at hread
  rw [read, hread]
  rfl

/-! ## 5. Drafts of values -/

mutual

/-- The value with the members of all of its objects sorted by key. -/
def sorted : Json → Json
  | .null => .null
  | .bool b => .bool b
  | .num n => .num n
  | .str s => .str s
  | .arr items => .arr (sortedItems items)
  | .obj members => .obj (sortMembers (sortedMembers members))

/-- The elements of an array, each one sorted. -/
def sortedItems : List Json → List Json
  | [] => []
  | v :: rest => v.sorted :: sortedItems rest

/-- The members of an object in their order, each one sorted. -/
def sortedMembers : List (String × Json) → List (String × Json)
  | [] => []
  | (k, v) :: rest => (k, v.sorted) :: sortedMembers rest

end

mutual

/-- **The draft of a value has that value**, with its objects sorted. -/
theorem value?_toDraft : {depth : Nat} → (v : Json) → v.Plain depth →
    v.toDraft.value? depth = some v.sorted
  | _, .null, _ | _, .bool _, _ | _, .num _, _ | _, .str _, _ => by
    simp [toDraft, Draft.value?, sorted]
  | depth + 1, .arr items, hv => by
    simp [toDraft, Draft.value?, sorted, values?_toDrafts items hv]
  | depth + 1, .obj members, hv => by
    simp [toDraft, Draft.value?, sorted, members?_toDraftMembers members hv]

theorem values?_toDrafts : {depth : Nat} → (vs : List Json) → PlainItems depth vs →
    Draft.values? depth (toDrafts vs) = some (sortedItems vs)
  | _, [], _ => by simp [toDrafts, Draft.values?, sortedItems]
  | _, v :: vs, hv => by
    simp [toDrafts, Draft.values?, sortedItems, value?_toDraft v hv.1, values?_toDrafts vs hv.2]

theorem members?_toDraftMembers : {depth : Nat} → (ms : List (String × Json)) →
    PlainMembers depth ms → Draft.members? depth (toDraftMembers ms) = some (sortedMembers ms)
  | _, [], _ => by simp [toDraftMembers, Draft.members?, sortedMembers]
  | _, (k, v) :: ms, hv => by
    simp [toDraftMembers, Draft.members?, sortedMembers, value?_toDraft v hv.1,
      members?_toDraftMembers ms hv.2]

end

/-- **Parsing the compact form of a value gives the value back**, with its objects sorted. -/
theorem parse?_compact {v : Json} (hv : v.Plain maxDepth) : parse? v.compact = some v.sorted := by
  rw [parse?, read_compact hv]
  exact value?_toDraft v hv

/-! ## 6. One line -/

mutual

/-- **The compact form is a single line**, whatever the value holds. -/
theorem printable_compact : (v : Json) → Printable v.compact
  | .null => by simp [compact]
  | .bool b => by cases b <;> simp [compact, writeBool]
  | .num n => printable_write n
  | .str s => printable_writeString s
  | .arr items => by simp [compact, printable_compactItems items]
  | .obj members => by simp [compact, printable_compactMembers members]

theorem printable_compactItems : (vs : List Json) → Printable (compactItems vs)
  | [] => printable_nil
  | [v] => printable_compact v
  | v :: w :: vs => by
    simp [compactItems_cons_cons, printable_compact v, printable_compactItems (w :: vs)]

theorem printable_compactMembers : (ms : List (String × Json)) → Printable (compactMembers ms)
  | [] => printable_nil
  | [(k, v)] => by simp [compactMembers, printable_writeString k, printable_compact v]
  | (k, v) :: m :: ms => by
    simp [compactMembers_cons_cons, printable_writeString k, printable_compact v,
      printable_compactMembers (m :: ms)]

end

end Json

end AnchoredEdit
