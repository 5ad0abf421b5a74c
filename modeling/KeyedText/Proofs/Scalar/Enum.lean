import KeyedText.Proofs.Text.Split
import KeyedText.Scalar.Enum
import Mathlib.Data.Nat.Bitwise

/-!
# Values that come back from their names

A value that is written by a name is read as itself when no earlier variant answers to the name. A
combination of flags that has no name of its own is written by names of variants that it contains,
where those that the names before cover already are left out. What is read again is all that the
table can tell of it: the bits of every variant that it contains.

## Main definitions

- `EnumTable.Unambiguous` — no name can be taken for another one
- `FlagRule.bits` — flags that combine bit by bit
- `EnumTable.within` — the values of a table that a value contains

## Main statements

- `EnumTable.exists_cover` — the names that are written cover every value that is contained
- `EnumTable.read_names` — names between bars are read as their values combined
- `EnumTable.render_reads_back` — what is read of the text of a value
-/

namespace KeyedText

/-- A text that can stand between bars: neither empty nor with blanks or bars in it. -/
def Text.IsWord (text : Text) : Prop :=
  text ≠ [] ∧ ∀ c ∈ text, isBlank c = false ∧ c ≠ '|'

instance (text : Text) : Decidable text.IsWord :=
  decidable_of_iff (text ≠ [] ∧ (text.all fun c => !Text.isBlank c && c != '|') = true)
    (by simp [Text.IsWord])

/-- No name of a table can be taken for another one: each is a word, and none is the name or an
alias of an earlier variant, up to the case of ASCII letters. -/
structure EnumTable.Unambiguous (table : EnumTable) : Prop where
  words : ∀ variant ∈ table.variants, variant.name.IsWord
  apart : table.variants.Pairwise fun earlier later => earlier.hasName later.name = false

/-- Flags that combine bit by bit. A value without bits is empty. -/
def FlagRule.bits : FlagRule where
  bitwise := true
  empty := some 0

/-! ## Bits -/

/-- The bits of some values taken together. -/
def unionOf (values : List Nat) : Nat :=
  values.foldr (· ||| ·) 0

variable {whole part value : Nat} {parts : List Nat}

theorem unionOf_cons (part : Nat) (parts : List Nat) :
    unionOf (part :: parts) = part ||| unionOf parts := rfl

theorem testBit_unionOf {i : Nat} :
    (unionOf parts).testBit i = true ↔ ∃ part ∈ parts, part.testBit i = true := by
  induction parts with
  | nil => simp [unionOf]
  | cons part parts ih =>
    rw [unionOf_cons, Nat.testBit_or, Bool.or_eq_true, ih, List.exists_mem_cons_iff]

/-- A value contains another one when it has all of its bits. -/
theorem and_eq_right_iff_testBit :
    whole &&& part = part ↔ ∀ i, part.testBit i = true → whole.testBit i = true := by
  constructor
  · intro h i hi
    rw [← h, Nat.testBit_and, Bool.and_eq_true] at hi
    exact hi.1
  · intro h
    refine Nat.eq_of_testBit_eq fun i => ?_
    rw [Nat.testBit_and]
    cases hi : part.testBit i with
    | false => exact Bool.and_false _
    | true => rw [h i hi, Bool.true_and]

/-- What is contained adds nothing. -/
theorem or_eq_left_of_and_eq (h : whole &&& part = part) : whole ||| part = whole := by
  refine Nat.eq_of_testBit_eq fun i => ?_
  rw [Nat.testBit_or]
  cases hi : part.testBit i with
  | false => exact Bool.or_false _
  | true => rw [and_eq_right_iff_testBit.1 h i hi, Bool.true_or]

namespace EnumTable

variable {table : EnumTable} {variant : Variant} {variants chosen : List Variant}

/-- The values of a table. -/
def values (table : EnumTable) : List Nat :=
  table.variants.map Variant.value

/-- The values of some variants that a value contains. -/
def contained (value : Nat) (variants : List Variant) : List Nat :=
  (variants.map Variant.value).filter fun part => value &&& part = part

/-- The values of a table that a value contains. -/
def within (table : EnumTable) (value : Nat) : List Nat :=
  contained value table.variants

theorem mem_within {part : Nat} :
    part ∈ table.within value ↔ part ∈ table.values ∧ value &&& part = part := by
  rw [within, contained, List.mem_filter, decide_eq_true_eq, values]

/-- The bits of the contained values are those of the value exactly when some values of the table
make it up. -/
theorem unionOf_within_eq_iff :
    unionOf (table.within value) = value ↔ ∃ parts ⊆ table.values, value = unionOf parts := by
  constructor
  · intro h
    exact ⟨table.within value, fun part hpart => (mem_within.1 hpart).1, h.symm⟩
  · rintro ⟨parts, hparts, rfl⟩
    refine Nat.eq_of_testBit_eq fun i => ?_
    rw [Bool.eq_iff_iff, testBit_unionOf]
    constructor
    · rintro ⟨part, hpart, hi⟩
      exact and_eq_right_iff_testBit.1 (mem_within.1 hpart).2 i hi
    · intro hi
      obtain ⟨part, hpart, hbit⟩ := testBit_unionOf.1 hi
      refine ⟨part, mem_within.2 ⟨hparts hpart, and_eq_right_iff_testBit.2 fun j hj => ?_⟩, hbit⟩
      exact testBit_unionOf.2 ⟨part, hpart, hj⟩

/-! ## Names -/

theorem Unambiguous.find_name (h : table.Unambiguous) (hvariant : variant ∈ table.variants) :
    table.find variant.name = .ok variant.value := by
  obtain ⟨before, after, hvariants⟩ := List.append_of_mem hvariant
  have hapart := h.apart
  rw [hvariants, List.pairwise_append] at hapart
  have hfound : (table.variants.find? fun other => other.hasName variant.name) = some variant := by
    rw [List.find?_eq_some_iff_append]
    refine ⟨by simp [Variant.hasName, Text.sameIgnoringAsciiCase], before, after, hvariants, ?_⟩
    intro other hother
    simp [hapart.2.2 other hother variant (by simp)]
  rw [find, hfound]

theorem Unambiguous.trim_name (h : table.Unambiguous) (hvariant : variant ∈ table.variants) :
    Text.trim variant.name = variant.name :=
  Text.trim_eq_self_of_no_blank fun c hc => ((h.words variant hvariant).2 c hc).1

theorem Unambiguous.bar_notMem (h : table.Unambiguous) (hvariant : variant ∈ table.variants) :
    '|' ∉ variant.name :=
  fun hbar => ((h.words variant hvariant).2 '|' hbar).2 rfl

/-- The values of some names are combined with what was combined before. -/
theorem Unambiguous.combine_names (h : table.Unambiguous) (hchosen : chosen ⊆ table.variants)
    {pieces : List Text} (hpieces : pieces.map Text.trim = chosen.map Variant.name) (total : Nat) :
    table.combine .bits total pieces = .ok (total ||| unionOf (chosen.map Variant.value)) := by
  induction chosen generalizing pieces total with
  | nil =>
    obtain rfl := List.map_eq_nil_iff.1 hpieces
    simp [combine, unionOf]
  | cons variant chosen ih =>
    obtain ⟨piece, pieces, rfl, hpiece, hrest⟩ := List.map_eq_cons_iff.1 hpieces
    obtain ⟨hvariant, hchosen⟩ := List.cons_subset.1 hchosen
    rw [combine, hpiece, h.find_name hvariant]
    have hunion := ih hchosen hrest (total ||| variant.value)
    rw [List.map_cons, unionOf_cons, ← Nat.or_assoc]
    exact hunion

/-- Names between bars are read as their values combined. -/
theorem Unambiguous.read_names (h : table.Unambiguous) (hflags : table.flags = some .bits)
    (hchosen : chosen ⊆ table.variants) :
    table.read (Text.join " | " (chosen.map Variant.name)) =
      .ok (unionOf (chosen.map Variant.value)) := by
  cases chosen with
  | nil =>
    rw [read, hflags]
    rfl
  | cons variant chosen =>
    have hbar : " | ".toList = [' ', '|', ' '] := rfl
    have hbars : ∀ name ∈ (variant :: chosen).map Variant.name, '|' ∉ name :=
      List.forall_mem_map.2 fun other hother => h.bar_notMem (hchosen hother)
    have hnames : ((variant :: chosen).map Variant.name).map Text.trim =
        (variant :: chosen).map Variant.name := by
      rw [List.map_map]
      exact List.map_congr_left fun other hother => h.trim_name (hchosen hother)
    have hblank : Text.isBlank ' ' = true := by decide
    have hpieces := Text.map_trim_splitOn_join hblank hblank (by decide) (by simp) hbars
    rw [hnames, ← Text.map_trim_splitOn_trim (by decide), ← hbar] at hpieces
    -- nothing would be left of the text only if the first name were empty
    have hne : Text.trim (Text.join " | " ((variant :: chosen).map Variant.name)) ≠ [] := by
      intro hempty
      rw [hempty] at hpieces
      exact (h.words variant (hchosen (by simp))).1 (List.cons.inj hpieces).1.symm
    obtain ⟨piece, pieces, hsplit, hpiece, hrest⟩ := List.map_eq_cons_iff.1 hpieces
    obtain ⟨hvariant, hchosen⟩ := List.cons_subset.1 hchosen
    rw [read, hflags]
    dsimp only
    rw [if_neg (by simpa using hne), hsplit]
    dsimp only
    rw [hpiece, h.find_name hvariant, List.map_cons, unionOf_cons]
    exact h.combine_names hchosen hrest variant.value

/-! ## The names that are written -/

/-- A variant is passed over when it has no bits, when the value does not contain it, or when the
variants before cover it. -/
theorem cover_cons (value : Nat) (covered : Option Nat) (variant : Variant)
    (variants : List Variant) :
    cover .bits value covered (variant :: variants) =
      if variant.value = 0 ∨ value &&& variant.value ≠ variant.value ∨
          covered.getD 0 &&& variant.value = variant.value then cover .bits value covered variants
      else
        variant.name :: cover .bits value (some (covered.getD 0 ||| variant.value)) variants := by
  cases covered with
  | none =>
    refine if_congr ?_ rfl ?_
    · simp only [FlagRule.bits, FlagRule.contains, Option.getD_none, Nat.zero_and]
      grind
    · rw [Option.getD_none, Nat.zero_or]
  | some total =>
    refine if_congr ?_ rfl rfl
    simp [FlagRule.bits, FlagRule.contains, or_assoc]

/-- The names that are written are those of variants which cover all bits of the variants that the
value contains. What was covered before counts on either side. -/
theorem exists_cover (value : Nat) (covered : Option Nat) (variants : List Variant) :
    ∃ chosen ⊆ variants, cover .bits value covered variants = chosen.map Variant.name ∧
      covered.getD 0 ||| unionOf (chosen.map Variant.value) =
        covered.getD 0 ||| unionOf (contained value variants) := by
  induction variants generalizing covered with
  | nil => exact ⟨[], by simp, rfl, rfl⟩
  | cons variant variants ih =>
    rw [cover_cons]
    split
    · next hskip =>
      obtain ⟨chosen, hsub, hcover, hunion⟩ := ih covered
      refine ⟨chosen, List.subset_cons_of_subset _ hsub, hcover, ?_⟩
      rw [hunion, contained, contained, List.map_cons, List.filter_cons]
      split
      · next hin =>
        -- the value is contained, so it has no bits or is covered already
        have hnothing : covered.getD 0 ||| variant.value = covered.getD 0 := by
          rcases hskip with hzero | hout | hknown
          · rw [hzero, Nat.or_zero]
          · exact absurd (by simpa using hin) hout
          · exact or_eq_left_of_and_eq hknown
        rw [unionOf_cons, ← Nat.or_assoc, hnothing]
      · rfl
    · next htake =>
      simp only [not_or, not_not] at htake
      obtain ⟨chosen, hsub, hcover, hunion⟩ := ih (some (covered.getD 0 ||| variant.value))
      refine ⟨variant :: chosen, List.cons_subset_cons _ hsub, by rw [hcover]; rfl, ?_⟩
      rw [Option.getD_some, Nat.or_assoc, Nat.or_assoc] at hunion
      rw [contained, List.map_cons, List.map_cons, List.filter_cons_of_pos (by simp [htake.2.1])]
      exact hunion

/-- **What is read of the text of a value.** In a table whose names cannot be taken for one another,
a plain table reads each of its values back. A table of flags reads, of whatever value, the bits of
all its values that are contained in it, so that a value comes back exactly when some values of the
table make it up. -/
theorem render_reads_back (h : table.Unambiguous) :
    (table.flags = none → ∀ variant ∈ table.variants,
      table.read (table.render variant.value) = .ok variant.value) ∧
      (table.flags = some .bits → ∀ value,
        table.read (table.render value) = .ok (unionOf (table.within value)) ∧
          (table.read (table.render value) = .ok value ↔
            ∃ parts ⊆ table.values, value = unionOf parts)) := by
  constructor
  · intro hplain variant hvariant
    obtain ⟨named, hnamed⟩ : ∃ named, (table.variants.find? fun other =>
        other.value = variant.value) = some named :=
      Option.isSome_iff_exists.1 (List.find?_isSome.2 ⟨variant, hvariant, by simp⟩)
    have hvalue : named.value = variant.value := by simpa using List.find?_some hnamed
    rw [render, hnamed, read, hplain]
    dsimp only
    rw [h.trim_name (List.mem_of_find?_eq_some hnamed),
      h.find_name (List.mem_of_find?_eq_some hnamed), hvalue]
  · intro hflags value
    have hread : table.read (table.render value) = .ok (unionOf (table.within value)) := by
      rw [render]
      split
      · next named hnamed =>
        have hmem := List.mem_of_find?_eq_some hnamed
        obtain rfl : named.value = value := by simpa using List.find?_some hnamed
        have hwithin : unionOf (table.within named.value) = named.value :=
          unionOf_within_eq_iff.2
            ⟨[named.value], by simpa [values] using ⟨named, hmem, rfl⟩, by simp [unionOf]⟩
        have hchosen : [named] ⊆ table.variants := by simpa using hmem
        have hnames := h.read_names hflags hchosen
        rw [hwithin]
        simpa [Text.join, unionOf] using hnames
      · rw [hflags]
        obtain ⟨chosen, hchosen, hcover, hunion⟩ := exists_cover value none table.variants
        rw [Option.getD_none, Nat.zero_or, Nat.zero_or] at hunion
        dsimp only
        rw [hcover, h.read_names hflags hchosen, hunion]
        rfl
    refine ⟨hread, ?_⟩
    rw [hread, Except.ok.injEq, unionOf_within_eq_iff]

/-- Rights with an empty one, one that is made up of two others, and one of two bits. -/
def rights : EnumTable where
  typeName := "Rights"
  variants :=
    [⟨"None", [], 0⟩, ⟨"Read", ["r"], 1⟩, ⟨"Edit", ["READ"], 3⟩, ⟨"Write", ["w"], 2⟩,
      ⟨"Run", ["none"], 12⟩]
  flags := some .bits

/-- Of a value with reading, writing, a half of running and a bit without a name, reading and
writing come back. As names of single values the same names come back one by one. -/
theorem rights_render_reads_back :
    rights.Unambiguous ∧ rights.render 23 = "Read | Edit".toList ∧
      rights.read (rights.render 23) = .ok (unionOf (rights.within 23)) ∧
      unionOf (rights.within 23) = 3 ∧ rights.read (rights.render 23) ≠ .ok 23 ∧
      ({ rights with flags := none }).read "Run" = .ok 12 := by
  have hrights : rights.Unambiguous := ⟨by decide, by decide⟩
  have hplain : ({ rights with flags := none } : EnumTable).Unambiguous := ⟨by decide, by decide⟩
  have hflags := (render_reads_back hrights).2 rfl 23
  have hunion : unionOf (rights.within 23) = 3 := by decide
  refine ⟨hrights, by decide, hflags.1, hunion, ?_,
    (render_reads_back hplain).1 rfl ⟨"Run", ["none"], 12⟩ (by decide)⟩
  rw [hflags.1, hunion]
  simp

end EnumTable

end KeyedText
