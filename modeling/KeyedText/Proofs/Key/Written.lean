import KeyedText.Encoding.Writer
import KeyedText.Key.Step
import KeyedText.Proofs.Key.Sealed
import KeyedText.Proofs.Text.Trim

/-!
# Written keys

A key is written as names joined by dots, each with its indices in brackets. The names and the
indices that can be written are the same parts of the key when it is read again, and the key ends
where the equals sign behind it stands.

## Main definitions

- `WrittenPart`, `WrittenKey` — names with the texts of their indices
- `WrittenPart.Accepted`, `WrittenKey.Accepted` — what can be written
- `WrittenPart.Legible`, `WrittenKey.Legible` — what can be read back
- `WrittenKey.text` — the text of a key
- `KeyPart.spelling` — the name and the index texts of a part that was read
- `Segment`, `WrittenKey.along` — how a key leads further

## Main statements

- `WrittenKey.Legible.ofText_text` — a written key has the parts that it was written from
- `WrittenKey.Legible.splitAssignment_text` — a written key is the key of its assignment
- `WrittenKey.Accepted.reads_back` — both for a key that can be written, and no other has its text
- `WrittenKey.steps_along` — a key that leads further takes the steps of its segments
-/

namespace KeyedText

/-- A name can be written when it has no outer blanks and nothing in it divides a key. -/
theorem checkName_eq_ok_iff {name : Text} : checkName name = .ok () ↔
    name ≠ [] ∧ Text.trim name = name ∧
      ∀ c ∈ name, isStructural c = false ∧ Text.isControl c = false := by
  simp only [checkName, List.isEmpty_iff, bne_iff_ne, Bool.or_eq_true, List.any_eq_true]
  split
  · next h => grind
  · next h => split <;> grind

/-- The text of an index can be written when it has no outer blanks, brackets and line ends. -/
theorem checkIndex_eq_ok_iff {index : Text} : checkIndex index = .ok () ↔
    Text.trim index = index ∧ ∀ c ∈ index, c ≠ '[' ∧ c ≠ ']' ∧ c ≠ '\n' ∧ c ≠ '\r' := by
  simp only [checkIndex, bne_iff_ne, Bool.or_eq_true, List.any_eq_true, beq_iff_eq]
  split <;> grind

/-- A text without outer blanks and without an equals sign outside brackets is the key of the line
that it starts, whether or not a blank stands before the equals sign behind it. -/
theorem splitAssignment_of_sealed {key blank : Text} (hsealed : Bracket.Sealed '=' 0 key)
    (htrim : Text.trim key = key) (hne : key ≠ []) (hblank : blank = [] ∨ blank = [' '])
    (rest : Text) : splitAssignment (key ++ blank ++ '=' :: rest) = some (key, rest) := by
  have hbehind : Bracket.Sealed '=' 0 (key ++ blank) := by
    refine hsealed.append ?_
    rcases hblank with rfl | rfl
    · rfl
    · exact ⟨by simp, rfl⟩
  have hcut : Bracket.cut '=' (key ++ blank ++ '=' :: rest) = some (key ++ blank, rest) := by
    rw [Bracket.cut, Bracket.cutFrom_append hbehind, Bracket.cutFrom]
    simp
  have htrim' : Text.trim (key ++ blank) = key := by
    rcases hblank with rfl | rfl
    · rw [List.append_nil, htrim]
    · rw [Text.trim_append_of_blank (by decide), htrim]
  have hnot : Text.allBlank (key ++ blank) = false := by
    rw [← Bool.not_eq_true, ← Text.trim_eq_nil_iff, htrim']
    exact hne
  simp only [splitAssignment, hcut, hnot, htrim']
  rfl

/-- A name with the texts of its indices, as they are written. -/
structure WrittenPart where
  name : Text
  indices : List Text
  deriving DecidableEq, Repr

/-- A key as it is written, part by part. -/
abbrev WrittenKey := List WrittenPart

namespace WrittenPart

/-- An index between brackets. -/
def bracketed (index : Text) : Text :=
  '[' :: index ++ [']']

/-- The text of a part. -/
def text (part : WrittenPart) : Text :=
  part.name ++ part.indices.flatMap bracketed

/-- The part that a key has where this one was written. -/
def toPart (part : WrittenPart) : KeyPart :=
  ⟨part.name, part.indices.map Index.ofText⟩

end WrittenPart

/-- The name and the texts of the indices that a part was read with. -/
def KeyPart.spelling (part : KeyPart) : WrittenPart :=
  ⟨part.name, part.indices.map Index.text⟩

namespace WrittenPart

/-- A part that can be written. -/
structure Accepted (part : WrittenPart) : Prop where
  name : checkName part.name = .ok ()
  indices : ∀ index ∈ part.indices, checkIndex index = .ok ()

instance (part : WrittenPart) : Decidable part.Accepted :=
  decidable_of_iff
    (checkName part.name = .ok () ∧ ∀ index ∈ part.indices, checkIndex index = .ok ())
    ⟨fun h => ⟨h.1, h.2⟩, fun h => ⟨h.name, h.indices⟩⟩

variable {part : WrittenPart}

theorem Accepted.name_ne_nil (h : part.Accepted) : part.name ≠ [] :=
  (checkName_eq_ok_iff.1 h.name).1

theorem Accepted.text_ne_nil (h : part.Accepted) : part.text ≠ [] := by
  simp [text, h.name_ne_nil]

theorem Accepted.name_plain (h : part.Accepted) :
    ∀ c ∈ part.name, c ≠ '.' ∧ c ≠ '=' ∧ c ≠ '[' ∧ c ≠ ']' := by
  intro c hc
  have hstructural := ((checkName_eq_ok_iff.1 h.name).2.2 c hc).1
  simp only [isStructural, Bool.or_eq_false_iff, beq_eq_false_iff_ne] at hstructural
  obtain ⟨⟨⟨hdot, hopen⟩, hclose⟩, hsign⟩ := hstructural
  exact ⟨hdot, hsign, hopen, hclose⟩

theorem Accepted.index_plain (h : part.Accepted) {index : Text} (hindex : index ∈ part.indices) :
    ∀ c ∈ index, c ≠ '[' ∧ c ≠ ']' := by
  intro c hc
  obtain ⟨hopen, hclose, -⟩ := (checkIndex_eq_ok_iff.1 (h.indices index hindex)).2 c hc
  exact ⟨hopen, hclose⟩

/-- The text of an index that can be written has no outer blanks to lose. -/
theorem Accepted.spelling_toPart (h : part.Accepted) : part.toPart.spelling = part := by
  have hindices : (part.indices.map Index.ofText).map Index.text = part.indices := by
    rw [List.map_map]
    refine (List.map_congr_left fun index hindex => ?_).trans (List.map_id part.indices)
    exact (checkIndex_eq_ok_iff.1 (h.indices index hindex)).1
  rw [KeyPart.spelling, toPart, hindices]

/-- A part that can be read back from its text: nothing in the name divides a key, the name has no
outer blanks, and every index closes the brackets that it opens, and no more. -/
structure Legible (part : WrittenPart) : Prop where
  name : ∀ c ∈ part.name, c ≠ '.' ∧ c ≠ '=' ∧ c ≠ '['
  trimmed : Text.trim part.name = part.name
  indices : ∀ index ∈ part.indices, Bracket.Sealed ']' 0 index

theorem Accepted.legible (h : part.Accepted) : part.Legible where
  name c hc := by
    obtain ⟨hdot, hsign, hopen, -⟩ := h.name_plain c hc
    exact ⟨hdot, hsign, hopen⟩
  trimmed := (checkName_eq_ok_iff.1 h.name).2.1
  indices index hindex :=
    Bracket.sealed_of_plain fun c hc => (h.index_plain hindex c hc).symm

/-- The text of a part has no separator outside brackets. -/
theorem Legible.sealed (h : part.Legible) {separator : Char}
    (hseparator : separator = '.' ∨ separator = '=') : Bracket.Sealed separator 0 part.text := by
  have hname : Bracket.Sealed separator 0 part.name := by
    refine Bracket.sealed_of_plain fun c hc => ?_
    obtain ⟨hdot, hsign, hopen⟩ := h.name c hc
    rcases hseparator with rfl | rfl
    · exact ⟨hdot, hopen⟩
    · exact ⟨hsign, hopen⟩
  have hopen : separator ≠ '[' := by rcases hseparator with rfl | rfl <;> decide
  refine hname.append ?_
  have hindices : ∀ indices ⊆ part.indices,
      Bracket.Sealed separator 0 (indices.flatMap bracketed) := by
    intro indices
    induction indices with
    | nil => exact fun _ => rfl
    | cons index indices ih =>
      intro hsub
      obtain ⟨hindex, hrest⟩ := List.cons_subset.1 hsub
      exact (Bracket.sealed_index (h.indices index hindex) hopen).append (ih hrest)
  exact hindices part.indices (List.Subset.refl _)

/-- A part is read from its text. -/
theorem Legible.ofText_text (h : part.Legible) : KeyPart.ofText part.text = part.toPart := by
  have hbracket : '[' ∉ part.name := fun hmem => (h.name '[' hmem).2.2 rfl
  have hname : part.text.takeWhile (· ≠ '[') = part.name := by
    rw [text, List.takeWhile_append_of_pos fun c hc => by simpa using (h.name c hc).2.2]
    -- the name ends where the first bracket stands, if there is one
    cases part.indices with
    | nil => simp
    | cons index indices => simp [bracketed]
  have hindices : Bracket.bodies part.text = part.indices := by
    rw [Bracket.bodies, text, Bracket.bodiesFrom_append hbracket]
    exact Bracket.bodiesFrom_indices part.indices h.indices
  rw [KeyPart.ofText, hname, hindices, toPart]

theorem Legible.head_text (h : part.Legible) {c : Char} (hc : part.text.head? = some c) :
    Text.isBlank c = false := by
  rw [text] at hc
  rcases eq_or_ne part.name [] with hnil | hne
  · -- a part without a name starts with the bracket of its first index
    rw [hnil, List.nil_append] at hc
    cases hindices : part.indices with
    | nil => simp [hindices] at hc
    | cons index indices =>
      rw [hindices, List.flatMap_cons, bracketed, List.cons_append, List.cons_append,
        List.head?_cons] at hc
      obtain rfl := Option.some.inj hc
      decide
  · rw [List.head?_append_of_ne_nil _ hne] at hc
    exact (Text.trim_eq_self_iff.1 h.trimmed).1 c hc

theorem Legible.last_text (h : part.Legible) {c : Char} (hc : part.text.getLast? = some c) :
    Text.isBlank c = false := by
  rw [text] at hc
  rcases List.eq_nil_or_concat part.indices with hnil | ⟨front, index, hindices⟩
  · refine (Text.trim_eq_self_iff.1 h.trimmed).2 c ?_
    simpa [hnil] using hc
  · rw [hindices, List.concat_eq_append, List.flatMap_append, List.flatMap_singleton, bracketed,
      ← List.append_assoc, ← List.append_assoc, List.getLast?_concat] at hc
    obtain rfl := Option.some.inj hc
    decide

theorem mem_text {c : Char} (hc : c ∈ part.text) :
    c ∈ part.name ∨ (∃ index ∈ part.indices, c ∈ index) ∨ c = '[' ∨ c = ']' := by
  rw [text, List.mem_append, List.mem_flatMap] at hc
  rcases hc with hname | ⟨index, hindex, hmem⟩
  · exact .inl hname
  · simp only [bracketed, List.cons_append, List.mem_cons, List.mem_append, List.not_mem_nil,
      or_false] at hmem
    rcases hmem with hopen | hmem | hclose
    · exact .inr (.inr (.inl hopen))
    · exact .inr (.inl ⟨index, hindex, hmem⟩)
    · exact .inr (.inr (.inr hclose))

theorem Accepted.no_line_end (h : part.Accepted) : ∀ c ∈ part.text, c ≠ '\n' ∧ c ≠ '\r' := by
  intro c hc
  rcases mem_text hc with hname | ⟨index, hindex, hmem⟩ | rfl | rfl
  · have hcontrol := ((checkName_eq_ok_iff.1 h.name).2.2 c hname).2
    constructor
    · rintro rfl
      exact absurd hcontrol (by decide)
    · rintro rfl
      exact absurd hcontrol (by decide)
  · exact ((checkIndex_eq_ok_iff.1 (h.indices index hindex)).2 c hmem).2.2
  · decide
  · decide

end WrittenPart

namespace WrittenKey

/-- The text of a key. -/
def text (key : WrittenKey) : Text :=
  Text.join ['.'] (key.map WrittenPart.text)

/-- A key that can be written: it has a name, and all of its parts can be written. -/
structure Accepted (key : WrittenKey) : Prop where
  ne_nil : key ≠ []
  parts : ∀ part ∈ key, part.Accepted

instance (key : WrittenKey) : Decidable key.Accepted :=
  decidable_of_iff (key ≠ [] ∧ ∀ part ∈ key, part.Accepted)
    ⟨fun h => ⟨h.1, h.2⟩, fun h => ⟨h.ne_nil, h.parts⟩⟩

/-- The steps that a key leads along when it is read. -/
def steps (key : WrittenKey) : List Step :=
  stepsOf (key.map WrittenPart.toPart)

variable {key : WrittenKey} {part : WrittenPart}

@[simp] theorem text_singleton (part : WrittenPart) : text [part] = part.text := rfl

theorem text_cons (part : WrittenPart) (hne : key ≠ []) :
    text (part :: key) = part.text ++ '.' :: text key := by
  obtain ⟨next, rest, rfl⟩ := List.exists_cons_of_ne_nil hne
  simp [text, Text.join]

theorem accepted_cons (hne : key ≠ []) :
    Accepted (part :: key) ↔ part.Accepted ∧ Accepted key := by
  constructor
  · intro h
    exact ⟨h.parts part (by simp), hne, fun other hother => h.parts other (by simp [hother])⟩
  · rintro ⟨hpart, hkey⟩
    refine ⟨by simp, ?_⟩
    simpa using ⟨hpart, hkey.parts⟩

/-- Induction over the parts of an accepted key, the last of which stands alone. -/
theorem Accepted.rec_parts {motive : (key : WrittenKey) → Accepted key → Prop}
    (single : ∀ (part : WrittenPart) (_ : part.Accepted) (h : Accepted [part]),
      motive [part] h)
    (cons : ∀ (part : WrittenPart) (key : WrittenKey) (_ : part.Accepted)
      (hkey : Accepted key) (h : Accepted (part :: key)), motive key hkey → motive (part :: key) h)
    {key : WrittenKey} (h : Accepted key) : motive key h := by
  induction key with
  | nil => exact absurd rfl h.ne_nil
  | cons part key ih =>
    rcases eq_or_ne key [] with rfl | hne
    · exact single part (h.parts part (by simp)) h
    · obtain ⟨hpart, hkey⟩ := (accepted_cons hne).1 h
      exact cons part key hpart hkey h (ih hkey)

theorem Accepted.text_ne_nil (h : Accepted key) : text key ≠ [] := by
  induction h using Accepted.rec_parts with
  | single part hpart => exact hpart.text_ne_nil
  | cons part key hpart hkey h _ => simp [text_cons part hkey.ne_nil]

/-- A key that can be read back from its text: all of its parts can be, and it is not blank. -/
structure Legible (key : WrittenKey) : Prop where
  parts : ∀ part ∈ key, part.Legible
  text_ne_nil : text key ≠ []

theorem Accepted.legible (h : Accepted key) : key.Legible :=
  ⟨fun part hpart => (h.parts part hpart).legible, h.text_ne_nil⟩

theorem Legible.ne_nil (h : key.Legible) : key ≠ [] := by
  rintro rfl
  exact h.text_ne_nil rfl

/-- The text of a key has no equals sign outside brackets. -/
theorem sealed_text (hne : key ≠ []) (h : ∀ part ∈ key, part.Legible) :
    Bracket.Sealed '=' 0 (text key) := by
  induction key, hne using List.recNeNil with
  | singleton part => exact (h part (by simp)).sealed (.inr rfl)
  | cons part key hne ih =>
    obtain ⟨hpart, hkey⟩ := List.forall_mem_cons.1 h
    rw [text_cons part hne]
    exact (hpart.sealed (.inr rfl)).append ⟨by simp, ih hkey⟩

theorem split_text (hne : key ≠ []) (h : ∀ part ∈ key, part.Legible) :
    Bracket.split '.' (text key) = key.map WrittenPart.text := by
  induction key, hne using List.recNeNil with
  | singleton part => exact Bracket.splitFrom_of_sealed ((h part (by simp)).sealed (.inl rfl))
  | cons part key hne ih =>
    obtain ⟨hpart, hkey⟩ := List.forall_mem_cons.1 h
    rw [text_cons part hne, Bracket.split,
      Bracket.splitFrom_append_separator (hpart.sealed (.inl rfl))]
    exact congrArg (part.text :: ·) (ih hkey)

theorem head_text (hne : key ≠ []) (h : ∀ part ∈ key, part.Legible) :
    ∀ c, (text key).head? = some c → Text.isBlank c = false := by
  induction key, hne using List.recNeNil with
  | singleton part => exact fun c => (h part (by simp)).head_text
  | cons part key hne _ =>
    intro c hc
    rw [text_cons part hne] at hc
    -- an empty part leaves the dot behind it at the front
    rcases eq_or_ne part.text [] with hnil | hpart
    · rw [hnil, List.nil_append, List.head?_cons] at hc
      obtain rfl := Option.some.inj hc
      decide
    · rw [List.head?_append_of_ne_nil _ hpart] at hc
      exact (h part (by simp)).head_text hc

theorem last_text (hne : key ≠ []) (h : ∀ part ∈ key, part.Legible) :
    ∀ c, (text key).getLast? = some c → Text.isBlank c = false := by
  induction key, hne using List.recNeNil with
  | singleton part => exact fun c => (h part (by simp)).last_text
  | cons part key hne ih =>
    intro c hc
    rw [text_cons part hne, ← List.singleton_append, ← List.append_assoc] at hc
    rcases eq_or_ne (text key) [] with hnil | hkey
    · rw [hnil, List.append_nil, List.getLast?_concat] at hc
      obtain rfl := Option.some.inj hc
      decide
    · rw [List.getLast?_append_of_ne_nil _ hkey] at hc
      exact ih (List.forall_mem_cons.1 h).2 c hc

theorem Legible.trim_text (h : key.Legible) : Text.trim (text key) = text key :=
  Text.trim_eq_self_iff.2 ⟨head_text h.ne_nil h.parts, last_text h.ne_nil h.parts⟩

theorem mem_text {c : Char} (hc : c ∈ text key) : (∃ part ∈ key, c ∈ part.text) ∨ c = '.' := by
  rcases eq_or_ne key [] with rfl | hne
  · simp [text, Text.join] at hc
  · induction key, hne using List.recNeNil with
    | singleton part => exact .inl ⟨part, by simp, hc⟩
    | cons part key hne ih =>
      rw [text_cons part hne, List.mem_append, List.mem_cons] at hc
      rcases hc with hc | hc | hc
      · exact .inl ⟨part, by simp, hc⟩
      · exact .inr hc
      · exact (ih hc).imp_left fun ⟨other, hother, hmem⟩ => ⟨other, by simp [hother], hmem⟩

theorem Accepted.no_line_end (h : Accepted key) : ∀ c ∈ text key, c ≠ '\n' ∧ c ≠ '\r' := by
  intro c hc
  rcases mem_text hc with ⟨part, hpart, hmem⟩ | rfl
  · exact (h.parts part hpart).no_line_end c hmem
  · decide

/-- A written key has the parts that it was written from. -/
theorem Legible.ofText_text (h : key.Legible) :
    KeyPath.ofText (text key) = ⟨key.map WrittenPart.toPart⟩ := by
  rw [KeyPath.ofText, Text.allBlank_eq_false h.trim_text h.text_ne_nil, if_neg (by simp),
    split_text h.ne_nil h.parts, List.map_map]
  congr 1
  exact List.map_congr_left fun part hpart => (h.parts part hpart).ofText_text

/-- A written key is the key of its assignment, whether or not a blank stands behind it. -/
theorem Legible.splitAssignment_text (h : key.Legible) (blank : Text)
    (hblank : blank = [] ∨ blank = [' ']) (rest : Text) :
    splitAssignment (text key ++ blank ++ '=' :: rest) = some (text key, rest) :=
  splitAssignment_of_sealed (sealed_text h.ne_nil h.parts) h.trim_text h.text_ne_nil hblank rest

/-- A key that can be written is spelled the same when it is read from its text. -/
theorem Accepted.spelling_ofText (h : key.Accepted) :
    (KeyPath.ofText (text key)).parts.map KeyPart.spelling = key := by
  rw [h.legible.ofText_text, List.map_map]
  refine (List.map_congr_left fun part hpart => ?_).trans (List.map_id key)
  exact (h.parts part hpart).spelling_toPart

theorem Accepted.eq_of_text {other : WrittenKey} (h : key.Accepted) (hother : other.Accepted)
    (htext : text other = text key) : other = key :=
  calc
    other = (KeyPath.ofText (text other)).parts.map KeyPart.spelling := hother.spelling_ofText.symm
    _ = (KeyPath.ofText (text key)).parts.map KeyPart.spelling := by rw [htext]
    _ = key := h.spelling_ofText

/-- **A key that can be written is read as what it was written from.** Its text has its parts, with
their names and the texts of their indices in order; an assignment that starts with it, with or
without a blank before the equals sign, has it as its key; and no other key has the same text. -/
theorem Accepted.reads_back (h : key.Accepted) :
    (KeyPath.ofText (text key)).parts.map KeyPart.spelling = key ∧
      (∀ blank rest, blank = [] ∨ blank = [' '] →
        splitAssignment (text key ++ blank ++ '=' :: rest) = some (text key, rest)) ∧
      ∀ other : WrittenKey, other.Accepted → text other = text key → other = key := by
  refine ⟨h.spelling_ofText, fun blank rest hblank => ?_, fun other hother htext => ?_⟩
  · exact h.legible.splitAssignment_text blank hblank rest
  · exact h.eq_of_text hother htext

/-- A key whose indices hold dots, commas, equals signs and braces, and whose names hold commas and
inner blanks. -/
def thornyKey : WrittenKey :=
  [⟨"Best, friend".toList, ["a.b=c".toList, [], "x , y".toList]⟩, ⟨"\x7d".toList, ["\x7b=".toList]⟩]

/-- What divides keys elsewhere divides nothing inside of an index. -/
theorem thornyKey_reads_back : thornyKey.Accepted ∧
    (KeyPath.ofText (text thornyKey)).parts.map KeyPart.spelling = thornyKey ∧
      (∀ blank rest, blank = [] ∨ blank = [' '] →
        splitAssignment (text thornyKey ++ blank ++ '=' :: rest) = some (text thornyKey, rest)) ∧
      ∀ other : WrittenKey, other.Accepted → text other = text thornyKey → other = thornyKey := by
  have haccepted : thornyKey.Accepted := by decide
  exact ⟨haccepted, haccepted.reads_back⟩

end WrittenKey

/-! ## Keys that lead further -/

/-- What leads a key further: the name of a member, or the text of an index. -/
inductive Segment where
  | member (name : Text)
  | index (text : Text)
  deriving DecidableEq, Repr

namespace Segment

/-- A segment that can be written. -/
def Accepted : Segment → Prop
  | member name => checkName name = .ok ()
  | index text => checkIndex text = .ok ()

/-- The step that a segment is read as. -/
def toStep : Segment → Step
  | member name => .member name
  | index text => .index (Index.ofText text)

end Segment

namespace WrittenKey

/-- The key with an index behind its last part. -/
def addIndex (index : Text) : WrittenKey → WrittenKey
  | [] => []
  | [part] => [⟨part.name, part.indices ++ [index]⟩]
  | part :: rest => part :: addIndex index rest

/-- The key that leads one segment further. -/
def extend (key : WrittenKey) : Segment → WrittenKey
  | .member name => key ++ [⟨name, []⟩]
  | .index index => key.addIndex index

/-- The key that leads along some segments. -/
def along (key : WrittenKey) (segments : List Segment) : WrittenKey :=
  segments.foldl extend key

variable {key : WrittenKey} {index name : Text} {segment : Segment} {segments : List Segment}

theorem addIndex_ne_nil (h : key ≠ []) : key.addIndex index ≠ [] := by
  fun_cases addIndex index key <;> simp_all

theorem addIndex_cons (part : WrittenPart) (h : key ≠ []) :
    addIndex index (part :: key) = part :: addIndex index key := by
  obtain ⟨next, rest, rfl⟩ := List.exists_cons_of_ne_nil h
  rfl

theorem text_addIndex (h : key ≠ []) :
    text (addIndex index key) = text key ++ WrittenPart.bracketed index := by
  induction key with
  | nil => exact absurd rfl h
  | cons part key ih =>
    rcases eq_or_ne key [] with rfl | hne
    · simp [addIndex, WrittenPart.text]
    · rw [addIndex_cons part hne, text_cons part (addIndex_ne_nil hne), text_cons part hne, ih hne,
        List.append_assoc, List.cons_append]

theorem text_append_name (h : key ≠ []) :
    text (key ++ [⟨name, []⟩]) = text key ++ '.' :: name := by
  induction key with
  | nil => exact absurd rfl h
  | cons part key ih =>
    rcases eq_or_ne key [] with rfl | hne
    · simp [text, Text.join, WrittenPart.text]
    · rw [List.cons_append, text_cons part (by simp), text_cons part hne, ih hne, List.append_assoc,
        List.cons_append]

theorem text_extend_member (h : key = [] ∨ key.Accepted) :
    text (key.extend (.member name)) = memberKey key.text name := by
  rcases h with rfl | h
  · simp [extend, memberKey, text, Text.join, WrittenPart.text]
  · rw [extend, text_append_name h.ne_nil, memberKey, List.isEmpty_eq_false_iff.2 h.text_ne_nil]
    rfl

theorem accepted_name (h : checkName name = .ok ()) : Accepted [⟨name, []⟩] :=
  ⟨by simp, by simpa using ⟨h, by simp⟩⟩

/-- A key that can be written can be led further by what can be written. -/
theorem Accepted.extend (h : key.Accepted) (hsegment : segment.Accepted) :
    (key.extend segment).Accepted := by
  cases segment with
  | member name =>
    refine ⟨by simp [WrittenKey.extend], fun part hpart => ?_⟩
    rcases List.mem_append.1 hpart with hpart | hpart
    · exact h.parts part hpart
    · exact (accepted_name hsegment).parts part hpart
  | index index =>
    rw [WrittenKey.extend]
    -- the index goes to the last part, and the parts before it stay
    induction h using Accepted.rec_parts with
    | single part hpart =>
      refine ⟨by simp [addIndex], ?_⟩
      simp only [addIndex, List.mem_singleton, forall_eq]
      refine ⟨hpart.name, fun other hother => ?_⟩
      rcases List.mem_append.1 hother with hother | hother
      · exact hpart.indices other hother
      · rwa [List.mem_singleton.1 hother]
    | cons part key hpart hkey h ih =>
      rw [addIndex_cons part hkey.ne_nil]
      exact (accepted_cons (addIndex_ne_nil hkey.ne_nil)).2 ⟨hpart, ih⟩

theorem Accepted.along (h : key.Accepted) (hsegments : ∀ segment ∈ segments, segment.Accepted) :
    (key.along segments).Accepted := by
  induction segments generalizing key with
  | nil => exact h
  | cons segment segments ih =>
    exact ih (h.extend (hsegments segment (by simp)))
      fun other hother => hsegments other (by simp [hother])

theorem steps_extend (h : key ≠ []) (segment : Segment) :
    steps (key.extend segment) = steps key ++ [segment.toStep] := by
  cases segment with
  | member name => simp [extend, steps, stepsOf, KeyPart.steps, WrittenPart.toPart, Segment.toStep]
  | index index =>
    rw [extend]
    induction key with
    | nil => exact absurd rfl h
    | cons part key ih =>
      rcases eq_or_ne key [] with rfl | hne
      · simp [addIndex, steps, stepsOf, KeyPart.steps, WrittenPart.toPart, Segment.toStep]
      · have hrest := ih hne
        rw [addIndex_cons part hne]
        simp only [steps, stepsOf, List.map_cons, List.flatMap_cons] at hrest ⊢
        rw [hrest, List.append_assoc]

theorem extend_ne_nil (h : key ≠ []) (segment : Segment) : key.extend segment ≠ [] := by
  cases segment with
  | member name => simp [extend]
  | index index => exact addIndex_ne_nil h

/-- The steps of a key that leads along some segments. -/
theorem steps_along (h : key ≠ []) (segments : List Segment) :
    steps (key.along segments) = steps key ++ segments.map Segment.toStep := by
  induction segments generalizing key with
  | nil => simp [along]
  | cons segment segments ih =>
    rw [along, List.foldl_cons, ← along, ih (extend_ne_nil h segment), steps_extend h,
      List.append_assoc]
    rfl

/-- The steps of a key that starts with a name. -/
theorem steps_along_member (name : Text) (segments : List Segment) :
    steps (along [] (.member name :: segments)) =
      (Segment.member name :: segments).map Segment.toStep := by
  have hsteps : steps (along [⟨name, []⟩] segments) = _ := steps_along (by simp) segments
  exact hsteps

end WrittenKey

end KeyedText
