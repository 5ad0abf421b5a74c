import KeyedText.Proofs.Encoding.Pairs
import KeyedText.Proofs.Entries

/-!
# The leaves of a slot

A slot is written as one pair for each of its leaves: scalars, and lists without items. The key of
the pair leads from the key of the slot along the segments of the leaf.

## Main definitions

- `Leaf` — the segments that lead to a leaf and its text
- `Slot.leaves` — the leaves of a slot
- `WritesUnder` — a text is that of some leaves under a key
- `Encoder.Writes` — an encoder writes some leaves

## Main statements

- `writes_items`, `writes_object` — what the encoders of the parts of a slot write
-/

namespace KeyedText

/-- A leaf of a slot: the segments that lead to it, and its text. -/
abbrev Leaf := List Segment × Text

namespace Leaf

/-- The leaf as one of a slot around, behind one more segment. -/
def behind (segment : Segment) (leaf : Leaf) : Leaf :=
  (segment :: leaf.1, leaf.2)

/-- The pair that a leaf is written as under a key. -/
def pair (key : WrittenKey) (leaf : Leaf) : WrittenKey × Text :=
  (key.along leaf.1, leaf.2)

/-- A leaf that can be written. -/
def Accepted (leaf : Leaf) : Prop :=
  ∀ segment ∈ leaf.1, segment.Accepted

end Leaf

/-- The leaves of items behind the texts of their indices. -/
def leavesOfIndexed (items : List (Text × List Leaf)) : List Leaf :=
  items.flatMap fun item => item.2.map (Leaf.behind (.index item.1))

/-- The leaves of a member, if it is written. -/
def Member.leaves (fields : Entries (List Leaf)) (member : Member) : List Leaf :=
  if member.ignoreGet || !member.readable then []
  else ((Entries.get? member.field fields).getD []).map (Leaf.behind (.member member.name))

mutual

/-- The leaves of a slot, apart from the names of registered types and the entries of indexers. -/
def Slot.leaves (schema : Schema) : Slot → List Leaf
  | .scalar value => [([], value.render)]
  | .filled content => content.leaves schema
  | .boxed content => content.leaves schema
  | .list _ items =>
    if items.isEmpty then [([], [])]
    else leavesOfIndexed (numbered 0 (leavesOfItems schema items))
  | .map _ kind _ _ entries => leavesOfIndexed (kind.shown (leavesOfEntries schema entries))
  | .object typeName fields =>
    (schema.find typeName).members.flatMap (Member.leaves (leavesOfFields schema fields))
  | .dynamic _ typeName fields =>
    (schema.find typeName).members.flatMap (Member.leaves (leavesOfFields schema fields))
  | .vacant _ => []
  | .reference _ => []
  | .unset => []

/-- The leaves of the items of a list. -/
def leavesOfItems (schema : Schema) : List Slot → List (List Leaf)
  | [] => []
  | slot :: rest => slot.leaves schema :: leavesOfItems schema rest

/-- The leaves of the values of a map. -/
def leavesOfEntries (schema : Schema) : List (MapKey × Slot) → List (MapKey × List Leaf)
  | [] => []
  | (key, slot) :: rest => (key, slot.leaves schema) :: leavesOfEntries schema rest

/-- The leaves of the fields of an object. -/
def leavesOfFields (schema : Schema) : List (Text × Slot) → List (Text × List Leaf)
  | [] => []
  | (field, slot) :: rest => (field, slot.leaves schema) :: leavesOfFields schema rest

end

/-! ## Parts of a slot one by one -/

section

variable {schema : Schema} {options : EncodeOptions}

theorem leavesOfItems_eq (items : List Slot) :
    leavesOfItems schema items = items.map (Slot.leaves schema) := by
  induction items with
  | nil => rfl
  | cons item items ih => rw [leavesOfItems, ih, List.map_cons]

theorem leavesOfEntries_eq (entries : List (MapKey × Slot)) :
    leavesOfEntries schema entries =
      entries.map fun entry => (entry.1, entry.2.leaves schema) := by
  induction entries with
  | nil => rfl
  | cons entry entries ih => rw [leavesOfEntries, ih, List.map_cons]

theorem leavesOfFields_eq (fields : Fields) :
    leavesOfFields schema fields = fields.map fun entry => (entry.1, entry.2.leaves schema) := by
  induction fields with
  | nil => rfl
  | cons entry fields ih => rw [leavesOfFields, ih, List.map_cons]

theorem encodersOfItems_eq (items : List Slot) :
    encodersOfItems schema options items = items.map (Slot.encode schema options) := by
  induction items with
  | nil => rfl
  | cons item items ih => rw [encodersOfItems, ih, List.map_cons]

theorem encodersOfEntries_eq (entries : List (MapKey × Slot)) :
    encodersOfEntries schema options entries =
      entries.map fun entry => (entry.1, entry.2.encode schema options) := by
  induction entries with
  | nil => rfl
  | cons entry entries ih => rw [encodersOfEntries, ih, List.map_cons]

theorem encodersOfFields_eq (fields : Fields) :
    encodersOfFields schema options fields =
      fields.map fun entry => (entry.1, entry.2.encode schema options) := by
  induction fields with
  | nil => rfl
  | cons entry fields ih => rw [encodersOfFields, ih, List.map_cons]

theorem encodersOfIndexer_eq_nil {indexer : Option Indexer} {fields : Fields}
    (h : ∀ held closed, indexer ≠ some ⟨held, closed, true⟩) :
    encodersOfIndexer schema options indexer fields = [] := by
  cases fields with
  | nil => rfl
  | cons entry fields =>
    rw [encodersOfIndexer]
    exact h

/-- The entries that an indexer lists are those in its field. -/
theorem encodersOfIndexer_eq (held : Text) (closed : Option Text) (fields : Fields) :
    encodersOfIndexer schema options (some ⟨held, closed, true⟩) fields =
      ((Entries.get? held fields).map (entryEncoders schema options)).getD [] := by
  induction fields with
  | nil => rfl
  | cons entry fields ih =>
    rw [encodersOfIndexer, Entries.get?, List.find?_cons]
    by_cases hfield : (entry.1 == held) = true
    · rw [if_pos hfield, hfield]
      rfl
    · rw [if_neg hfield, Bool.eq_false_iff.2 hfield, ih]
      rfl

theorem numbered_map {α β : Type} (f : α → β) (position : Nat) (items : List α) :
    numbered position (items.map f) =
      (numbered position items).map fun item => (item.1, f item.2) := by
  induction items generalizing position with
  | nil => rfl
  | cons item items ih => rw [List.map_cons, numbered, ih, numbered, List.map_cons]

theorem mem_of_mem_numbered {α : Type} {position : Nat} {items : List α} {item : Text × α}
    (h : item ∈ numbered position items) : item.2 ∈ items := by
  induction items generalizing position with
  | nil => exact absurd h (by simp [numbered])
  | cons first items ih =>
    rw [numbered, List.mem_cons] at h
    rcases h with rfl | h
    · simp
    · exact List.mem_cons_of_mem _ (ih h)

theorem exists_mem_numbered {α : Type} (position : Nat) {items : List α} {item : α}
    (h : item ∈ items) : ∃ index, (index, item) ∈ numbered position items := by
  induction items generalizing position with
  | nil => exact absurd h (by simp)
  | cons first items ih =>
    rcases List.mem_cons.1 h with rfl | h
    · exact ⟨_, List.mem_cons_self⟩
    · obtain ⟨index, hmem⟩ := ih (position + 1) h
      exact ⟨index, List.mem_cons_of_mem _ hmem⟩

end

theorem leaves_list_cons (schema : Schema) (element : SlotType) (item : Slot) (items : List Slot) :
    (Slot.list element (item :: items)).leaves schema = leavesOfIndexed
      ((numbered 0 (item :: items)).map fun entry => (entry.1, entry.2.leaves schema)) := by
  rw [← numbered_map, ← leavesOfItems_eq]
  rfl

/-- Maps in the order of their keys and in that of insertion are shown as they are kept. -/
theorem MapKind.shown_eq {α : Type} {kind : MapKind} (h : kind = .sorted ∨ kind = .inserted)
    (entries : List (MapKey × α)) :
    kind.shown entries = entries.map fun entry => (entry.1.render, entry.2) := by
  rcases h with rfl | rfl
  · rfl
  · rfl

theorem leaves_map (schema : Schema) {kind : MapKind} (h : kind = .sorted ∨ kind = .inserted)
    (typeName : Text) (key : KeyType) (element : SlotType) (entries : List (MapKey × Slot)) :
    (Slot.map typeName kind key element entries).leaves schema = leavesOfIndexed
      ((entries.map fun entry => (entry.1.render, entry.2)).map fun entry =>
        (entry.1, entry.2.leaves schema)) := by
  rw [Slot.leaves, MapKind.shown_eq h, leavesOfEntries_eq, List.map_map, List.map_map]
  rfl

/-- Leaves behind indices can be written when the indices and the leaves can. -/
theorem accepted_of_indexed {items : List (Text × List Leaf)} {item : Text × List Leaf}
    {leaf : Leaf}
    (h : ∀ leaf ∈ leavesOfIndexed items, leaf.Accepted) (hitem : item ∈ items)
    (hleaf : leaf ∈ item.2) : checkIndex item.1 = .ok () ∧ leaf.Accepted := by
  have hbehind := h (leaf.behind (.index item.1))
    (List.mem_flatMap.2 ⟨item, hitem, List.mem_map_of_mem hleaf⟩)
  exact ⟨hbehind (.index item.1) List.mem_cons_self,
    fun segment hsegment => hbehind segment (List.mem_cons_of_mem _ hsegment)⟩

variable {schema : Schema} {element : SlotType} {items : List Slot} {fields : Fields} {slot : Slot}

theorem accepted_item (h : ∀ leaf ∈ (Slot.list element items).leaves schema, leaf.Accepted)
    (hitem : slot ∈ items) : ∀ leaf ∈ slot.leaves schema, leaf.Accepted := by
  obtain ⟨first, rest, rfl⟩ := List.exists_cons_of_ne_nil (List.ne_nil_of_mem hitem)
  rw [leaves_list_cons] at h
  obtain ⟨index, hindex⟩ := exists_mem_numbered 0 hitem
  exact fun leaf hleaf => (accepted_of_indexed h (List.mem_map_of_mem hindex) hleaf).2

theorem accepted_entry {kind : MapKind} (hkind : kind = .sorted ∨ kind = .inserted)
    {typeName : Text} {key : KeyType} {entries : List (MapKey × Slot)} {entry : MapKey × Slot}
    {leaf : Leaf}
    (h : ∀ leaf ∈ (Slot.map typeName kind key element entries).leaves schema, leaf.Accepted)
    (hentry : entry ∈ entries) (hleaf : leaf ∈ entry.2.leaves schema) :
    checkIndex entry.1.render = .ok () ∧ leaf.Accepted := by
  rw [leaves_map schema hkind] at h
  exact accepted_of_indexed h (List.mem_map_of_mem (List.mem_map_of_mem hentry)) hleaf

theorem accepted_member {typeName : Text} {member : Member}
    (h : ∀ leaf ∈ (Slot.object typeName fields).leaves schema, leaf.Accepted)
    (hmember : member ∈ (schema.find typeName).members)
    (hread : (member.ignoreGet || !member.readable) = false)
    (hslot : Entries.get? member.field fields = some slot) :
    ∀ leaf ∈ slot.leaves schema, leaf.Accepted := by
  intro leaf hleaf segment hsegment
  have hmem : leaf.behind (.member member.name) ∈ member.leaves (leavesOfFields schema fields) := by
    rw [Member.leaves, hread, leavesOfFields_eq, Entries.get?_map (Slot.leaves schema), hslot,
      if_neg (by simp)]
    exact List.mem_map_of_mem hleaf
  rw [Slot.leaves] at h
  exact h _ (List.mem_flatMap.2 ⟨member, hmember, hmem⟩) segment (List.mem_cons_of_mem _ hsegment)

/-! ## Text of leaves -/

/-- A text is that of some leaves under a key. -/
structure WritesUnder (options : EncodeOptions) (key : WrittenKey) (leaves : List Leaf)
    (text : Text) : Prop where
  accepted : ∀ leaf ∈ leaves, leaf.Accepted
  concat : concatTexts (writeOne options) (leaves.map (Leaf.pair key)) = .ok text

/-- An encoder writes some leaves, under every key that can be written. -/
def Encoder.Writes (options : EncodeOptions) (encode : Encoder) (leaves : List Leaf) : Prop :=
  ∀ key : WrittenKey, key.Accepted → ∀ text, encode key.text = .ok text →
    WritesUnder options key leaves text

variable {options : EncodeOptions} {key : WrittenKey} {leaves more : List Leaf} {text text' : Text}

namespace WritesUnder

theorem nil (options : EncodeOptions) (key : WrittenKey) : WritesUnder options key [] [] :=
  ⟨by simp, rfl⟩

/-- A slot that is a leaf of its own is written as one pair. -/
theorem leaf {value : Text} (h : writePair options key.text value = .ok text) :
    WritesUnder options key [([], value)] text :=
  ⟨by simp [Leaf.Accepted],
    concatTexts_cons_eq_ok.2 ⟨text, [], h, rfl, (List.append_nil text).symm⟩⟩

theorem append (h : WritesUnder options key leaves text)
    (hmore : WritesUnder options key more text') :
    WritesUnder options key (leaves ++ more) (text ++ text') := by
  refine ⟨fun leaf hleaf => ?_, ?_⟩
  · exact (List.mem_append.1 hleaf).elim (h.accepted leaf) (hmore.accepted leaf)
  · rw [List.map_append]
    exact concatTexts_append h.concat hmore.concat

/-- What is written under a key that leads further is written under the key. -/
theorem behind {segment : Segment} (hsegment : segment.Accepted)
    (h : WritesUnder options (key.extend segment) leaves text) :
    WritesUnder options key (leaves.map (Leaf.behind segment)) text := by
  refine ⟨fun leaf hleaf => ?_, ?_⟩
  · obtain ⟨inner, hinner, rfl⟩ := List.mem_map.1 hleaf
    intro other hother
    rcases List.mem_cons.1 hother with rfl | hother
    · exact hsegment
    · exact h.accepted inner hinner other hother
  · rw [List.map_map]
    exact h.concat

end WritesUnder

/-! ## Text of slots -/

theorem indexedKey_eq_ok (h : key ≠ []) {index item : Text} :
    indexedKey key.text index = .ok item ↔
      checkIndex index = .ok () ∧ item = (key.extend (.index index)).text := by
  rw [indexedKey, bind_eq_ok, WrittenKey.extend, WrittenKey.text_addIndex h,
    WrittenPart.bracketed, ← List.append_assoc]
  constructor
  · rintro ⟨_, hcheck, h⟩
    exact ⟨hcheck, (Except.ok.inj h).symm⟩
  · rintro ⟨hcheck, rfl⟩
    exact ⟨(), hcheck, rfl⟩

/-- What the encoders of items write, their list or map writes behind the indices of the items. -/
theorem writes_items {items : List (Text × Slot)}
    (h : ∀ item ∈ items,
      Encoder.Writes options (item.2.encode schema options) (item.2.leaves schema)) :
    Encoder.Writes options
      (fun key => encodeItems key (items.map fun item => (item.1, item.2.encode schema options)))
      (leavesOfIndexed (items.map fun item => (item.1, item.2.leaves schema))) := by
  intro key hkey text htext
  induction items generalizing text with
  | nil =>
    obtain rfl := Except.ok.inj htext
    exact .nil options key
  | cons item items ih =>
    obtain ⟨own, rest, hown, hrest, rfl⟩ := concatTexts_cons_eq_ok.1 htext
    have hmore := ih (fun other hother => h other (by simp [hother])) rest hrest
    obtain ⟨itemKey, hindexed, hown⟩ := bind_eq_ok.1 hown
    obtain ⟨hindex, rfl⟩ := (indexedKey_eq_ok hkey.ne_nil).1 hindexed
    have hsegment : (Segment.index item.1).Accepted := hindex
    have hitem := h item (by simp) _ (hkey.extend hsegment) own hown
    exact (hitem.behind hsegment).append hmore

/-- What the encoders of fields write, their object writes behind the names of its members. -/
theorem writes_members (hkey : key = [] ∨ key.Accepted)
    (h : ∀ field slot, Entries.get? field fields = some slot →
      Encoder.Writes options (slot.encode schema options) (slot.leaves schema))
    {members : List Member}
    (htext : concatTexts (encodeMember (encodersOfFields schema options fields) key.text) members =
      .ok text) :
    WritesUnder options key (members.flatMap (Member.leaves (leavesOfFields schema fields)))
      text := by
  rw [encodersOfFields_eq] at htext
  rw [leavesOfFields_eq]
  induction members generalizing text with
  | nil =>
    obtain rfl := Except.ok.inj htext
    exact .nil options key
  | cons member members ih =>
    obtain ⟨own, rest, hown, hrest, rfl⟩ := concatTexts_cons_eq_ok.1 htext
    refine WritesUnder.append ?_ (ih hrest)
    rw [encodeMember, Entries.get?_map (Slot.encode schema options)] at hown
    rw [Member.leaves, Entries.get?_map (Slot.leaves schema)]
    split at hown
    · next hignored =>
      obtain rfl := Except.ok.inj hown
      rw [if_pos hignored]
      exact .nil options key
    · next hignored =>
      rw [if_neg hignored]
      cases hslot : Entries.get? member.field fields with
      | none =>
        rw [hslot] at hown
        obtain rfl := Except.ok.inj hown
        exact .nil options key
      | some slot =>
        rw [hslot] at hown
        obtain ⟨_, hname, hown⟩ := bind_eq_ok.1 hown
        rw [← WrittenKey.text_extend_member hkey] at hown
        have hsegment : (Segment.member member.name).Accepted := hname
        -- the members of the object that is written have no key in front of them
        have haccepted : (key.extend (.member member.name)).Accepted := by
          rcases hkey with rfl | hkey
          · exact WrittenKey.accepted_name hname
          · exact hkey.extend hsegment
        exact (h member.field slot hslot _ haccepted own hown).behind hsegment

/-- What the encoders of its fields write, an object without an indexer writes. -/
theorem writes_object {typeName : Text} (hkey : key = [] ∨ key.Accepted)
    (hindexer : (schema.find typeName).indexer = none)
    (h : ∀ field slot, Entries.get? field fields = some slot →
      Encoder.Writes options (slot.encode schema options) (slot.leaves schema))
    (htext : (Slot.object typeName fields).encode schema options key.text = .ok text) :
    WritesUnder options key ((Slot.object typeName fields).leaves schema) text := by
  have hlisted : encodersOfIndexer schema options none fields = [] :=
    encodersOfIndexer_eq_nil nofun
  simp only [Slot.encode, encodeObject, hindexer, hlisted] at htext
  obtain ⟨members, hmembers, htext⟩ := bind_eq_ok.1 htext
  obtain rfl : members = text := by
    split at htext
    · exact Except.ok.inj htext
    · obtain ⟨entries, hentries, htext⟩ := bind_eq_ok.1 htext
      obtain rfl : [] = entries := Except.ok.inj hentries
      simpa using htext
  rw [Slot.leaves]
  exact writes_members hkey h hmembers

end KeyedText
