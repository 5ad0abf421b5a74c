import KeyedText.Proofs.Encoding.Leaves
import Mathlib.Data.List.Nodup

/-!
# Hashed maps in text

Entries of hashed maps are written in the order of the texts of their keys, so it does not matter in
which order the map hands them out. That is so as long as the texts tell the keys apart: entries
whose keys have one text are written in the order in which they are handed out.

## Main definitions

- `Slot.KeysApart` — a slot in whose hashed maps no two keys have one text
- `Slot.WrittenAs` — a slot that is written as another one

## Main statements

- `Slot.induction` — induction on a slot with all that it holds
- `MapKind.shown_handOut` — entries with keys that are told apart are shown in one order
- `Slot.KeysApart.writtenAs_arrange` — the order of hashed maps does not matter to the text
-/

namespace KeyedText

variable {α β : Type} {schema : Schema} {options : EncodeOptions} {fields : Fields}

/-! ## Slots by their contents -/

/-- Induction on a slot, with the statement for all that it holds. -/
theorem Slot.induction {motive : Slot → Prop} (scalar : ∀ value, motive (.scalar value))
    (vacant : ∀ content, motive (.vacant content))
    (filled : ∀ content, motive content → motive (.filled content))
    (boxed : ∀ content, motive content → motive (.boxed content))
    (list : ∀ element items, (∀ item ∈ items, motive item) → motive (.list element items))
    (map : ∀ typeName kind key element entries, (∀ entry ∈ entries, motive entry.2) →
      motive (.map typeName kind key element entries))
    (object : ∀ typeName fields, (∀ entry ∈ fields, motive entry.2) →
      motive (.object typeName fields))
    (reference : ∀ name, motive (.reference name)) (unset : motive .unset)
    (dynamic : ∀ name typeName fields, (∀ entry ∈ fields, motive entry.2) →
      motive (.dynamic name typeName fields)) (slot : Slot) : motive slot :=
  @Slot.rec motive (fun items => ∀ item ∈ items, motive item)
    (fun entries => ∀ entry ∈ entries, motive entry.2)
    (fun fields => ∀ entry ∈ fields, motive entry.2) (fun entry => motive entry.2)
    (fun entry => motive entry.2) scalar vacant filled boxed list map object reference unset dynamic
    nofun (fun _ _ head tail => List.forall_mem_cons.2 ⟨head, tail⟩)
    nofun (fun _ _ head tail => List.forall_mem_cons.2 ⟨head, tail⟩)
    nofun (fun _ _ head tail => List.forall_mem_cons.2 ⟨head, tail⟩)
    (fun _ _ h => h) (fun _ _ h => h) slot

theorem arrangeEntries_eq (order : HashOrder) (entries : List (MapKey × Slot)) :
    arrangeEntries order entries =
      entries.map fun entry => (entry.1, entry.2.arrange (order.behind (.key entry.1))) := by
  induction entries with
  | nil => rfl
  | cons entry entries ih => rw [arrangeEntries, ih, List.map_cons]

theorem arrangeFields_eq (order : HashOrder) (fields : Fields) :
    arrangeFields order fields =
      fields.map fun entry => (entry.1, entry.2.arrange (order.behind (.field entry.1))) := by
  induction fields with
  | nil => rfl
  | cons entry fields ih => rw [arrangeFields, ih, List.map_cons]

/-! ## Entries in order -/

namespace MapKind

variable {kind : MapKind} {entries : List (MapKey × α)}

theorem handOut_perm (kind : MapKind) (rank : MapKey → Nat) (entries : List (MapKey × α)) :
    (kind.handOut rank entries).Perm entries := by
  cases kind with
  | hashed => exact List.mergeSort_perm entries _
  | _ => exact .refl entries

/-- The values of entries make no difference to their order. -/
theorem handOut_map (kind : MapKind) (rank : MapKey → Nat) (f : MapKey → α → β)
    (entries : List (MapKey × α)) :
    kind.handOut rank (entries.map fun entry => (entry.1, f entry.1 entry.2)) =
      (kind.handOut rank entries).map fun entry => (entry.1, f entry.1 entry.2) := by
  cases kind with
  | hashed =>
    rw [handOut, handOut]
    exact Eq.symm (List.map_mergeSort (by simp))
  | _ => rfl

/-- Entries whose keys have different texts are shown in one order, however they are handed out. -/
theorem shown_handOut (rank : MapKey → Nat)
    (h : kind = .hashed → (entries.map fun entry => entry.1.render).Nodup) :
    kind.shown (kind.handOut rank entries) = kind.shown entries := by
  cases kind with
  | hashed =>
    let rendered := fun entry : MapKey × α => (entry.1.render, entry.2)
    let before := fun left right : Text × α => !decide (right.1 < left.1)
    have hsorted : ∀ items : List (Text × α),
        (items.mergeSort before).Pairwise fun left right => before left right = true := by
      refine List.pairwise_mergeSort (fun left middle right h h' => ?_) fun left right => ?_
      · simp only [before, Bool.not_eq_true', decide_eq_false_iff_not, List.not_lt] at h h' ⊢
        exact List.le_trans h h'
      · simp only [before, Bool.or_eq_true, Bool.not_eq_true', decide_eq_false_iff_not, List.not_lt]
        exact List.le_total left.1 right.1
    have hperm : ((hashed.handOut rank entries).map rendered).Perm (entries.map rendered) :=
      (handOut_perm hashed rank entries).map rendered
    have hnodup : ((entries.map rendered).map Prod.fst).Nodup := by
      rw [List.map_map]
      exact h rfl
    refine List.Perm.eq_of_pairwise ?_ (hsorted _) (hsorted _)
      ((List.mergeSort_perm _ _).trans (hperm.trans (List.mergeSort_perm _ _).symm))
    intro left right hleft hright hle hge
    have hmem : left ∈ entries.map rendered := hperm.mem_iff.1 (List.mem_mergeSort.1 hleft)
    have hmem' : right ∈ entries.map rendered := List.mem_mergeSort.1 hright
    simp only [before, Bool.not_eq_true', decide_eq_false_iff_not, List.not_lt] at hle hge
    exact List.inj_on_of_nodup_map hnodup hmem hmem' (List.le_antisymm hle hge)
  | _ => rfl

/-- Entries of a hashed map whose texts are in order are shown as they are. -/
theorem shown_of_ordered
    (h : entries.Pairwise fun left right => ¬right.1.render < left.1.render) :
    hashed.shown entries = sorted.shown entries := by
  refine List.mergeSort_of_pairwise (List.pairwise_map.2 (h.imp fun hle => ?_))
  simpa using hle

theorem handOut_pair (rank : MapKey → Nat) (left right : MapKey × α) :
    hashed.handOut rank [left, right] =
      if rank left.1 ≤ rank right.1 then [left, right] else [right, left] := by
  simp [handOut, List.mergeSort, List.MergeSort.Internal.splitInTwo, List.merge]

end MapKind

/-! ## Text -/

/-- A hashed map whose texts are in order is written like a sorted one. -/
theorem Slot.encode_of_ordered {entries : List (MapKey × Slot)} (typeName : Text) (key : KeyType)
    (element : SlotType) (h : entries.Pairwise fun left right => ¬right.1.render < left.1.render) :
    (Slot.map typeName .hashed key element entries).encode schema options =
      (Slot.map typeName .sorted key element entries).encode schema options := by
  rw [encode, encode, MapKind.shown_of_ordered]
  rw [encodersOfEntries_eq]
  exact List.pairwise_map.2 h

/-- No two keys of a hashed map in a slot have one text. -/
inductive Slot.KeysApart : Slot → Prop
  | scalar (value : Scalar) : KeysApart (.scalar value)
  | vacant (content : SlotType) : KeysApart (.vacant content)
  | filled {content : Slot} (apart : KeysApart content) : KeysApart (.filled content)
  | boxed {content : Slot} (apart : KeysApart content) : KeysApart (.boxed content)
  | list {element : SlotType} {items : List Slot} (apart : ∀ item ∈ items, KeysApart item) :
      KeysApart (.list element items)
  | map {typeName : Text} {kind : MapKind} {key : KeyType} {element : SlotType}
      {entries : List (MapKey × Slot)}
      (texts : kind = .hashed → (entries.map fun entry => entry.1.render).Nodup)
      (apart : ∀ entry ∈ entries, KeysApart entry.2) :
      KeysApart (.map typeName kind key element entries)
  | object {typeName : Text} {fields : Fields} (apart : ∀ entry ∈ fields, KeysApart entry.2) :
      KeysApart (.object typeName fields)
  | reference (name : Text) : KeysApart (.reference name)
  | unset : KeysApart .unset
  | dynamic {name typeName : Text} {fields : Fields}
      (apart : ∀ entry ∈ fields, KeysApart entry.2) : KeysApart (.dynamic name typeName fields)

/-- What stands for a slot is written as it is, and so are its entries if it is a map. -/
structure Slot.WrittenAs (schema : Schema) (options : EncodeOptions) (slot other : Slot) :
    Prop where
  encode_eq : slot.encode schema options = other.encode schema options
  entries_eq : entryEncoders schema options slot = entryEncoders schema options other

theorem encodersOfItems_arrange {items : List Slot}
    (h : ∀ item ∈ items, ∀ order, (item.arrange order).WrittenAs schema options item)
    (order : HashOrder) (position : Nat) :
    encodersOfItems schema options (arrangeItems order position items) =
      encodersOfItems schema options items := by
  induction items generalizing position with
  | nil => rfl
  | cons item items ih =>
    rw [List.forall_mem_cons] at h
    rw [arrangeItems, encodersOfItems, encodersOfItems, (h.1 _).encode_eq, ih h.2]

/-- Entries with keys that are told apart are written in one order. -/
theorem shown_arrange {kind : MapKind} {entries : List (MapKey × Slot)}
    (h : ∀ entry ∈ entries, ∀ order, (entry.2.arrange order).WrittenAs schema options entry.2)
    (texts : kind = .hashed → (entries.map fun entry => entry.1.render).Nodup)
    (order : HashOrder) :
    kind.shown (encodersOfEntries schema options
        (kind.handOut (order []) (arrangeEntries order entries))) =
      kind.shown (encodersOfEntries schema options entries) := by
  have hencoders : encodersOfEntries schema options (arrangeEntries order entries) =
      encodersOfEntries schema options entries := by
    rw [arrangeEntries_eq, encodersOfEntries_eq, encodersOfEntries_eq, List.map_map]
    exact List.map_congr_left fun entry hentry =>
      congrArg (Prod.mk entry.1) (h entry hentry _).encode_eq
  rw [encodersOfEntries_eq, ← MapKind.handOut_map kind (order [])
    (fun _ => Slot.encode schema options), ← encodersOfEntries_eq, hencoders,
    MapKind.shown_handOut]
  intro hkind
  rw [encodersOfEntries_eq, List.map_map]
  exact texts hkind

theorem encodersOfFields_arrange
    (h : ∀ entry ∈ fields, ∀ order, (entry.2.arrange order).WrittenAs schema options entry.2)
    (order : HashOrder) :
    encodersOfFields schema options (arrangeFields order fields) =
      encodersOfFields schema options fields := by
  rw [arrangeFields_eq, encodersOfFields_eq, encodersOfFields_eq, List.map_map]
  exact List.map_congr_left fun entry hentry =>
    congrArg (Prod.mk entry.1) (h entry hentry _).encode_eq

theorem encodersOfIndexer_arrange (indexer : Option Indexer)
    (h : ∀ entry ∈ fields, ∀ order, (entry.2.arrange order).WrittenAs schema options entry.2)
    (order : HashOrder) :
    encodersOfIndexer schema options indexer (arrangeFields order fields) =
      encodersOfIndexer schema options indexer fields := by
  induction fields with
  | nil => rfl
  | cons entry fields ih =>
    rw [List.forall_mem_cons] at h
    rcases indexer with _ | ⟨held, closed, _ | _⟩
    · rfl
    · rfl
    · rw [arrangeFields, encodersOfIndexer, encodersOfIndexer, (h.1 _).entries_eq, ih h.2]

/-- Hashed maps whose keys are told apart are written alike in every order. -/
theorem Slot.KeysApart.writtenAs_arrange {slot : Slot} (h : slot.KeysApart) (order : HashOrder) :
    (slot.arrange order).WrittenAs schema options slot := by
  induction h generalizing order with
  | scalar | vacant | reference | unset => exact ⟨rfl, rfl⟩
  | filled _ ih => exact ⟨(ih _).encode_eq, rfl⟩
  | boxed _ ih => exact ⟨(ih _).encode_eq, rfl⟩
  | @list element items _ ih =>
    refine ⟨?_, rfl⟩
    have hempty : (arrangeItems order 0 items).isEmpty = items.isEmpty := by
      cases items <;> rfl
    rw [arrange, encode, encode, encodersOfItems_arrange ih, hempty]
  | map texts _ ih =>
    constructor
    · rw [arrange, encode, encode, shown_arrange ih texts]
    · rw [arrange, entryEncoders, entryEncoders, shown_arrange ih texts]
  | object _ ih =>
    refine ⟨?_, rfl⟩
    simp only [arrange, encode, encodersOfFields_arrange ih, encodersOfIndexer_arrange _ ih]
  | dynamic _ ih =>
    refine ⟨?_, rfl⟩
    simp only [arrange, encode, encodersOfFields_arrange ih, encodersOfIndexer_arrange _ ih]

/-- An object with hashed maps whose keys are told apart is written alike in every order. -/
theorem Object.encode_of_keysApart {object : Object} (h : object.toSlot.KeysApart)
    (options : EncodeOptions) (order : HashOrder) :
    object.encode schema options order = object.toSlot.encode schema options [] :=
  congrFun (h.writtenAs_arrange order).encode_eq []

end KeyedText
