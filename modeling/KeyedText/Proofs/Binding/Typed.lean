import KeyedText.Proofs.Encoding.Pairs
import KeyedText.Proofs.RoundTrip.Types
import Mathlib.Data.List.Nodup

/-!
# Slots of static types

A type is static when no text can change what its slots are made of: scalars, optional values,
boxes, lists, maps, and objects whose members are of such types and have no converter. A slot is
typed when all that it holds is of the types that are due there. Whatever text a typed slot takes,
and whatever comes into being in it, it stays typed.

New objects of static types are hollow: they hold scalars and nothing else. Which object types are
static is said by a classification that keeps to the rules, so that a type may hold a list of its
own objects.

## Main definitions

- `SlotType.Static`, `ObjectType.Static`, `Schema.Static` — the rules for types
- `Slot.Typed` — a slot of a static type
- `Slot.Hollow` — a slot that holds nothing but scalars
- `TypeRegistry.Typed` — a registry that gives out typed objects

## Main statements

- `Slot.typed_initial` — new slots are typed
- `Slot.Typed.position`, `Slot.Typed.key`, `Slot.Typed.field` — replacing an item of a typed slot
- `Slot.Typed.clear`, `SlotType.typed_of_read` — what a value leaves is typed
-/

namespace KeyedText

variable {schema : Schema} {known : Text → Prop}

/-! ## Entries of maps -/

namespace MapKind

variable {α β : Type} {kind : MapKind} {key : MapKey} {value : α} {entries : List (MapKey × α)}

/-- No two entries have the same key. -/
def Distinct (entries : List (MapKey × α)) : Prop :=
  (entries.map fun entry => entry.1.rank).Nodup

theorem get?_eq_none_iff :
    get? key entries = none ↔ key.rank ∉ entries.map fun entry => entry.1.rank := by
  rw [get?, Option.map_eq_none_iff, List.find?_eq_none]
  simp only [MapKey.same_iff, List.mem_map, not_exists, not_and]

theorem get?_of_same {other : MapKey} (h : other.same key = true) :
    get? other entries = get? key entries := by
  simp only [get?, MapKey.same_congr h]

theorem get?_put_eq (kind : MapKind) (key other : MapKey) (value : α)
    (entries : List (MapKey × α)) :
    get? other (kind.put key value entries) =
      if other.same key then some value else get? other entries := by
  obtain ⟨hnow, hothers⟩ := get?_put kind key value entries
  by_cases hsame : other.same key = true
  · rw [if_pos hsame, get?_of_same hsame, hnow]
  · rw [if_neg hsame, hothers other (by simpa using hsame)]

theorem insert_split (kind : MapKind) (key : MapKey) (value : α) (entries : List (MapKey × α)) :
    ∃ front back, entries = front ++ back ∧
      kind.insert key value entries = front ++ (key, value) :: back := by
  induction entries with
  | nil => exact ⟨[], [], rfl, rfl⟩
  | cons entry rest ih =>
    rw [insert]
    split
    · exact ⟨[], entry :: rest, rfl, rfl⟩
    · obtain ⟨front, back, hrest, hinsert⟩ := ih
      exact ⟨entry :: front, back, congrArg (entry :: ·) hrest, congrArg (entry :: ·) hinsert⟩

theorem keys_updateExisting? {step : α → α × β} {result : List (MapKey × α) × β}
    (h : updateExisting? key step entries = some result) :
    result.1.map Prod.fst = entries.map Prod.fst := by
  induction entries generalizing result with
  | nil => exact absurd h (by simp [updateExisting?])
  | cons entry rest ih =>
    rw [updateExisting?] at h
    split at h
    · obtain rfl := Option.some.inj h
      rfl
    · obtain ⟨inner, hinner, rfl⟩ := Option.map_eq_some_iff.1 h
      show entry.1 :: inner.1.map Prod.fst = _
      rw [ih hinner, List.map_cons]

/-- A key that is there keeps its place, and a new one is added at some place. -/
theorem keys_put (kind : MapKind) (key : MapKey) (value : α) (entries : List (MapKey × α)) :
    (kind.put key value entries).map Prod.fst = entries.map Prod.fst ∨
      get? key entries = none ∧ ∃ front back, entries.map Prod.fst = front ++ back ∧
        (kind.put key value entries).map Prod.fst = front ++ key :: back := by
  rw [put, upsert]
  cases hupdate : updateExisting? key (fun _ => (value, ())) entries with
  | some result => exact .inl (keys_updateExisting? hupdate)
  | none =>
    right
    rcases updateExisting?_eq key (fun _ => (value, ())) entries with
      ⟨-, hget⟩ | ⟨_, _, -, hsome, -⟩
    · obtain ⟨front, back, rfl, hinsert⟩ := insert_split kind key value entries
      refine ⟨hget, front.map Prod.fst, back.map Prod.fst, List.map_append, ?_⟩
      show (kind.insert key value (front ++ back)).map Prod.fst = _
      rw [hinsert, List.map_append, List.map_cons]
    · exact absurd hsome (by simp [hupdate])

theorem Distinct.put (h : Distinct entries) (kind : MapKind) (key : MapKey) (value : α) :
    Distinct (kind.put key value entries) := by
  have hranks : ∀ others : List (MapKey × α), others.map (fun entry => entry.1.rank) =
      (others.map Prod.fst).map MapKey.rank := by
    intro others
    rw [List.map_map]
    rfl
  rw [Distinct, hranks] at h ⊢
  rcases keys_put kind key value entries with hkeys | ⟨hget, front, back, hkeys, hput⟩
  · rwa [hkeys]
  · rw [get?_eq_none_iff, hranks, hkeys, List.map_append] at hget
    rw [hkeys, List.map_append] at h
    rw [hput, List.map_append, List.map_cons]
    exact (List.perm_middle.nodup_iff).2 (List.nodup_cons.2 ⟨hget, h⟩)

theorem sublist_put {keys : List MapKey} (h : keys.Sublist (entries.map Prod.fst))
    (kind : MapKind) (key : MapKey) (value : α) :
    keys.Sublist ((kind.put key value entries).map Prod.fst) := by
  rcases keys_put kind key value entries with hkeys | ⟨-, front, back, hkeys, hput⟩
  · rwa [hkeys]
  · rw [hput]
    rw [hkeys] at h
    exact h.trans (List.Sublist.append_left (List.sublist_cons_self key back) front)

theorem eq_of_get? {entries entries' : List (MapKey × α)}
    (hkeys : entries'.map Prod.fst = entries.map Prod.fst) (hdistinct : Distinct entries)
    (h : ∀ key value, get? key entries = some value → get? key entries' = some value) :
    entries' = entries := by
  induction entries generalizing entries' with
  | nil => exact List.map_eq_nil_iff.1 hkeys
  | cons entry entries ih =>
    obtain ⟨entry', rest, rfl, hkey, hrest⟩ := List.map_eq_cons_iff.1 hkeys
    obtain ⟨hnot, hdistinct⟩ := List.nodup_cons.1 hdistinct
    have hself : entry.1.same entry.1 = true := MapKey.same_iff.2 rfl
    have hfirst := h entry.1 entry.2 (by rw [get?_cons, if_pos hself])
    rw [get?_cons, hkey, if_pos hself] at hfirst
    have hentry : entry' = entry := Prod.ext hkey (Option.some.inj hfirst)
    refine congrArg₂ List.cons hentry (ih hrest hdistinct fun key value hvalue => ?_)
    have hne : ¬entry.1.same key = true := by
      intro hsame
      rw [MapKey.same_iff] at hsame
      have hnone : get? key entries = none := get?_eq_none_iff.2 (hsame ▸ hnot)
      exact absurd hvalue (by simp [hnone])
    have hlater := h key value (by rw [get?_cons, if_neg hne, hvalue])
    rwa [get?_cons, hentry, if_neg hne] at hlater

end MapKind

/-! ## Static types -/

/-- Types of slots that are made of the same things whatever is written to them, given the object
types that are. -/
def SlotType.Static (known : Text → Prop) : SlotType → Prop
  | .scalar _ => True
  | .option content => content.Static known
  | .boxed content => content.Static known
  | .list element => element.Static known
  | .map _ _ _ element => element.Static known
  | .object typeName => known typeName
  | .reference => False
  | .dynamic => False

/-- A slot of a static type that holds nothing but scalars. -/
inductive Slot.Hollow (schema : Schema) (known : Text → Prop) : SlotType → Slot → Prop
  | scalar (value : Scalar) : Hollow schema known (.scalar value.type) (.scalar value)
  | vacant {content : SlotType} (static : content.Static known) :
      Hollow schema known (.option content) (.vacant content)
  | boxed {content : SlotType} {slot : Slot} (hollow : Hollow schema known content slot) :
      Hollow schema known (.boxed content) (.boxed slot)
  | list {element : SlotType} (static : element.Static known) :
      Hollow schema known (.list element) (.list element [])
  | map {typeName : Text} {kind : MapKind} {key : KeyType} {element : SlotType}
      (static : element.Static known) :
      Hollow schema known (.map typeName kind key element) (.map typeName kind key element [])
  | object {typeName : Text} {fields : Fields} (isKnown : known typeName)
      (names : fields.map Prod.fst = (schema.find typeName).initial.map Prod.fst)
      (hollow : ∀ field fresh slot,
        Entries.get? field (schema.find typeName).initial = some fresh →
          Entries.get? field fields = some slot → Hollow schema known fresh.type slot) :
      Hollow schema known (.object typeName) (.object typeName fields)

/-- Object types whose objects are made of the same things whatever is written to them: the fields
differ in their names, they are hollow in a new object, and no member has a converter. Members may
have any names and aliases, and may ignore writes. An index on an object may go to any field. -/
structure ObjectType.Static (schema : Schema) (known : Text → Prop) (type : ObjectType) : Prop where
  fieldNames : (type.initial.map Prod.fst).Nodup
  hollow : ∀ field slot, Entries.get? field type.initial = some slot →
    slot.Hollow schema known slot.type
  noConverter : ∀ member ∈ type.members, member.converter = none

/-- A classification of the object types that keeps to the rules. -/
def Schema.Static (schema : Schema) (known : Text → Prop) : Prop :=
  ∀ typeName, known typeName → (schema.find typeName).Static schema known

/-- A slot of a static type: whatever it holds is of the types that are due there, no key of a map
occurs twice, and objects have the fields of new objects. -/
inductive Slot.Typed (schema : Schema) (known : Text → Prop) : SlotType → Slot → Prop
  | scalar (value : Scalar) : Typed schema known (.scalar value.type) (.scalar value)
  | vacant {content : SlotType} (static : content.Static known) :
      Typed schema known (.option content) (.vacant content)
  | filled {content : SlotType} {slot : Slot} (typed : Typed schema known content slot) :
      Typed schema known (.option content) (.filled slot)
  | boxed {content : SlotType} {slot : Slot} (typed : Typed schema known content slot) :
      Typed schema known (.boxed content) (.boxed slot)
  | list {element : SlotType} {items : List Slot} (static : element.Static known)
      (typed : ∀ item ∈ items, Typed schema known element item) :
      Typed schema known (.list element) (.list element items)
  | map {typeName : Text} {kind : MapKind} {key : KeyType} {element : SlotType}
      {entries : List (MapKey × Slot)} (static : element.Static known)
      (distinct : MapKind.Distinct entries)
      (typed : ∀ key slot, MapKind.get? key entries = some slot →
        Typed schema known element slot) :
      Typed schema known (.map typeName kind key element) (.map typeName kind key element entries)
  | object {typeName : Text} {fields : Fields} (isKnown : known typeName)
      (names : fields.map Prod.fst = (schema.find typeName).initial.map Prod.fst)
      (typed : ∀ field fresh slot,
        Entries.get? field (schema.find typeName).initial = some fresh →
          Entries.get? field fields = some slot → Typed schema known fresh.type slot) :
      Typed schema known (.object typeName) (.object typeName fields)

/-- A registry whose objects of known types are typed. -/
def TypeRegistry.Typed (schema : Schema) (known : Text → Prop) (types : TypeRegistry) : Prop :=
  ∀ name object, types.create? name = some object → known object.typeName →
    object.toSlot.Typed schema known (.object object.typeName)

/-! ## New slots -/

namespace Slot

variable {type element : SlotType} {slot : Slot}

theorem Hollow.typed (h : slot.Hollow schema known type) : slot.Typed schema known type := by
  induction h with
  | scalar value => exact .scalar value
  | vacant static => exact .vacant static
  | boxed _ ih => exact .boxed ih
  | list static => exact .list static (by simp)
  | map static => exact .map static List.nodup_nil (by simp [MapKind.get?])
  | object isKnown names _ ih => exact .object isKnown names ih

theorem hollow_initial (hschema : schema.Static known) (h : type.Static known) :
    (schema.initial type).Hollow schema known type := by
  induction type with
  | scalar type =>
    have hscalar : Hollow schema known (.scalar type.initial.type) (.scalar type.initial) :=
      .scalar type.initial
    rwa [ScalarType.type_initial] at hscalar
  | option content => exact .vacant h
  | boxed content ih => exact .boxed (ih h)
  | list element => exact .list h
  | map typeName kind key element => exact .map h
  | object typeName =>
    refine .object h rfl fun field fresh slot hfresh hslot => ?_
    obtain rfl : fresh = slot := Option.some.inj (hfresh.symm.trans hslot)
    exact (hschema typeName h).hollow field fresh hfresh
  | reference | dynamic => exact absurd h id

theorem typed_initial (hschema : schema.Static known) (h : type.Static known) :
    (schema.initial type).Typed schema known type :=
  (hollow_initial hschema h).typed

/-! ## Typed slots -/

theorem Typed.type_eq (h : slot.Typed schema known type) : slot.type = type := by
  induction h with
  | filled _ ih | boxed _ ih => rw [Slot.type, ih]
  | _ => rfl

theorem Typed.static (h : slot.Typed schema known type) : type.Static known := by
  induction h with
  | scalar value => trivial
  | vacant static | list static | map static => exact static
  | filled _ ih | boxed _ ih => exact ih
  | object isKnown => exact isKnown

/-- Going on at a position of a list, the other items are kept or new. -/
theorem Typed.position {items padded : List Slot} {n : Nat} (hschema : schema.Static known)
    (h : (Slot.list element items).Typed schema known (.list element))
    (hroom : padded? (schema.initial element) items n = some padded)
    (hslot : slot.Typed schema known element) :
    (Slot.list element (padded.set n slot)).Typed schema known (.list element) := by
  cases h with
  | list static typed =>
    refine .list static fun item hitem => ?_
    rcases List.mem_or_eq_of_mem_set hitem with hpadded | rfl
    · obtain ⟨position, hposition⟩ := List.getElem?_of_mem hpadded
      rcases (padded?_eq_some hroom).2 position with hold | ⟨-, hnew | hnone⟩
      · rw [hold] at hposition
        exact typed item (List.mem_of_getElem? hposition)
      · rw [hnew] at hposition
        obtain rfl := Option.some.inj hposition
        exact typed_initial hschema static
      · exact absurd hposition (by simp [hnone])
    · exact hslot

theorem Typed.key {typeName : Text} {kind : MapKind} {keyType : KeyType}
    {entries : List (MapKey × Slot)}
    (h : (Slot.map typeName kind keyType element entries).Typed schema known
      (.map typeName kind keyType element))
    (hslot : slot.Typed schema known element) (key : MapKey) :
    (Slot.map typeName kind keyType element (kind.put key slot entries)).Typed schema known
      (.map typeName kind keyType element) := by
  cases h with
  | map static distinct typed =>
    refine .map static (distinct.put kind key slot) fun other value hvalue => ?_
    rw [MapKind.get?_put_eq] at hvalue
    split at hvalue
    · rwa [← Option.some.inj hvalue]
    · exact typed other value hvalue

theorem Typed.field {typeName field : Text} {fields : Fields} {old fresh : Slot}
    (h : (Slot.object typeName fields).Typed schema known (.object typeName))
    (hold : Entries.get? field fields = some old)
    (hfresh : Entries.get? field (schema.find typeName).initial = some fresh)
    (hslot : slot.Typed schema known fresh.type) :
    (Slot.object typeName (Fields.put field slot fields)).Typed schema known
      (.object typeName) := by
  cases h with
  | object isKnown names typed =>
    refine .object isKnown (Fields.names_put.trans names) fun other fresh' value hother hvalue => ?_
    by_cases hsame : other = field
    · subst hsame
      rw [Fields.get?_put_self hold] at hvalue
      rw [hfresh] at hother
      rwa [← Option.some.inj hvalue, ← Option.some.inj hother]
    · rw [Fields.get?_put_of_ne hsame] at hvalue
      exact typed other fresh' value hother hvalue

/-! ## Values -/

theorem clear_filled (content : Slot) : (filled content).clear = .vacant content.type := rfl

theorem Typed.clear (h : slot.Typed schema known type) : slot.clear.Typed schema known type := by
  induction h with
  | filled typed =>
    rw [clear_filled, typed.type_eq]
    exact .vacant typed.static
  | boxed _ ih => exact .boxed ih
  | @map typeName kind key element entries static distinct typed =>
    cases kind with
    | gated closed => exact .map static List.nodup_nil (by simp [MapKind.get?])
    | _ => exact .map static distinct typed
  | scalar value => exact .scalar value
  | vacant static => exact .vacant static
  | list static typed => exact .list static typed
  | object isKnown names typed => exact .object isKnown names typed

end Slot

theorem ScalarType.type_of_read {type : ScalarType} {raw : Text} {value : Scalar}
    (h : type.read raw = .ok value) : value.type = type := by
  cases type with
  | text kind =>
    obtain rfl := Except.ok.inj h
    rfl
  | _ =>
    obtain ⟨_, _, rfl⟩ := map_eq_ok.1 h
    rfl

theorem exists_read_of_mem {read : Text → Except Cause Slot} {pieces : List Text}
    {items : List Slot} (h : readAll read pieces = .ok items) {item : Slot} (hitem : item ∈ items) :
    ∃ piece, read piece = .ok item := by
  induction pieces generalizing items with
  | nil =>
    obtain rfl := Except.ok.inj h
    exact absurd hitem (by simp)
  | cons piece pieces ih =>
    obtain ⟨first, hfirst, h⟩ := bind_eq_ok.1 h
    obtain ⟨rest, hrest, h⟩ := bind_eq_ok.1 h
    obtain rfl := Except.ok.inj h
    rcases List.mem_cons.1 hitem with rfl | hlater
    · exact ⟨piece, hfirst⟩
    · exact ih hrest hlater

/-- What a text stands for is typed. -/
theorem SlotType.typed_of_read {type : SlotType} {site : Site} {raw : Text} {slot : Slot}
    (hregistry : site.types.Typed schema known) (hstatic : type.Static known)
    (h : type.read site raw = .ok slot) : slot.Typed schema known type := by
  induction type generalizing raw slot with
  | scalar type =>
    obtain ⟨value, hvalue, rfl⟩ := map_eq_ok.1 h
    have hscalar : Slot.Typed schema known (.scalar value.type) (.scalar value) := .scalar value
    rwa [ScalarType.type_of_read hvalue] at hscalar
  | option content ih =>
    obtain ⟨inner, hinner, rfl⟩ := map_eq_ok.1 h
    exact .filled (ih hstatic hinner)
  | boxed content ih =>
    obtain ⟨inner, hinner, rfl⟩ := map_eq_ok.1 h
    exact .boxed (ih hstatic hinner)
  | list element ih =>
    rw [read] at h
    split at h
    · obtain rfl := Except.ok.inj h
      exact .list hstatic (by simp)
    · obtain ⟨items, hitems, rfl⟩ := map_eq_ok.1 h
      refine .list hstatic fun item hitem => ?_
      obtain ⟨piece, hpiece⟩ := exists_read_of_mem hitems hitem
      exact ih hstatic hpiece
  | map typeName kind key element => exact absurd h (by simp [read])
  | object typeName =>
    rw [read] at h
    split at h
    · exact absurd h (by simp)
    · next made hmade =>
      split at h
      · next hname =>
        obtain rfl := Except.ok.inj h
        rw [← hname]
        exact hregistry raw made hmade (hname ▸ hstatic)
      · exact absurd h (by simp)
  | reference | dynamic => exact absurd hstatic id

end KeyedText
