import KeyedText.Proofs.Binding.Location
import KeyedText.Proofs.Binding.Taking
import KeyedText.Proofs.Entries

/-!
# Types whose values come back

Two properties of types decide whether a value can be written and read again. A type always writes
when each of its values leaves at least one pair behind: scalars that read back, lists of such
types, and objects with a member of such a type. Only those may stand in optional values, lists and
maps, where a value without a pair would be lost. The other members of an object may also leave
nothing behind, since a new object holds nothing there either.

Both properties are those of the broadest classification of the object types that is closed under
the rules, so an object type may hold a list of its own objects.

## Main definitions

- `SlotType.AlwaysWrites`, `SlotType.Admissible` — the rules for types of slots
- `ObjectType.Admissible` — the rules for object types
- `Schema.Classified`, `Schema.Admits` — classifications of the object types, and the broadest one
- `Slot.Empty` — a slot that holds nothing but scalars of any value
- `Slot.Fits` — a slot that holds a value of a type

## Main statements

- `Schema.Classified.empty_initial` — a new slot of an admissible type is empty
- `ObjectType.Admissible.findMember_eq` — the members of an admissible type are found by their names
-/

namespace KeyedText

/-- The values of the type that each table of named values stands for. -/
abbrev EnumValues := EnumTable → Nat → Prop

variable {values : EnumValues} {writing admitted : Text → Prop}

/-! ## Types -/

/-- Scalar types whose values read back from their text. For a table of named values this is a
property of the table. -/
def ScalarType.ReadsBack (values : EnumValues) : ScalarType → Prop
  | .text _ => True
  | .integer _ => True
  | .bool => True
  | .enum table => ∀ value, values table value → table.read (table.render value) = .ok value
  | _ => False

/-- Keys that take the whole text of an index: texts and integers. -/
def KeyType.Plain : KeyType → Prop
  | .single (.text _) => True
  | .single (.integer _) => True
  | _ => False

namespace SlotType

/-- Types whose values always leave a pair behind, given the object types that do. -/
def AlwaysWrites (values : EnumValues) (writing : Text → Prop) : SlotType → Prop
  | .scalar type => type.ReadsBack values
  | .list element => element.AlwaysWrites values writing
  | .object typeName => writing typeName
  | _ => False

/-- Types that a member may have: those that always write, optional values and maps of them, and
admissible object types. -/
def Admissible (values : EnumValues) (writing admitted : Text → Prop) : SlotType → Prop
  | .option content => content.AlwaysWrites values writing
  | .map _ kind key element =>
    (kind = .sorted ∨ kind = .inserted) ∧ key.Plain ∧ element.AlwaysWrites values writing
  | .object typeName => admitted typeName
  | type => type.AlwaysWrites values writing

end SlotType

/-- A slot of a type that holds nothing: no value, no items, no entries and no objects but those
whose fields are empty again. A scalar always holds some value. -/
inductive Slot.Empty (schema : Schema) : SlotType → Slot → Prop
  | scalar (value : Scalar) : Empty schema (.scalar value.type) (.scalar value)
  | vacant (content : SlotType) : Empty schema (.option content) (.vacant content)
  | list (element : SlotType) : Empty schema (.list element) (.list element [])
  | map (typeName : Text) (kind : MapKind) (key : KeyType) (element : SlotType) :
      Empty schema (.map typeName kind key element) (.map typeName kind key element [])
  | object {typeName : Text} {fields : Fields}
      (names : fields.map Prod.fst = (schema.find typeName).initial.map Prod.fst)
      (empty : ∀ field fresh slot, Entries.get? field (schema.find typeName).initial = some fresh →
        Entries.get? field fields = some slot → Empty schema fresh.type slot) :
      Empty schema (.object typeName) (.object typeName fields)

/-- Object types whose objects can be written and read again: an object has a field for each member
and no others, the types of the fields are admissible, a new object is empty, the names of the
members differ when they are compared, and nothing but the fields takes part in reading and
writing. -/
structure ObjectType.Admissible (schema : Schema) (values : EnumValues)
    (writing admitted : Text → Prop) (type : ObjectType) : Prop where
  noIndexer : type.indexer = none
  readable : ∀ member ∈ type.members, (member.ignoreGet || !member.readable) = false
  writable : ∀ member ∈ type.members, (member.ignoreSet || !member.writable) = false
  noConverter : ∀ member ∈ type.members, member.converter = none
  names : type.members.Pairwise fun left right => Text.fold left.name ≠ Text.fold right.name
  fieldNames : (type.initial.map Prod.fst).Nodup
  covered : ∀ field ∈ type.initial.map Prod.fst, field ∈ type.members.map Member.field
  member : ∀ member ∈ type.members, ∃ slot, Entries.get? member.field type.initial = some slot ∧
    slot.type.Admissible values writing admitted
  empty : ∀ field slot, Entries.get? field type.initial = some slot → slot.Empty schema slot.type

namespace Schema

/-- A classification of the object types that keeps to the rules. -/
structure Classified (schema : Schema) (values : EnumValues) (writing admitted : Text → Prop) :
    Prop where
  of_admitted : ∀ typeName, admitted typeName →
    (schema.find typeName).Admissible schema values writing admitted
  of_writing : ∀ typeName, writing typeName → admitted typeName ∧
    ∃ member ∈ (schema.find typeName).members, ∃ slot,
      Entries.get? member.field (schema.find typeName).initial = some slot ∧
        slot.type.AlwaysWrites values writing

/-- The object types that are admissible in some classification. -/
def Admits (schema : Schema) (values : EnumValues) (typeName : Text) : Prop :=
  ∃ writing admitted, schema.Classified values writing admitted ∧ admitted typeName

end Schema

/-! ## Values -/

/-- A scalar is one of its type. -/
def Scalar.Fits (values : EnumValues) : Scalar → Prop
  | .integer kind n => kind.holds n = true
  | .enum table value => values table value
  | _ => True

/-- A key of a type. -/
def MapKey.Fits (values : EnumValues) (type : KeyType) : MapKey → Prop
  | .single value => type = .single value.type ∧ value.Fits values
  | .tuple parts => type = .tuple (parts.map Scalar.type) ∧ ∀ part ∈ parts, part.Fits values

/-- A slot that holds a value of a type: scalars within their bounds, lists that positions can
address, maps in their order, and objects with the fields of new objects. -/
inductive Slot.Fits (schema : Schema) (values : EnumValues) : SlotType → Slot → Prop
  | scalar (value : Scalar) (fits : value.Fits values) :
      Fits schema values (.scalar value.type) (.scalar value)
  | vacant (content : SlotType) : Fits schema values (.option content) (.vacant content)
  | filled {content : SlotType} {slot : Slot} (fits : Fits schema values content slot) :
      Fits schema values (.option content) (.filled slot)
  | list {element : SlotType} {items : List Slot}
      (fits : ∀ item ∈ items, Fits schema values element item) (length : items.length < 2 ^ 64) :
      Fits schema values (.list element) (.list element items)
  | map {typeName : Text} {kind : MapKind} {key : KeyType} {element : SlotType}
      {entries : List (MapKey × Slot)} (keys : ∀ entry ∈ entries, entry.1.Fits values key)
      (fits : ∀ entry ∈ entries, Fits schema values element entry.2)
      (ordered : kind.Ordered entries) :
      Fits schema values (.map typeName kind key element) (.map typeName kind key element entries)
  | object {typeName : Text} {fields : Fields}
      (names : fields.map Prod.fst = (schema.find typeName).initial.map Prod.fst)
      (fits : ∀ field fresh slot, Entries.get? field (schema.find typeName).initial = some fresh →
        Entries.get? field fields = some slot → Fits schema values fresh.type slot) :
      Fits schema values (.object typeName) (.object typeName fields)

/-! ## Rules at work -/

theorem Slot.Empty.of_scalar {schema : Schema} {type : ScalarType} {slot : Slot}
    (h : slot.Empty schema (.scalar type)) : ∃ value, slot = .scalar value ∧ value.type = type := by
  cases h with
  | scalar value => exact ⟨value, rfl, rfl⟩

theorem SlotType.AlwaysWrites.admissible {type : SlotType} {schema : Schema}
    (hclass : schema.Classified values writing admitted) (h : type.AlwaysWrites values writing) :
    type.Admissible values writing admitted := by
  cases type with
  | object typeName => exact (hclass.of_writing typeName h).1
  | option | map => exact absurd h id
  | _ => exact h

/-- A new slot of an admissible type is empty. -/
theorem Schema.Classified.empty_initial {schema : Schema}
    (hclass : schema.Classified values writing admitted) {type : SlotType}
    (h : type.Admissible values writing admitted) : (schema.initial type).Empty schema type := by
  cases type with
  | scalar type =>
    have hempty : Slot.Empty schema (.scalar type.initial.type) (.scalar type.initial) :=
      .scalar type.initial
    rwa [ScalarType.type_initial] at hempty
  | option content => exact .vacant content
  | list element => exact .list element
  | map typeName kind key element => exact .map typeName kind key element
  | object typeName =>
    refine .object rfl fun field fresh slot hfresh hslot => ?_
    obtain rfl : fresh = slot := Option.some.inj (hfresh.symm.trans hslot)
    exact (hclass.of_admitted typeName h).empty field fresh hfresh
  | boxed | reference | dynamic => exact absurd h id

/-- The members of an admissible type are found by their names. -/
theorem ObjectType.Admissible.findMember_eq {schema : Schema} {type : ObjectType}
    (h : type.Admissible schema values writing admitted) {member : Member}
    (hmember : member ∈ type.members) : type.findMember (Text.fold member.name) = some member := by
  obtain ⟨position, hposition, rfl⟩ := List.getElem_of_mem hmember
  have hfirst : (type.members.findIdx? fun other =>
      Text.fold other.name == Text.fold type.members[position].name) = some position := by
    rw [List.findIdx?_eq_some_iff_getElem]
    refine ⟨hposition, by simp, fun earlier hearlier => ?_⟩
    have hdiffer := List.pairwise_iff_getElem.1 h.names earlier position
      (Nat.lt_trans hearlier hposition) hposition hearlier
    simpa using hdiffer
  rw [ObjectType.findMember, memberPosition?, hfirst]
  simp

end KeyedText
