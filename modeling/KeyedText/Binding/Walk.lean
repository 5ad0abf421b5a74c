import KeyedText.Binding.Assign
import KeyedText.Key.Step

/-!
# Following a key

A key is followed through an object part by part and index by index. Members are found by name or
alias, positions and entries that an index addresses come into being on the way, and the value is
assigned to the slot at the end. A key that leads nowhere is passed over without a fault.

## Main definitions

- `Outcome` — an assignment, a key that leads nowhere, or a fault
- `Slot.item` — the item of a list or map that an index addresses
- `Slot.indexed` — the item that an index addresses in any slot
- `Slot.bind` — a slot after the value at the end of a key
- `Object.bind` — an object after a pair

## Design notes

An index on an object goes to the object's indexer, or else to its member `Item`, which may hold
such an object again. The number of objects passed that way is bounded by `Schema.hopLimit`; a key
that passes more of them goes round in circles and is reported as endless.
-/

namespace KeyedText

/-- A value that could not be converted: the key as it was written, the raw text, the member that
it was meant for with the label of its type, and the cause. -/
structure ConversionFault where
  key : Text
  raw : Option Text
  member : Text
  typeName : Text
  cause : Cause
  deriving DecidableEq, Repr

/-- Why following a key stopped. -/
inductive BindFault where
  | conversion (fault : ConversionFault)
  | endless
  deriving DecidableEq, Repr

/-- How following a key ended: with an assignment, nowhere, or with a fault. -/
inductive Outcome where
  | assigned
  | skipped
  | failed (fault : BindFault)
  deriving DecidableEq, Repr

/-- The fault of a value at a place. -/
def Site.fault (site : Site) (value : Option Text) (cause : Cause) : Outcome :=
  .failed (.conversion
    { key := site.key.render
      raw := value
      member := site.member.name
      typeName := site.owner
      cause })

/-- What is done to a slot on the way, with how it ended. -/
abbrev Act := Slot → Slot × Outcome

/-- The way into a new optional slot: its content is created and the step goes on in it. -/
def SlotType.enterNew (schema : Schema) (act : Act) : SlotType → Slot × Outcome
  | .option content =>
    let (slot, outcome) := content.enterNew schema act
    (.filled slot, outcome)
  | .boxed content =>
    let (slot, outcome) := content.enterNew schema act
    (.boxed slot, outcome)
  | type => act (schema.initial type)

/-- The way into a slot: through boxes and optional slots, where a vacant one is filled. -/
def Slot.enter (schema : Schema) (act : Act) : Slot → Slot × Outcome
  | .vacant content =>
    let (slot, outcome) := content.enterNew schema act
    (.filled slot, outcome)
  | .filled content =>
    let (slot, outcome) := content.enter schema act
    (.filled slot, outcome)
  | .boxed content =>
    let (slot, outcome) := content.enter schema act
    (.boxed slot, outcome)
  | slot => act slot

/-- How many items one write may add to a list. -/
def positionGap : Nat := 65536

/-- A list that is long enough for a position, filled up with new items; `none` when that would
take too many of them. -/
def padded? (fresh : Slot) (items : List Slot) (position : Nat) : Option (List Slot) :=
  if position < items.length then some items
  else if position + 1 - items.length ≤ positionGap ∧ position + 1 < 2 ^ 64 then
    some (items ++ List.replicate (position + 1 - items.length) fresh)
  else none

/-- Applies a step to the item at a position of a list. -/
def actAt (act : Act) : Nat → List Slot → List Slot × Outcome
  | _, [] => ([], .skipped)
  | 0, item :: items =>
    let (item, outcome) := act item
    (item :: items, outcome)
  | position + 1, item :: items =>
    let (items, outcome) := actAt act position items
    (item :: items, outcome)

/-- Goes on in the item of a list or a map that an index addresses. Other slots have no items. -/
def Slot.item (schema : Schema) (site : Site) (value : Option Text) (index : Index) (act : Act) :
    Slot → Slot × Outcome
  | .list element items =>
    match readPosition? index.text with
    | none => (.list element items, site.fault value (.invalidPosition index.text))
    | some position =>
      match padded? (schema.initial element) items position with
      | none =>
        (.list element items, site.fault value (.positionOutOfRange position items.length))
      | some padded =>
        let (items, outcome) := actAt act position padded
        (.list element items, outcome)
  | .map typeName kind keyType element entries =>
    if kind = .gated index.text then (.map typeName kind keyType element entries, .skipped)
    else
      match keyType.read index with
      | .error cause => (.map typeName kind keyType element entries, site.fault value cause)
      | .ok key =>
        let (entries, outcome) := kind.upsert key (schema.initial element) act entries
        (.map typeName kind keyType element entries, outcome)
  | slot => (slot, .skipped)

/-- The member that an index on an object goes to. -/
def itemName : Text := "Item"

/-- Goes on in what an index on an object addresses: an item of its indexer, or else whatever the
given step finds in its member `Item`. -/
def Fields.item (schema : Schema) (site : Site) (value : Option Text) (index : Index) (act : Act)
    (within : Act) (typeName : Text) (fields : Fields) : Fields × Outcome :=
  let type := schema.find typeName
  match type.indexer with
  | some indexer =>
    if indexer.closed = some index.text then (fields, .skipped)
    else Fields.update indexer.field .skipped (Slot.item schema site value index act) fields
  | none =>
    match type.findMember (Text.fold itemName) with
    | none => (fields, .skipped)
    | some member =>
      if member.ignoreSet || !member.writable then (fields, .skipped)
      else Fields.update member.field .skipped within fields

/-- Goes on in what an index addresses, where `within` says how to find it in a member `Item`. -/
def Slot.indexedWith (schema : Schema) (site : Site) (value : Option Text) (index : Index)
    (act within : Act) : Slot → Slot × Outcome :=
  Slot.enter schema fun
    | .object typeName fields =>
      let (fields, outcome) := Fields.item schema site value index act within typeName fields
      (.object typeName fields, outcome)
    | .dynamic name typeName fields =>
      let (fields, outcome) := Fields.item schema site value index act within typeName fields
      (.dynamic name typeName fields, outcome)
    | slot => slot.item schema site value index act

/-- Goes on in what an index addresses in a slot, passing through the members `Item` of at most the
given number of objects. -/
def Slot.indexedWithin (schema : Schema) (site : Site) (value : Option Text) (index : Index)
    (act : Act) : Nat → Slot → Slot × Outcome
  | 0 => Slot.indexedWith schema site value index act fun slot => (slot, .failed .endless)
  | hops + 1 =>
    Slot.indexedWith schema site value index act
      (Slot.indexedWithin schema site value index act hops)

mutual

/-- How many objects lie inside one another in a slot, not counting those in lists and maps. -/
def Slot.objectDepth : Slot → Nat
  | .filled content => content.objectDepth
  | .boxed content => content.objectDepth
  | .object _ fields => 1 + objectDepthOfFields fields
  | .dynamic _ _ fields => 1 + objectDepthOfFields fields
  | _ => 0

/-- How many objects lie inside one another in the fields of an object. -/
def objectDepthOfFields : List (Text × Slot) → Nat
  | [] => 0
  | (_, slot) :: rest => max slot.objectDepth (objectDepthOfFields rest)

end

/-- How many objects an index can pass before it has to meet one again: those that are there, and
one new object of each type with what it starts with. -/
def Schema.hopLimit (schema : Schema) (slot : Slot) : Nat :=
  slot.objectDepth +
    (schema.types.map fun type => 1 + objectDepthOfFields type.initial).foldr (· + ·) 0

/-- Goes on in what an index addresses in a slot. -/
def Slot.indexed (schema : Schema) (site : Site) (value : Option Text) (index : Index) (act : Act)
    (slot : Slot) : Slot × Outcome :=
  Slot.indexedWithin schema site value index act (schema.hopLimit slot) slot

/-- The slot after a value assigned to it, by the converter of the member that leads there if it
has one and the value is present. -/
def Slot.assignLeaf (site : Site) (converters : ConverterRegistry) (value : Option Text)
    (slot : Slot) : Slot × Outcome :=
  let (slot, cause) :=
    match site.member.converter, value with
    | some name, some raw =>
      match (converters.resolve name).1 with
      | .ok converter => slot.convert site converter raw
      | .error cause => (slot, some cause)
    | _, _ => slot.assign site value
  match cause with
  | none => (slot, .assigned)
  | some cause => (slot, site.fault value cause)

/-- Goes on in the member of an object that a name addresses, unless there is none or it ignores
writes. -/
def Fields.member (schema : Schema) (name : Text) (act : ObjectType → Member → Act)
    (typeName : Text) (fields : Fields) : Fields × Outcome :=
  let type := schema.find typeName
  match type.findMember (Text.fold name) with
  | none => (fields, .skipped)
  | some member =>
    if member.ignoreSet || !member.writable then (fields, .skipped)
    else Fields.update member.field .skipped (act type member) fields

/-- The same place behind one more member. -/
def Site.into (site : Site) (type : ObjectType) (member : Member) : Site :=
  { site with member, owner := type.label }

/-- A slot after the value at the end of some steps. -/
def Slot.bind (schema : Schema) (converters : ConverterRegistry) (value : Option Text) :
    Site → List Step → Slot → Slot × Outcome
  | site, [] => Slot.assignLeaf site converters value
  | site, .index index :: rest =>
    Slot.indexed schema site value index (Slot.bind schema converters value site rest)
  | site, .member name :: rest =>
    Slot.enter schema fun
      | .object typeName fields =>
        let (fields, outcome) := Fields.member schema name
          (fun type member => Slot.bind schema converters value (site.into type member) rest)
          typeName fields
        (.object typeName fields, outcome)
      | .dynamic title typeName fields =>
        let (fields, outcome) := Fields.member schema name
          (fun type member => Slot.bind schema converters value (site.into type member) rest)
          typeName fields
        (.dynamic title typeName fields, outcome)
      | slot => (slot, .skipped)

/-- The member that stands for what an index on the target itself addresses. -/
def Member.item : Member := { name := itemName, field := itemName }

/-- The place of a pair in a target, before any step. -/
def Site.ofPair (options : BindOptions) (pair : Pair) (owner : Text) : Site :=
  ⟨pair.key, Member.item, owner, options.separator, options.types⟩

/-- An object after the value of a pair at the end of some steps. Without steps the key addresses
the object itself, which takes no value. -/
def Object.bind (schema : Schema) (options : BindOptions) (pair : Pair) (steps : List Step)
    (target : Object) : Object × Outcome :=
  let site := Site.ofPair options pair (schema.find target.typeName).label
  match steps with
  | [] => (target, .skipped)
  | .member name :: rest =>
    let (fields, outcome) := Fields.member schema name
      (fun type member =>
        Slot.bind schema options.converters pair.value (site.into type member) rest)
      target.typeName target.fields
    ({ target with fields }, outcome)
  | .index index :: rest =>
    let act := Slot.bind schema options.converters pair.value site rest
    let within := fun slot => Slot.indexed schema site pair.value index act slot
    let (fields, outcome) := Fields.item schema site pair.value index act within
      target.typeName target.fields
    ({ target with fields }, outcome)

end KeyedText
