import KeyedText.Encoding.Writer
import KeyedText.Schema.Basic
import KeyedText.Schema.Location

/-!
# Writing objects

An object is written as one pair for each value in it, its members in the order of their table.
Absent values and members that ignore reads are left out, an empty list leaves a pair without a
value, and a dynamic object names its type first.

## Main definitions

- `Slot.encode` — the text of a slot under a key, with hashed maps as they hand out their entries
- `Object.encode` — the text of an object
-/

namespace KeyedText

/-- Writes a part of an object under a key. -/
abbrev Encoder := Text → Except EncodeFault Text

/-- The texts of several parts one after the other. -/
def concatTexts {α : Type} (encode : α → Except EncodeFault Text) :
    List α → Except EncodeFault Text
  | [] => .ok []
  | part :: rest => do
    let text ← encode part
    let texts ← concatTexts encode rest
    .ok (text ++ texts)

/-- Writes a member under the key of its object, if it can be read. -/
def encodeMember (encoders : Entries Encoder) (key : Text) (member : Member) :
    Except EncodeFault Text :=
  if member.ignoreGet || !member.readable then .ok []
  else
    match Entries.get? member.field encoders with
    | none => .ok []
    | some encode => do
      checkName member.name
      encode (memberKey key member.name)

/-- Writes items under a key with the texts of their indices. -/
def encodeItems (key : Text) (items : List (Text × Encoder)) : Except EncodeFault Text :=
  concatTexts (fun item => do
    let key ← indexedKey key item.1
    item.2 key) items

/-- Writes an object under a key: its members in the order of their table, then the entries of a
listed indexer, which need a key before them. -/
def encodeObject (type : ObjectType) (encoders : Entries Encoder)
    (listed : List (Text × Encoder)) (key : Text) : Except EncodeFault Text := do
  let members ← concatTexts (encodeMember encoders key) type.members
  if key.isEmpty then .ok members
  else
    let entries ← encodeItems key listed
    .ok (members ++ entries)

/-- Items with the numbers of their positions. -/
def numbered {α : Type} (position : Nat) : List α → List (Text × α)
  | [] => []
  | item :: items => (Text.ofNat position, item) :: numbered (position + 1) items

mutual

/-- Writes a slot under a key. -/
def Slot.encode (schema : Schema) (options : EncodeOptions) : Slot → Encoder
  | .scalar value => fun key => writePair options key value.render
  | .vacant _ => fun _ => .ok []
  | .filled content => content.encode schema options
  | .boxed content => content.encode schema options
  | .list _ items => fun key =>
    if items.isEmpty then writePair options key []
    else encodeItems key (numbered 0 (encodersOfItems schema options items))
  | .map _ kind _ _ entries => fun key =>
    encodeItems key (kind.shown (encodersOfEntries schema options entries))
  | .object typeName fields => fun key =>
    let type := schema.find typeName
    encodeObject type (encodersOfFields schema options fields)
      (encodersOfIndexer schema options type.indexer fields) key
  | .reference name => fun key => if name.isEmpty then .ok [] else writePair options key name
  | .unset => fun _ => .ok []
  | .dynamic name typeName fields => fun key => do
    let type := schema.find typeName
    let named ← writePair options key name
    let members ← encodeObject type (encodersOfFields schema options fields)
      (encodersOfIndexer schema options type.indexer fields) key
    .ok (named ++ members)

/-- The encoders of the items of a list. -/
def encodersOfItems (schema : Schema) (options : EncodeOptions) : List Slot → List Encoder
  | [] => []
  | slot :: rest => slot.encode schema options :: encodersOfItems schema options rest

/-- The encoders of the entries of a map. -/
def encodersOfEntries (schema : Schema) (options : EncodeOptions) :
    List (MapKey × Slot) → List (MapKey × Encoder)
  | [] => []
  | (key, slot) :: rest =>
    (key, slot.encode schema options) :: encodersOfEntries schema options rest

/-- The encoders of the fields of an object. -/
def encodersOfFields (schema : Schema) (options : EncodeOptions) :
    List (Text × Slot) → List (Text × Encoder)
  | [] => []
  | (field, slot) :: rest =>
    (field, slot.encode schema options) :: encodersOfFields schema options rest

/-- The encoders of the entries that a listed indexer keeps in its field. -/
def encodersOfIndexer (schema : Schema) (options : EncodeOptions) (indexer : Option Indexer) :
    List (Text × Slot) → List (Text × Encoder)
  | [] => []
  | (field, slot) :: rest =>
    match indexer with
    | some ⟨held, _, true⟩ =>
      if field == held then entryEncoders schema options slot
      else encodersOfIndexer schema options indexer rest
    | _ => []

/-- The encoders of the entries of a map with the texts of their keys. -/
def entryEncoders (schema : Schema) (options : EncodeOptions) : Slot → List (Text × Encoder)
  | .map _ kind _ _ entries => kind.shown (encodersOfEntries schema options entries)
  | _ => []

end

/-- The text of an object whose hashed maps hand out their entries in some orders. -/
def Object.encode (schema : Schema) (options : EncodeOptions) (object : Object)
    (order : HashOrder := fun _ _ => 0) : Except EncodeFault Text :=
  (object.toSlot.arrange order).encode schema options []

end KeyedText
