import KeyedText.Key.Index
import KeyedText.Scalar.Basic

/-!
# Slots

A slot is a place that text can be written into, together with what it holds: a scalar, an optional
value, a list, a map, an object with named fields, the name of a registered type, or an object whose
type the text chooses. A slot knows its type, so an empty list still tells what its items are.

## Main definitions

- `SlotType` — the types of slots
- `Slot` — a slot with its contents
- `Slot.type` — the type of a slot
- `MapKey`, `MapKind.upsert` — keys of maps, and writing to an entry

## Design notes

Objects refer to their type by name, since a type may contain itself. What the name stands for is
said by a schema.
-/

namespace KeyedText

/-- The keys of a map: a scalar that takes the whole text of an index, or several of them that take
one token each. -/
inductive KeyType where
  | single (type : ScalarType)
  | tuple (types : List ScalarType)
  deriving DecidableEq, Repr, Inhabited

/-- A key of a map. -/
inductive MapKey where
  | single (value : Scalar)
  | tuple (values : List Scalar)
  deriving DecidableEq, Repr, Inhabited

/-- How a map keeps its entries: in no order of their own, in the order of their keys, or in the
order of their insertion. A gated map also keeps them in the order of insertion; one index addresses
nothing in it, and an absent value empties it. -/
inductive MapKind where
  | hashed
  | sorted
  | inserted
  | gated (closed : Text)
  deriving DecidableEq, Repr, Inhabited

/-- The types of slots. Maps carry the name that messages give them; objects are known by the name
of their type. -/
inductive SlotType where
  | scalar (type : ScalarType)
  | option (content : SlotType)
  | boxed (content : SlotType)
  | list (element : SlotType)
  | map (typeName : Text) (kind : MapKind) (key : KeyType) (element : SlotType)
  | object (typeName : Text)
  | reference
  | dynamic
  deriving DecidableEq, Repr, Inhabited

/-- A slot with its contents. An optional value is `vacant` or `filled`; a dynamic object is
`unset` until a text names its type, and has a name, a type and fields from then on. A program keeps
the name and the object in two optional fields of their own. They are private, and nothing sets them
but the assignment of a name that stands for a type, which sets both at once: so a name without an
object, or an object without a name, is no state of a slot. -/
inductive Slot where
  | scalar (value : Scalar)
  | vacant (content : SlotType)
  | filled (content : Slot)
  | boxed (content : Slot)
  | list (element : SlotType) (items : List Slot)
  | map (typeName : Text) (kind : MapKind) (key : KeyType) (element : SlotType)
      (entries : List (MapKey × Slot))
  | object (typeName : Text) (fields : List (Text × Slot))
  | reference (name : Text)
  | unset
  | dynamic (name typeName : Text) (fields : List (Text × Slot))
  deriving Inhabited

/-- The type of a slot. -/
def Slot.type : Slot → SlotType
  | scalar value => .scalar value.type
  | vacant content => .option content
  | filled content => .option content.type
  | boxed content => .boxed content.type
  | list element _ => .list element
  | map typeName kind key element _ => .map typeName kind key element
  | object typeName _ => .object typeName
  | reference _ => .reference
  | unset => .dynamic
  | dynamic _ _ _ => .dynamic

namespace KeyType

/-- Reads the components of a composite key, one from each token. -/
def readComponents : List ScalarType → List Text → Except Cause (List Scalar)
  | type :: types, token :: tokens => do
    let value ← type.read token
    let values ← readComponents types tokens
    .ok (value :: values)
  | _, _ => .ok []

/-- Reads a key from an index. A composite key needs as many tokens as it has components. -/
def read : KeyType → Index → Except Cause MapKey
  | single type, index => (type.read index.text).map .single
  | tuple types, index =>
    if index.tokens.length = types.length then
      (readComponents types index.tokens).map .tuple
    else .error (.indexArity types.length index.tokens.length)

end KeyType

namespace MapKey

/-- The key as the text of an index. -/
def render : MapKey → Text
  | single value => value.render
  | tuple values => Text.join [','] (values.map Scalar.render)

/-- The place of a key among those of its type. -/
def rank : MapKey → List (List Int)
  | single value => [value.rank]
  | tuple values => values.map Scalar.rank

/-- Keys of one type are the same when they have the same place. -/
def same (left right : MapKey) : Bool :=
  left.rank == right.rank

end MapKey

namespace MapKind

/-- Whether the kind keeps its entries in the order of their keys. Hashed entries are a set, and are
kept so only to make equal maps equal lists: it is not the order in which they are handed out. -/
def isRanked : MapKind → Bool
  | hashed => true
  | sorted => true
  | inserted => false
  | gated _ => false

/-- Adds an entry whose key is not there yet at its place. -/
def insert {α : Type} (kind : MapKind) (key : MapKey) (value : α) :
    List (MapKey × α) → List (MapKey × α)
  | [] => [(key, value)]
  | entry :: rest =>
    if kind.isRanked && decide (key.rank < entry.1.rank) then (key, value) :: entry :: rest
    else entry :: kind.insert key value rest

/-- Applies a step to the value of a key if the key is there. -/
def updateExisting? {α β : Type} (key : MapKey) (step : α → α × β) :
    List (MapKey × α) → Option (List (MapKey × α) × β)
  | [] => none
  | entry :: rest =>
    if entry.1.same key then
      let (value, result) := step entry.2
      some ((entry.1, value) :: rest, result)
    else (updateExisting? key step rest).map fun (rest, result) => (entry :: rest, result)

/-- Applies a step to the value of a key, which starts out as the given one when the key is new. -/
def upsert {α β : Type} (kind : MapKind) (key : MapKey) (start : α) (step : α → α × β)
    (entries : List (MapKey × α)) : List (MapKey × α) × β :=
  match updateExisting? key step entries with
  | some found => found
  | none =>
    let (value, result) := step start
    (kind.insert key value entries, result)

/-- The entries in the order in which they are shown, given the order in which they are handed out:
hashed ones go by the text of their keys, and those whose keys have one text stay as they are. -/
def shown {α : Type} (kind : MapKind) (entries : List (MapKey × α)) : List (Text × α) :=
  let rendered := entries.map fun entry => (entry.1.render, entry.2)
  match kind with
  | hashed => rendered.mergeSort fun left right => !decide (right.1 < left.1)
  | _ => rendered

end MapKind

end KeyedText
