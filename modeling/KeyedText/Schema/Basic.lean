import KeyedText.Entries
import KeyedText.Schema.Slot
import KeyedText.Text.Case

/-!
# Schemas

A schema says what the object types are: the members of each type with their names, aliases and
policies, whether an index on the object goes to one of its fields, and the contents that a new
object starts with.

## Main definitions

- `Member` — an entry of a type's member table
- `ObjectType` — an object type
- `Schema` — the object types that are known
- `ObjectType.findMember` — the member that a name addresses
- `Schema.initial` — what a new slot of a type holds
-/

namespace KeyedText

/-- An entry of a member table. The name is matched against keys and written out; the field says
where the value is kept. A member that ignores writes is passed over when text is bound, one that
ignores reads when an object is written out. -/
structure Member where
  name : Text
  field : Text
  aliases : List Text := []
  ignoreGet : Bool := false
  ignoreSet : Bool := false
  converter : Option Text := none
  readable : Bool := true
  writable : Bool := true
  deriving DecidableEq, Repr, Inhabited

/-- Where an index on an object goes: to a map in one of its fields, unless the index is the one
that addresses nothing. Only a listed indexer is written out. -/
structure Indexer where
  field : Text
  closed : Option Text := none
  listed : Bool := false
  deriving DecidableEq, Repr, Inhabited

/-- The fields of an object by name. -/
abbrev Fields := Entries Slot

/-- An object: the name of its type and its fields. -/
structure Object where
  typeName : Text
  fields : Fields
  deriving Inhabited

/-- The object as the content of a slot. -/
def Object.toSlot (object : Object) : Slot :=
  .object object.typeName object.fields

/-- An object type: its name, the label that messages about its members show, its members in order,
its indexer if it has one, and the fields of a new object. -/
structure ObjectType where
  typeName : Text
  label : Text
  members : List Member
  indexer : Option Indexer := none
  initial : Fields
  deriving Inhabited

/-- The object types that are known. -/
structure Schema where
  types : List ObjectType

/-- Whether a member has an alias that folds to the given text. -/
def Member.hasAlias (member : Member) (folded : Text) : Bool :=
  member.aliases.any fun other => Text.fold other == folded

/-- The position of the member that a folded name addresses: the first one with that name, otherwise
the first one with such an alias. -/
def memberPosition? (members : List Member) (folded : Text) : Option Nat :=
  (members.findIdx? fun member => Text.fold member.name == folded).or
    (members.findIdx? fun member => member.hasAlias folded)

/-- The member that a folded name addresses. -/
def ObjectType.findMember (type : ObjectType) (folded : Text) : Option Member :=
  (memberPosition? type.members folded).bind fun position => type.members[position]?

namespace Fields

/-- Applies a step to the slot of a field; a field that is not there yields the given result. -/
def update {β : Type} (field : Text) (missing : β) (step : Slot → Slot × β) :
    Fields → Fields × β
  | [] => ([], missing)
  | entry :: rest =>
    if entry.1 == field then
      let (slot, result) := step entry.2
      ((entry.1, slot) :: rest, result)
    else
      let (rest, result) := update field missing step rest
      (entry :: rest, result)

end Fields

namespace Schema

/-- The type of a given name. A name that is not known stands for a type without members. -/
def find (schema : Schema) (typeName : Text) : ObjectType :=
  match schema.types.find? fun type => type.typeName == typeName with
  | some type => type
  | none => { typeName, label := typeName, members := [], initial := [] }

/-- A new object of a type. -/
def newObject (schema : Schema) (typeName : Text) : Object :=
  ⟨typeName, (schema.find typeName).initial⟩

/-- What a new slot of a type holds. -/
def initial (schema : Schema) : SlotType → Slot
  | .scalar type => .scalar type.initial
  | .option content => .vacant content
  | .boxed content => .boxed (schema.initial content)
  | .list element => .list element []
  | .map typeName kind key element => .map typeName kind key element []
  | .object typeName => (schema.newObject typeName).toSlot
  | .reference => .reference []
  | .dynamic => .unset

end Schema

end KeyedText
