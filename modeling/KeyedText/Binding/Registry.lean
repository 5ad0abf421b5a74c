import KeyedText.Pair
import KeyedText.Schema.Basic
import KeyedText.Text.Quoted

/-!
# Registries

Text can name object types and converters that were registered beforehand. A type registry gives out
a new object for a name. A converter registry makes the converter of a name when it is first asked
for and keeps it until the name is registered again.

## Main definitions

- `TypeRegistry` — new objects by the names that text may use
- `Site` — where a value is being written
- `Conversion` — what a converter does with a slot
- `Converter`, `SlotConverter` — conversions that replace that of a slot's type
- `ConverterRegistry` — converters by name

## Design notes

A converter is handed the slot itself, so what it does is a sequence of steps and not just a value:
it may write several times, or nothing, and it may fail after it has written. It is taken to do the
same whenever it meets the same text at the same place with the same contents of the slot. One that
changes the slot in place is one that looks at it and then writes the changed contents.
-/

namespace KeyedText

/-- The names of registered types in the order of registration, each with the new object that it
gives out. -/
structure TypeRegistry where
  entries : Entries Object
  deriving Inhabited

namespace TypeRegistry

/-- A registry without types. -/
def empty : TypeRegistry := ⟨[]⟩

/-- The registry with one more type. Outer blanks of the name do not count. -/
def register (types : TypeRegistry) (name : Text) (object : Object) : TypeRegistry :=
  ⟨Entries.insert (Text.trim name) object types.entries⟩

/-- A new object of the type registered under a name. -/
def create? (types : TypeRegistry) (name : Text) : Option Object :=
  Entries.get? (Text.trim name) types.entries

/-- Whether a type is registered under a name. -/
def contains (types : TypeRegistry) (name : Text) : Bool :=
  (types.create? name).isSome

/-- The registered names. -/
def names (types : TypeRegistry) : List Text :=
  types.entries.map (·.1)

end TypeRegistry

/-- Quoted texts between square brackets. -/
def Text.quotedList (texts : List Text) : Text :=
  '[' :: Text.join ", " (texts.map Text.quoted) ++ [']']

/-- A dynamic slot as messages show it: by the name that its object was made under. -/
def Slot.describe : Slot → Text
  | .dynamic name _ _ =>
    "Dynamic \x7b type_name: Some(".toList ++ name.quoted ++ "), .. \x7d".toList
  | _ => "Dynamic \x7b type_name: None, .. \x7d"

/-- Where a value is being written: the key that leads there, the member on the way and the label
of its type, the separator of lists and the registered types. -/
structure Site where
  key : KeyPath
  member : Member
  owner : Text
  separator : Char
  types : TypeRegistry
  deriving Inhabited

/-- A member of no type, for values that are written outside of any object. -/
def Member.detached : Member := { name := [], field := [] }

/-- A place outside of any object. -/
def Site.detached (separator : Char) (types : TypeRegistry) : Site :=
  ⟨KeyPath.empty, Member.detached, [], separator, types⟩

/-- What a converter makes of a text: a value and the name of its type. -/
structure Converted where
  typeName : Text
  value : Slot
  deriving Inhabited

/-- What a converter does with a slot. It is done or fails; it looks at what the slot holds; or it
tries to write a value, and goes on with the cause if the slot does not take it. -/
inductive Conversion where
  | done
  | error (cause : Cause)
  | look (next : Slot → Conversion)
  | write (converted : Converted) (next : Option Cause → Conversion)
  deriving Inhabited

/-- Writes a value and fails if the slot does not take it. -/
def Conversion.ok (converted : Converted) : Conversion :=
  .write converted fun
    | none => .done
    | some cause => .error cause

/-- A conversion that replaces that of a slot's own type. -/
abbrev SlotConverter := Site → Text → Conversion

/-- A converter that finds its value before it writes, and fails without having written. -/
abbrev Converter := Site → Text → Except Cause Converted

/-- Writes what the converter finds. -/
def Converter.onSlot (converter : Converter) : SlotConverter := fun site raw =>
  match converter site raw with
  | .ok converted => .ok converted
  | .error cause => .error cause

instance : Coe Converter SlotConverter := ⟨Converter.onSlot⟩

/-- Converters by name. A factory makes the converter of its name; it is told how many converters
were made before. The ones made so far are kept. -/
structure ConverterRegistry where
  factories : Entries (Nat → SlotConverter)
  instances : Entries SlotConverter
  made : Nat

namespace ConverterRegistry

/-- A registry without converters. -/
def empty : ConverterRegistry := ⟨[], [], 0⟩

instance : Inhabited ConverterRegistry := ⟨empty⟩

/-- The registry with a factory for a name, in place of any older one. -/
def register (registry : ConverterRegistry) (name : Text) (factory : Nat → SlotConverter) :
    ConverterRegistry where
  factories := (name, factory) :: Entries.erase name registry.factories
  instances := Entries.erase name registry.instances
  made := registry.made

/-- Whether a factory is registered under a name. -/
def contains (registry : ConverterRegistry) (name : Text) : Bool :=
  (Entries.get? name registry.factories).isSome

/-- Whether the converter of a name was made already. -/
def isCached (registry : ConverterRegistry) (name : Text) : Bool :=
  (Entries.get? name registry.instances).isSome

/-- The converter of a name, made if it was not made before, and the registry afterwards. -/
def resolve (registry : ConverterRegistry) (name : Text) :
    Except Cause SlotConverter × ConverterRegistry :=
  match Entries.get? name registry.instances with
  | some converter => (.ok converter, registry)
  | none =>
    match Entries.get? name registry.factories with
    | none => (.error (.unknownConverter name), registry)
    | some factory =>
      let converter := factory registry.made
      (.ok converter,
        { registry with
          instances := (name, converter) :: registry.instances
          made := registry.made + 1 })

/-- The names with a factory, in the order of their characters. -/
def names (registry : ConverterRegistry) : List Text :=
  (registry.factories.map (·.1)).mergeSort fun left right => !decide (right < left)

/-- The registry as messages show it. -/
def describe (registry : ConverterRegistry) : Text :=
  "ConverterRegistry \x7b converters: ".toList ++ Text.quotedList registry.names ++ " \x7d".toList

end ConverterRegistry

/-- What binding goes by: the separator of lists written on one line, and the registered types and
converters. -/
structure BindOptions where
  separator : Char := ','
  types : TypeRegistry := TypeRegistry.empty
  converters : ConverterRegistry := ConverterRegistry.empty
  deriving Inhabited

end KeyedText
