import KeyedText.Binding.Registry

/-!
# Assigning text to a slot

Text that reaches the end of its key replaces what the slot holds; what it is replaced by depends on
the type of the slot only. An absent value empties an optional slot and leaves others alone. When
the text cannot be read the slot stays as it was. Where a member has a converter, the converter
decides what happens to the slot.

## Main definitions

- `SlotType.read` — the slot that a text stands for
- `Slot.clear` — the slot after an absent value
- `Slot.assign` — the slot after a value
- `Slot.store?` — the slot after a converted value
- `Conversion.run`, `Slot.convert` — the slot after what a converter does with it
-/

namespace KeyedText

/-- Reads the elements of a list one after the other. -/
def readAll (read : Text → Except Cause Slot) : List Text → Except Cause (List Slot)
  | [] => .ok []
  | piece :: pieces => do
    let item ← read piece
    let items ← readAll read pieces
    .ok (item :: items)

/-- The slot of a type that a text stands for. A list takes the pieces between separators, a blank
text being the empty list. Objects, references and dynamic slots take the name of a registered
type. -/
def SlotType.read (site : Site) : SlotType → Text → Except Cause Slot
  | .scalar type, raw => (type.read raw).map .scalar
  | .option content, raw => (content.read site raw).map .filled
  | .boxed content, raw => (content.read site raw).map .boxed
  | .list element, raw =>
    if Text.allBlank raw then .ok (.list element [])
    else
      (readAll (fun piece => element.read site (Text.trim piece))
        (Text.splitOn site.separator raw)).map (.list element)
  | .map typeName _ _ _, _ => .error (.notAssignable typeName)
  | .object typeName, raw =>
    match site.types.create? raw with
    | none => .error (.unknownType (Text.trim raw))
    | some made =>
      if made.typeName = typeName then .ok made.toSlot
      else .error (.typeMismatch (Text.trim raw) typeName)
  | .reference, raw =>
    if site.types.contains raw then .ok (.reference (Text.trim raw))
    else .error (.unknownType (Text.trim raw))
  | .dynamic, raw =>
    match site.types.create? raw with
    | none => .error (.unknownType (Text.trim raw))
    | some made => .ok (.dynamic (Text.trim raw) made.typeName made.fields)

/-- The slot after an absent value. -/
def Slot.clear : Slot → Slot
  | .filled content => .vacant content.type
  | .boxed content => .boxed content.clear
  | .map typeName (.gated closed) key element _ => .map typeName (.gated closed) key element []
  | slot => slot

/-- The slot after a value: unchanged when the value cannot be read. -/
def Slot.assign (site : Site) (value : Option Text) (slot : Slot) : Slot × Option Cause :=
  match value with
  | none => (slot.clear, none)
  | some raw =>
    match slot.type.read site raw with
    | .ok slot => (slot, none)
    | .error cause => (slot, some cause)

/-- The slot after a converted value, which fits a slot of its type and an optional slot of its
type. -/
def Slot.store? (value : Slot) : Slot → Option Slot
  | .boxed content => (store? value content).map .boxed
  | slot =>
    if slot.type = value.type then some value
    else if slot.type = .option value.type then some (.filled value)
    else none

/-- What a converter sees of a slot: boxes are looked through. -/
def Slot.unboxed : Slot → Slot
  | .boxed content => content.unboxed
  | slot => slot

/-- The slot after what a converter of some name does with it, and the cause if that failed. What
was written before stays. -/
def Conversion.run (name : Text) : Conversion → Slot → Slot × Option Cause
  | .done, slot => (slot, none)
  | .error cause, slot => (slot, some cause)
  | .look next, slot => (next slot.unboxed).run name slot
  | .write converted next, slot =>
    match Slot.store? converted.value slot with
    | some written => (next none).run name written
    | none => (next (some (.unsupportedTarget name converted.typeName))).run name slot

/-- The slot after a member's converter. -/
def Slot.convert (site : Site) (converter : SlotConverter) (raw : Text) (slot : Slot) :
    Slot × Option Cause :=
  (converter site raw).run (site.member.converter.getD []) slot

end KeyedText
