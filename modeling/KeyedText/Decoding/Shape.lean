import KeyedText.Decoding.Datum
import KeyedText.Decoding.Fault

/-!
# Shapes

A shape says what is expected of an input and what datum is made of it. Shapes may refer to one
another by name, so that what they describe may contain itself.

## Main definitions

- `Shape` — what is expected of an input
- `FieldInfo`, `CaseInfo` — the names of fields and variants
- `Shape.initial` — the datum that a value of a shape starts with
- `Shapes` — shapes by name
-/

namespace KeyedText

/-- A field of a record: its name, the other names that are read as it, the value that stands in for
a missing one, and whether it is left out when it is nothing. -/
structure FieldInfo where
  name : Text
  aliases : List Text := []
  fallback : Option Datum := none
  skipsNull : Bool := false
  deriving Inhabited

/-- A variant of a choice: its name and how it bears its content. -/
structure CaseInfo where
  name : Text
  kind : CaseKind
  deriving DecidableEq, Repr, Inhabited

/-- What is expected of an input. -/
inductive Shape where
  /-- Whatever the input holds. -/
  | any
  | scalar (type : ScalarType)
  /-- The bytes of a text. -/
  | bytes
  /-- Nothing, whatever the input holds. -/
  | nothing
  /-- The values of a map without its keys, which cannot be had. -/
  | unkeyed
  | optional (content : Shape)
  | list (element : Shape)
  /-- A fixed number of values in a row, with what messages call them. -/
  | tuple (title : Text) (elements : List Shape)
  | map (kind : MapKind) (key element : Shape)
  /-- Named fields; a strict record has no others. -/
  | record (strict : Bool) (fields : List (FieldInfo × Shape))
  /-- Named fields, and entries under all other names. -/
  | extended (fields : List (FieldInfo × Shape)) (element : Shape)
  /-- One of several variants, by its name. -/
  | choice (cases : List (CaseInfo × Shape))
  /-- The first of several shapes that fits. -/
  | union (title : Text) (options : List Shape)
  /-- One of several records, by the name in one of the fields. -/
  | tagged (title tag : Text) (cases : List (Text × Shape))
  /-- The shape of a given name. -/
  | named (name : Text)
  deriving Inhabited

/-- Shapes by name. -/
abbrev Shapes := Entries Shape

namespace Shape

/-- A text as it is. -/
def text : Shape := .scalar (.text .plain)

/-- The datum that a missing field of the shape stands for. -/
def absent : Shape → Option Datum
  | optional _ => some .null
  | _ => none

/-- The datum of a field as it was given for the case that it is missing. -/
def fieldStart (info : FieldInfo) (start : Datum) : MapKey × Datum :=
  (.single (.text .plain info.name), info.fallback.getD start)

mutual

/-- The datum that a value of the shape starts with. A choice between shapes starts with nothing. -/
def initial : Shape → Datum
  | .scalar type => .scalar type.initial
  | .bytes => .list []
  | .list _ => .list []
  | .tuple _ elements => .list (initials elements)
  | .map _ _ _ => .map []
  | .record _ fields => .map (initialFields fields)
  | .extended fields _ => .map (initialFields fields)
  | _ => .null

/-- The data that values of some shapes start with. -/
def initials : List Shape → List Datum
  | [] => []
  | shape :: rest => shape.initial :: initials rest

/-- The data that fields start with. -/
def initialFields : List (FieldInfo × Shape) → List (MapKey × Datum)
  | [] => []
  | (info, shape) :: rest => fieldStart info shape.initial :: initialFields rest

end

/-- What a name stands for; a name that stands for nothing is kept. -/
def find (shapes : Shapes) (name : Text) : Shape :=
  (Entries.get? name shapes).getD (.named name)

end Shape

end KeyedText
