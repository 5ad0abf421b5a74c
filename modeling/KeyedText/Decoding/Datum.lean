import KeyedText.Json.Basic
import KeyedText.Schema.Slot

/-!
# Data

A datum is a typed value without regard to the type it came from: nothing, a scalar, a list, or a
map whose keys are scalars or composed of them. A record is a map from the names of its fields. Data
become JSON where JSON can hold them.

## Main definitions

- `Datum` — a typed value
- `Datum.toJson` — a datum as JSON
- `SerializeFault` — what JSON cannot hold
-/

namespace KeyedText

/-- A typed value. -/
inductive Datum where
  | null
  | scalar (value : Scalar)
  | list (items : List Datum)
  | map (entries : List (MapKey × Datum))
  deriving Inhabited

/-- What cannot become JSON, or not the JSON that a source needs. -/
inductive SerializeFault where
  | numberOutOfRange
  | keyNotText
  | notObject
  deriving DecidableEq, Repr

/-- The wording of a fault. -/
def SerializeFault.message : SerializeFault → Text
  | numberOutOfRange => "number out of range"
  | keyNotText => "key must be a string"
  | notObject => "top-level value must serialize to a map"

namespace Datum

/-- A text as a datum. -/
def text (text : Text) : Datum :=
  .scalar (.text .plain text)

/-- A record as a datum. -/
def record (fields : List (Text × Datum)) : Datum :=
  .map (fields.map fun (name, value) => (.single (.text .plain name), value))

/-- A datum as a key of a map. -/
def toKey : Datum → MapKey
  | scalar value => .single value
  | _ => .tuple []

/-- A datum that is nothing. -/
def isNull : Datum → Bool
  | null => true
  | _ => false

mutual

/-- JSON as a datum. -/
def ofJson : Json → Datum
  | .null => .null
  | .bool b => .scalar (.bool b)
  | .integer n => .scalar (.integer (.signed 128) n)
  | .binary x => .scalar (.binary .double x)
  | .string t => text t
  | .array items => .list (ofItems items)
  | .object entries => .map (ofEntries entries)

/-- The items of an array as data. -/
def ofItems : List Json → List Datum
  | [] => []
  | item :: items => ofJson item :: ofItems items

/-- The members of an object as data. -/
def ofEntries : List (Text × Json) → List (MapKey × Datum)
  | [] => []
  | (name, value) :: rest => (.single (.text .plain name), ofJson value) :: ofEntries rest

end

/-- A floating number as JSON, which has none but the finite ones. Narrow numbers are widened. -/
def jsonOfBinary : Binary → Json
  | .finite negative significand exponent =>
    .binary (BinaryFormat.double.convert (.finite negative significand exponent))
  | _ => .null

/-- A scalar as JSON. Whole numbers have at most 64 bits. -/
def jsonOfScalar : Scalar → Except SerializeFault Json
  | .bool b => .ok (.bool b)
  | .integer _ n =>
    if -(2 ^ 63 : Int) ≤ n ∧ n < 2 ^ 64 then .ok (.integer n) else .error .numberOutOfRange
  | .binary _ x => .ok (jsonOfBinary x)
  | value => .ok (.string value.render)

/-- A key as the name of a member. -/
def nameOfKey : MapKey → Except SerializeFault Text
  | .single value => .ok value.render
  | .tuple _ => .error .keyNotText

mutual

/-- A datum as JSON. -/
def toJson : Datum → Except SerializeFault Json
  | .null => .ok .null
  | .scalar value => jsonOfScalar value
  | .list items => (jsonOfItems items).map .array
  | .map entries => (jsonOfEntries entries).map fun entries => .object (Entries.ofList entries)

/-- The items of a list as JSON. -/
def jsonOfItems : List Datum → Except SerializeFault (List Json)
  | [] => .ok []
  | item :: items => do
    let item ← item.toJson
    let items ← jsonOfItems items
    .ok (item :: items)

/-- The entries of a map as JSON. -/
def jsonOfEntries : List (MapKey × Datum) → Except SerializeFault (List (Text × Json))
  | [] => .ok []
  | (key, value) :: rest => do
    let name ← nameOfKey key
    let value ← value.toJson
    let entries ← jsonOfEntries rest
    .ok ((name, value) :: entries)

end

end Datum

end KeyedText
