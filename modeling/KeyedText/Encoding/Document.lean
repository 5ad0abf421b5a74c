import KeyedText.Decoding.Datum
import KeyedText.Encoding.Writer

/-!
# Writing JSON

A JSON object is written as one pair for each value in it. The key of a value is made of the names
and the positions that lead there. Null, empty arrays and empty objects leave nothing behind.

## Main definitions

- `Json.encode` — the text of a value under a key
- `Json.encodeDocument` — the text of an object
- `Datum.encode` — the text of a datum
- `WriteFault` — why a datum cannot be written
-/

namespace KeyedText

/-- The key of an item at a position. -/
def positionKey (key : Text) (position : Nat) : Text :=
  key ++ '[' :: Text.ofNat position ++ [']']

mutual

/-- The text of a value under a key. -/
def Json.encode (options : EncodeOptions) (key : Text) : Json → Except EncodeFault Text
  | .null => .ok []
  | .bool b => writePair options key (Scalar.boolText b)
  | .integer n => writePair options key (Text.ofInt n)
  | .binary x => writePair options key (Json.numeral x)
  | .string t => writePair options key t
  | .array items => encodeElements options key 0 items
  | .object entries => encodeMembers options key entries

/-- The texts of the items of an array, the first of which has the given position. -/
def encodeElements (options : EncodeOptions) (key : Text) (position : Nat) :
    List Json → Except EncodeFault Text
  | [] => .ok []
  | item :: items => do
    let text ← item.encode options (positionKey key position)
    let texts ← encodeElements options key (position + 1) items
    .ok (text ++ texts)

/-- The texts of the members of an object. Those of the document itself have the empty key before
them. -/
def encodeMembers (options : EncodeOptions) (key : Text) :
    List (Text × Json) → Except EncodeFault Text
  | [] => .ok []
  | (name, value) :: rest => do
    checkName name
    let text ← value.encode options (memberKey key name)
    let texts ← encodeMembers options key rest
    .ok (text ++ texts)

end

/-- Why a datum cannot be written: it does not become a JSON object, or a part of that cannot be
written as a pair. -/
inductive WriteFault where
  | serialize (fault : SerializeFault)
  | encode (fault : EncodeFault)
  deriving DecidableEq, Repr

/-- The text of a document, which is an object. -/
def Json.encodeDocument (options : EncodeOptions) : Json → Except WriteFault Text
  | .object entries => (encodeMembers options [] entries).mapError .encode
  | _ => .error (.serialize .notObject)

/-- The text of a datum. -/
def Datum.encode (options : EncodeOptions) (datum : Datum) : Except WriteFault Text := do
  let value ← datum.toJson.mapError .serialize
  value.encodeDocument options

end KeyedText
