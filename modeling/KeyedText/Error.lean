import KeyedText.Binding.Populate
import KeyedText.Decoding.Decode
import KeyedText.Encoding.Document
import KeyedText.Source.Reading

/-!
# Errors

Everything that can go wrong, with its wording.

## Main definitions

- `Error` — what went wrong
- `Error.message` — the wording
-/

namespace KeyedText

/-- What went wrong. -/
inductive Error where
  | bind (fault : BindFault)
  | source (name : Text) (fault : AccessFault)
  | encode (fault : EncodeFault)
  | serialize (fault : SerializeFault)
  | decode (fault : DecodeFault)
  deriving DecidableEq, Repr

/-- The raw text of a value as messages show it. -/
def shownRaw : Option Text → Text
  | some raw => raw.quoted
  | none => "<absent>"

/-- The wording of a value that could not be converted. -/
def ConversionFault.message (fault : ConversionFault) : Text :=
  "cannot convert ".toList ++ shownRaw fault.raw ++ " for ".toList ++ fault.key.ticked ++
    " into ".toList ++ fault.member.ticked ++ " of ".toList ++ fault.typeName ++ ": ".toList ++
    fault.cause.message

/-- The wording of why following a key stopped. -/
def BindFault.message : BindFault → Text
  | conversion fault => fault.message
  | endless => "the key leads through the same types without end"

namespace Error

/-- What went wrong when a datum was written. -/
def ofWrite : WriteFault → Error
  | .serialize fault => .serialize fault
  | .encode fault => .encode fault

/-- The wording of an error. -/
def message : Error → Text
  | bind fault => fault.message
  | source name fault =>
    "failed to read source ".toList ++ name.ticked ++ ": ".toList ++ fault.message
  | encode fault => "encode failed: ".toList ++ fault.message
  | serialize fault => "serialize failed: ".toList ++ fault.message
  | decode fault => "deserialize failed: ".toList ++ fault.message

end Error

end KeyedText
