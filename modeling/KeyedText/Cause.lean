import KeyedText.Calendar.Reading
import KeyedText.Number.Binary

/-!
# Causes

Why a text could not be written into a slot. Each fault is a constructor with the data that its
wording needs; the wording itself is `Cause.message`.

## Main definitions

- `Cause` — what is wrong with a value, an index or a name
- `Cause.message` — the wording
-/

namespace KeyedText

/-- Why a text could not be converted into the value of a slot. -/
inductive Cause where
  | unknownVariant (value typeName : Text)
  | unknownType (name : Text)
  | typeMismatch (name expected : Text)
  | unknownConverter (name : Text)
  | unsupportedTarget (converter typeName : Text)
  | invalidPosition (index : Text)
  | positionOutOfRange (position length : Nat)
  | indexArity (expected found : Nat)
  | invalidBool (raw : Text)
  | invalidChar (raw : Text)
  | notAssignable (typeName : Text)
  | integer (fault : IntegerFault)
  | binary (fault : BinaryFault)
  | calendar (fault : CalendarFault)
  | other (message : Text)
  deriving DecidableEq, Repr

/-- The wording of a fault of an integer. -/
def IntegerFault.message : IntegerFault → Text
  | empty => "cannot parse integer from empty string"
  | invalidDigit => "invalid digit found in string"
  | tooLarge => "number too large to fit in target type"
  | tooSmall => "number too small to fit in target type"

/-- The wording of a fault of a floating number. -/
def BinaryFault.message : BinaryFault → Text
  | empty => "cannot parse float from empty string"
  | invalid => "invalid float literal"

/-- The wording of a fault of a date or time. -/
def CalendarFault.message : CalendarFault → Text
  | invalid => "input contains invalid characters"
  | tooShort => "premature end of input"
  | trailing => "trailing input"
  | outOfRange => "input is out of range"

/-- A name as messages set it off. -/
def Text.ticked (text : Text) : Text :=
  '`' :: text ++ ['`']

/-- The wording of a cause. -/
def Cause.message : Cause → Text
  | unknownVariant value typeName => value.ticked ++ " is not a variant of ".toList ++ typeName
  | unknownType name => "no type registered under ".toList ++ name.ticked
  | typeMismatch name expected =>
    "type ".toList ++ name.ticked ++ " does not produce ".toList ++ expected
  | unknownConverter name => "no converter registered under ".toList ++ name.ticked
  | unsupportedTarget converter typeName =>
    "converter ".toList ++ converter.ticked ++ " cannot write into ".toList ++ typeName
  | invalidPosition index => index.ticked ++ " is not a list position".toList
  | positionOutOfRange position length =>
    "list position ".toList ++ Text.ofNat position ++ " is too far past the end of ".toList ++
      Text.ofNat length ++ " item(s)".toList
  | indexArity expected found =>
    "index expects ".toList ++ Text.ofNat expected ++ " component(s), found ".toList ++
      Text.ofNat found
  | invalidBool raw => raw.ticked ++ " is not a boolean".toList
  | invalidChar raw => raw.ticked ++ " is not a single character".toList
  | notAssignable typeName =>
    typeName ++ " cannot be assigned from text, index it instead".toList
  | integer fault => fault.message
  | binary fault => fault.message
  | calendar fault => fault.message
  | other message => message

end KeyedText
