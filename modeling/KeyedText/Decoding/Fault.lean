import KeyedText.Cause
import KeyedText.Document.Position
import KeyedText.Text.Quoted

/-!
# Decoding faults

What is wrong with a tree that was to be decoded, and how it is worded.

## Main definitions

- `DecodeFault` — what is wrong
- `DecodeFault.message` — the wording
-/

namespace KeyedText

/-- How a variant of a choice bears its content: not at all, as one value, as several values in a
row or as named fields. -/
inductive CaseKind where
  | unit
  | single
  | tuple
  | record
  deriving DecidableEq, Repr, Inhabited

/-- What is wrong with a tree that was to be decoded. -/
inductive DecodeFault where
  | absentValue
  | nestedKeys
  | plainValue
  | nestedMembers
  | unreadable (text : Text) (cause : Cause)
  | positions (fault : PositionFault)
  | severalVariants
  | bareVariant (kind : CaseKind)
  | unknownVariant (name : Text) (known : List Text)
  | unknownField (name : Text) (known : List Text)
  | missingField (name : Text)
  | duplicateField (name : Text)
  | wrongLength (found : Nat) (expected : Text)
  | wrongType (found expected : Text)
  | noAlternative (title : Text)
  | valueWithoutKey
  | unknownShape (name : Text)
  deriving DecidableEq, Repr

/-- The wording of why some items make up no list. -/
def PositionFault.message : PositionFault → Text
  | notPosition index => index.ticked ++ " is not a list position".toList
  | pastEnd position count =>
    "list position ".toList ++ Text.ofNat position ++ " is past the end of ".toList ++
      Text.ofNat count ++ " item(s)".toList
  | missing position => "list position ".toList ++ Text.ofNat position ++ " is missing".toList

/-- What a variant with a kind of content is called. -/
def CaseKind.title : CaseKind → Text
  | unit => "unit variant"
  | single => "newtype variant"
  | tuple => "tuple variant"
  | record => "struct variant"

/-- The names that would have been known, as messages list them after the unknown one. -/
def expectedNames (nothing : Text) : List Text → Text
  | [] => nothing
  | [name] => "expected ".toList ++ name.ticked
  | [first, second] => "expected ".toList ++ first.ticked ++ " or ".toList ++ second.ticked
  | names => "expected one of ".toList ++ Text.join ", " (names.map Text.ticked)

/-- The wording of a fault. -/
def DecodeFault.message : DecodeFault → Text
  | absentValue => "value is absent"
  | nestedKeys => "expected a value, found nested keys"
  | plainValue => "expected nested keys, found a value"
  | nestedMembers => "expected a list, found nested members"
  | unreadable text cause => text.ticked ++ ": ".toList ++ cause.message
  | positions fault => fault.message
  | severalVariants => "expected a single variant key"
  | bareVariant kind => "expected ".toList ++ kind.title
  | unknownVariant name known =>
    "unknown variant ".toList ++ name.ticked ++ ", ".toList ++
      expectedNames "there are no variants" known
  | unknownField name known =>
    "unknown field ".toList ++ name.ticked ++ ", ".toList ++
      expectedNames "there are no fields" known
  | missingField name => "missing field ".toList ++ name.ticked
  | duplicateField name => "duplicate field ".toList ++ name.ticked
  | wrongLength found expected =>
    "invalid length ".toList ++ Text.ofNat found ++ ", expected ".toList ++ expected
  | wrongType found expected =>
    "invalid type: ".toList ++ found ++ ", expected ".toList ++ expected
  | noAlternative title => "data did not match any variant of untagged enum ".toList ++ title
  | valueWithoutKey => "value is missing for key"
  | unknownShape name => "unknown shape ".toList ++ name.ticked

end KeyedText
