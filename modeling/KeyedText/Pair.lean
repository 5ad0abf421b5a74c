import KeyedText.Key.Path

/-!
# Pairs

A pair is a key with a value. A value is a text or absent: a block that holds only blanks stands
for no value at all, which differs from an empty text.

## Main definitions

- `Pair` — a key path with its value
- `Pair.text` — the pair on one line
- `Pair.same` — equality up to the spelling of the key
-/

namespace KeyedText

/-- A key path together with its value, `none` when the value is absent. -/
structure Pair where
  key : KeyPath
  value : Option Text
  deriving DecidableEq, Repr, Inhabited

namespace Pair

/-- The pair of a key still to be read and a value taken as it is. -/
def ofText (key : Text) (value : Option Text) : Pair :=
  ⟨KeyPath.ofText key, value⟩

/-- The pair as `key=value`; an absent value shows as nothing. -/
def text (pair : Pair) : Text :=
  pair.key.render ++ '=' :: pair.value.getD []

/-- Pairs are the same when their keys are and their values are equal. -/
def same (left right : Pair) : Bool :=
  left.key.same right.key && left.value == right.value

/-- Lists of pairs are the same when their pairs are, one by one. -/
def sameAll : List Pair → List Pair → Bool
  | [], [] => true
  | left :: lefts, right :: rights => left.same right && sameAll lefts rights
  | _, _ => false

end Pair

end KeyedText
