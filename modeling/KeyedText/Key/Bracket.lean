import KeyedText.Text.Basic

/-!
# Brackets

Inside square brackets the separators of a key, `.`, `,` and `=`, are ordinary characters. All of
them are looked for at depth zero only, where the depth counts the brackets open so far; a closing
bracket too many leaves it at zero.

## Main definitions

- `Bracket.depthAfter` — the depth that a text leads to
- `Bracket.split` — the pieces between the separators at depth zero
- `Bracket.cut` — the text before and after the first separator at depth zero
- `Bracket.bodies` — what stands between the outermost brackets
-/

namespace KeyedText.Bracket

/-- The depth after one more character. -/
def step (depth : Nat) (c : Char) : Nat :=
  if c = '[' then depth + 1 else if c = ']' then depth - 1 else depth

/-- The depth after a text that starts at the given depth. -/
def depthAfter (depth : Nat) (text : Text) : Nat :=
  text.foldl step depth

/-- The pieces between the separators at depth zero, of a text that starts at the given depth. -/
def splitFrom (separator : Char) : Nat → Text → List Text
  | _, [] => [[]]
  | depth, c :: rest =>
    if c = separator ∧ depth = 0 then [] :: splitFrom separator 0 rest
    else Text.pushFront c (splitFrom separator (step depth c) rest)

/-- The pieces between the separators at depth zero. -/
def split (separator : Char) (text : Text) : List Text :=
  splitFrom separator 0 text

/-- What stands before and after the first separator at depth zero, in a text that starts at the
given depth. -/
def cutFrom (separator : Char) : Nat → Text → Option (Text × Text)
  | _, [] => none
  | depth, c :: rest =>
    if c = separator ∧ depth = 0 then some ([], rest)
    else (cutFrom separator (step depth c) rest).map fun (before, after) => (c :: before, after)

/-- What stands before and after the first separator at depth zero. -/
def cut (separator : Char) (text : Text) : Option (Text × Text) :=
  cutFrom separator 0 text

/-- The contents of the outermost brackets of a text. The state is `none` between brackets and
holds the depth reached inside of one; text between brackets is dropped, and a bracket that is
never closed runs to the end. -/
def bodiesFrom : Option Nat → Text → List Text
  | none, [] => []
  | some _, [] => [[]]
  | none, c :: rest => if c = '[' then bodiesFrom (some 0) rest else bodiesFrom none rest
  | some depth, c :: rest =>
    if c = '[' then Text.pushFront c (bodiesFrom (some (depth + 1)) rest)
    else if c = ']' then
      match depth with
      | 0 => [] :: bodiesFrom none rest
      | depth + 1 => Text.pushFront c (bodiesFrom (some depth) rest)
    else Text.pushFront c (bodiesFrom (some depth) rest)

/-- The contents of the outermost brackets of a text. -/
def bodies (text : Text) : List Text :=
  bodiesFrom none text

end KeyedText.Bracket
