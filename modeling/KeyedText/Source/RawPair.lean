import KeyedText.Source.Line
import KeyedText.Key.Bracket
import KeyedText.Pair

/-!
# Pairs of a source

A line `key = value` with an equals sign outside brackets is a pair; other lines are skipped. A
value that is just `{` opens a block, whose value is the text of the following lines up to the first
one that holds nothing but `}`. A block of blanks has an absent value, and a `{` that no line closes
is a value like any other.

## Main definitions

- `splitAssignment` — the key and the rest of a line
- `RawPair` — a key and a value as they stand in the source
- `RawPair.ofLines` — the pairs of a sequence of lines
- `RawPair.ofText` — the pairs of a source
-/

namespace KeyedText

/-- The key of a line, without outer blanks, and what follows the first equals sign outside
brackets. A line without such a sign or without a key is no assignment. -/
def splitAssignment (line : Text) : Option (Text × Text) :=
  match Bracket.cut '=' line with
  | none => none
  | some (before, after) =>
    if Text.allBlank before then none else some (Text.trim before, after)

/-- Whether the rest of an assignment opens a block. -/
def opensBlock (rest : Text) : Bool :=
  Text.trim rest == ['\x7b']

/-- Whether a line closes a block. -/
def closesBlock (line : Text) : Bool :=
  Text.trim line == ['\x7d']

/-- A key and a value as they stand in the source, with the number of the line that they start
on. The value of a block of blanks is absent. -/
structure RawPair where
  key : Text
  value : Option Text
  line : Nat
  deriving DecidableEq, Repr, Inhabited

namespace RawPair

/-- What the lines read so far leave open: nothing, or a block with its key, the number of its
first line and the lines in it, the last one first. -/
inductive Mode where
  | between
  | block (key : Text) (line : Nat) (body : List Line)

/-- The value of a block with the given lines. -/
def blockValue (body : List Line) : Option Text :=
  let text := Line.joined body
  if Text.allBlank text then none else some text

/-- The pairs of the lines from a given number on. A block is opened only when some later line
closes it. -/
def scan : Mode → Nat → List Line → List RawPair
  | _, _, [] => []
  | .block key opened body, number, line :: rest =>
    if closesBlock line.content then
      ⟨key, blockValue body.reverse, opened⟩ :: scan .between (number + 1) rest
    else scan (.block key opened (line :: body)) (number + 1) rest
  | .between, number, line :: rest =>
    match splitAssignment line.content with
    | none => scan .between (number + 1) rest
    | some (key, value) =>
      if opensBlock value && rest.any fun later => closesBlock later.content then
        scan (.block key number []) (number + 1) rest
      else ⟨key, some (Text.trim value), number⟩ :: scan .between (number + 1) rest

/-- The pairs of a sequence of lines, the first of which has number one. -/
def ofLines (lines : List Line) : List RawPair :=
  scan .between 1 lines

/-- The pairs of a source. -/
def ofText (text : Text) : List RawPair :=
  ofLines (Line.ofText text)

/-- The pair with its key read. -/
def toPair (raw : RawPair) : Pair :=
  Pair.ofText raw.key raw.value

end RawPair

end KeyedText
