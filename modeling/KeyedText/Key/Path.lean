import KeyedText.Key.Index
import KeyedText.Text.Case

/-!
# Key paths

A key addresses a value by a dotted path of names, each with any number of indices:
`kid[0].mom.jobs[1]`. Names are compared without outer blanks and case, indices by their tokens.
Every text is a key; a blank one is the empty path.

## Main definitions

- `KeyPart` — a name with its indices
- `KeyPath` — the parts of a key
- `KeyPath.ofText` — reads a key
- `KeyPath.same` — equality of keys
- `KeyPath.stripPrefix?` — the parts that follow a given path
-/

namespace KeyedText

/-- One dotted part of a key: the name as it was written, and the indices behind it. -/
structure KeyPart where
  name : Text
  indices : List Index
  deriving DecidableEq, Repr, Inhabited

namespace KeyPart

/-- Reads one part: the name ends at the first bracket. -/
def ofText (segment : Text) : KeyPart where
  name := segment.takeWhile (· ≠ '[')
  indices := (Bracket.bodies segment).map Index.ofText

/-- The form of the name that is compared. -/
def folded (part : KeyPart) : Text :=
  Text.fold part.name

/-- Whether the part has a given name. -/
def hasName (part : KeyPart) (name : Text) : Bool :=
  part.folded == Text.fold name

/-- What equality of parts looks at: the folded name, and the tokens of each index. -/
def identity (part : KeyPart) : Text × List (List Text) :=
  (part.folded, part.indices.map Index.tokens)

/-- Parts are the same when their folded names and the tokens of their indices are. -/
def same (left right : KeyPart) : Bool :=
  left.identity == right.identity

/-- The part as a key shows it: the name without outer blanks, then the indices. -/
def render (part : KeyPart) : Text :=
  Text.trim part.name ++ part.indices.flatMap Index.render

end KeyPart

/-- A key: its dotted parts in order. -/
structure KeyPath where
  parts : List KeyPart
  deriving DecidableEq, Repr, Inhabited

namespace KeyPath

/-- The key that addresses the target itself. -/
def empty : KeyPath := ⟨[]⟩

/-- Reads a key. Dots inside brackets belong to the index. -/
def ofText (text : Text) : KeyPath where
  parts := if Text.allBlank text then [] else (Bracket.split '.' text).map KeyPart.ofText

/-- What equality of keys looks at. -/
def identity (path : KeyPath) : List (Text × List (List Text)) :=
  path.parts.map KeyPart.identity

/-- Keys are the same when their parts are, one by one. -/
def same (left right : KeyPath) : Bool :=
  left.identity == right.identity

/-- Whether the first part has the given name. -/
def startsWith (path : KeyPath) (name : Text) : Bool :=
  match path.parts with
  | [] => false
  | part :: _ => part.hasName name

/-- The path without its first part. -/
def skip (path : KeyPath) : KeyPath :=
  ⟨path.parts.drop 1⟩

/-- The parts as a key shows them. -/
def render (path : KeyPath) : Text :=
  Text.join ['.'] (path.parts.map KeyPart.render)

/-- The parts that are left when the leading ones are the same as those of a given list. -/
def stripParts? : List KeyPart → List KeyPart → Option (List KeyPart)
  | [], parts => some parts
  | _ :: _, [] => none
  | lead :: leads, part :: parts => if part.same lead then stripParts? leads parts else none

/-- The parts of the path that follow a given one. -/
def stripPrefix? (lead path : KeyPath) : Option (List KeyPart) :=
  stripParts? lead.parts path.parts

end KeyPath

end KeyedText
