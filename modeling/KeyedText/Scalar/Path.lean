import KeyedText.Text.Basic

/-!
# Paths

A path is a text in which slashes stand between names. Paths are compared by their parts and not by
their characters, so the same path can be spelled in several ways: it makes no difference how many
slashes stand in a row or at the end, nor whether a dot stands between two of them. Only at the
start of a path a dot is a part of its own.

## Main definitions

- `PathPart` — the root, the current directory, the parent of a directory, or a name
- `PathPart.ofPath` — the parts of a path
- `PathPart.rank` — the order of parts
-/

namespace KeyedText

/-- A part of a path. -/
inductive PathPart where
  | root
  | current
  | parent
  | name (text : Text)
  deriving DecidableEq, Repr, Inhabited

namespace PathPart

/-- The part that stands between two slashes, unless nothing or a dot does. -/
def ofPiece? (piece : Text) : Option PathPart :=
  if piece = [] ∨ piece = ['.'] then none
  else if piece = ['.', '.'] then some parent
  else some (name piece)

/-- The parts of a path. A path that starts with a slash starts at the root. -/
def ofPath (path : Text) : List PathPart :=
  match Text.splitOn '/' path with
  | [] => []
  | first :: rest =>
    let start :=
      if first = ['.'] then [current]
      else if first = [] ∧ rest ≠ [] then [root]
      else (ofPiece? first).toList
    start ++ rest.filterMap ofPiece?

/-- The place of a part: the root before the current directory, that before a parent, and names
behind them in the order of their characters, which no rank of a part goes on with. -/
def rank : PathPart → List Int
  | root => [0]
  | current => [1]
  | parent => [2]
  | name text => 3 :: text.map fun c => (c.toNat : Int) + 4

end PathPart

end KeyedText
