import KeyedText.Key.Path

/-!
# Steps

A key leads from step to step: each of its parts enters a member and then goes on to what its
indices address, one after the other.

## Main definitions

- `Step` — a step into a member or to what an index addresses
- `stepsOf` — the steps of some parts of a key
-/

namespace KeyedText

/-- A step along a key: into a member, or to what an index addresses. -/
inductive Step where
  | member (name : Text)
  | index (index : Index)
  deriving DecidableEq, Repr

/-- The steps of one part of a key. -/
def KeyPart.steps (part : KeyPart) : List Step :=
  .member part.name :: part.indices.map .index

/-- The steps of the parts of a key. -/
def stepsOf (parts : List KeyPart) : List Step :=
  parts.flatMap KeyPart.steps

end KeyedText
