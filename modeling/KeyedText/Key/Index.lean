import KeyedText.Key.Bracket

/-!
# Indices

An index is what stands between two brackets of a key: a list position, a map key or the argument
of an indexer. Commas at depth zero divide it into tokens, of which composite map keys take one for
each component. Only outer blanks are dropped; case and inner blanks count.

## Main definitions

- `Index` — the text of an index and its tokens
- `Index.ofText` — reads an index
- `Index.same` — indices are the same when their tokens are
-/

namespace KeyedText

/-- The content of one pair of brackets: its text without outer blanks, and its tokens. -/
structure Index where
  text : Text
  tokens : List Text
  deriving DecidableEq, Repr, Inhabited

namespace Index

/-- Reads the content of a pair of brackets. -/
def ofText (content : Text) : Index where
  text := Text.trim content
  tokens := (Bracket.split ',' content).map Text.trim

/-- Indices are the same when their tokens are, so blanks around a comma do not count. -/
def same (left right : Index) : Bool :=
  left.tokens == right.tokens

/-- An index of several tokens. -/
def isComposite (index : Index) : Bool :=
  index.tokens.length > 1

/-- The index between its brackets. -/
def render (index : Index) : Text :=
  '[' :: index.text ++ [']']

end Index

end KeyedText
