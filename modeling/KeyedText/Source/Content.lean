import KeyedText.Source.RawPair

/-!
# Content

Content is everything read from one or more sources: their pairs one source after the other, and
the names of the sources. Each source is read on its own, so a block that one of them leaves open
does not reach into the next.

## Main definitions

- `Content` — pairs and the sources they come from
- `Content.addSource` — the content with one more source
- `Content.ofText` — the content of a text given in place
-/

namespace KeyedText

/-- The pairs of some sources, in order, and the names of the sources. -/
structure Content where
  pairs : List Pair
  sources : List Text
  deriving DecidableEq, Repr

namespace Content

/-- No content at all. -/
def empty : Content := ⟨[], []⟩

/-- The pairs of a text, with their keys read. -/
def readPairs (text : Text) : List Pair :=
  (RawPair.ofText text).map RawPair.toPair

/-- The content with the pairs of one more source at the end. -/
def addSource (content : Content) (name text : Text) : Content :=
  ⟨content.pairs ++ readPairs text, content.sources ++ [name]⟩

/-- The content with one more pair, which belongs to no source. -/
def push (content : Content) (pair : Pair) : Content :=
  { content with pairs := content.pairs ++ [pair] }

/-- The name of a source that is given in place. -/
def inlineName : Text := "<inline>"

/-- The content of a text given in place. -/
def ofText (text : Text) : Content :=
  empty.addSource inlineName text

/-- The content of several named sources, in order. -/
def ofSources (sources : List (Text × Text)) : Content :=
  sources.foldl (fun content (name, text) => content.addSource name text) empty

end Content

end KeyedText
