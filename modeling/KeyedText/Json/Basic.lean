import KeyedText.Entries
import KeyedText.Number.Shortest

/-!
# JSON values

A JSON value with its numbers as they are kept: whole numbers exactly, others as floating numbers of
double width. The members of an object stand in their order; a name that occurs again is kept until
the object is merged, where the last value counts and stands in the first place.

## Main definitions

- `Json` — a JSON value
- `Json.merged` — the value with every name of an object once
- `Json.numeral` — the text of a number
-/

namespace KeyedText

/-- A JSON value. -/
inductive Json where
  | null
  | bool (b : Bool)
  | integer (n : Int)
  | binary (x : Binary)
  | string (t : Text)
  | array (items : List Json)
  | object (entries : List (Text × Json))
  deriving Inhabited

namespace Json

mutual

/-- The value with each name of its objects once. -/
def merged : Json → Json
  | .array items => .array (mergedItems items)
  | .object entries => .object (Entries.ofList (mergedEntries entries))
  | value => value

/-- The items of an array with each name of their objects once. -/
def mergedItems : List Json → List Json
  | [] => []
  | item :: items => item.merged :: mergedItems items

/-- The values of an object with each name of their objects once. -/
def mergedEntries : List (Text × Json) → List (Text × Json)
  | [] => []
  | (name, value) :: rest => (name, value.merged) :: mergedEntries rest

end

/-- The text of a floating number. -/
def numeral (x : Binary) : Text :=
  x.text .double

end Json

end KeyedText
