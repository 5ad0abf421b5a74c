import KeyedText.Document.Position
import KeyedText.Document.Tree
import KeyedText.Json.Basic

/-!
# Trees as JSON

Without a description of what it holds a tree is shown as JSON: a node with members is an object,
which begins with the items; a node with items only is an array if they make up a list and an object
otherwise; any other node is its text, or null without one.

## Main definitions

- `Tree.content` — a tree as JSON, where a member and an item may share a name
- `Json.ofTree` — a tree as JSON, where each name counts once
-/

namespace KeyedText

mutual

/-- A tree as JSON. An object may hold an item and a member of the same name. -/
def Tree.content : Tree → Json
  | .node value members items =>
    let members := contentOfMembers members
    let items := contentOfItems items
    if !members.isEmpty then .object (items ++ members)
    else if !items.isEmpty then
      match positions items with
      | .ok items => .array items
      | .error _ => .object items
    else
      match value.join with
      | some text => .string text
      | none => .null

/-- The members of a node under their names. -/
def contentOfMembers : List (Spelling × Tree) → List (Text × Json)
  | [] => []
  | (name, tree) :: rest => (name.written, tree.content) :: contentOfMembers rest

/-- The items of a node under their indices. -/
def contentOfItems : List (Text × Tree) → List (Text × Json)
  | [] => []
  | (index, tree) :: rest => (index, tree.content) :: contentOfItems rest

end

/-- A tree as JSON, with each name of an object once. -/
def Json.ofTree (tree : Tree) : Json :=
  tree.content.merged

end KeyedText
