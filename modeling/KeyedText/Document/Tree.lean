import KeyedText.Key.Step
import KeyedText.Pair

/-!
# Trees of values

All pairs of a source taken together form a tree: each node may bear a value, named members and
indexed items. Members with names that are the same up to case and outer blanks share one node,
spelled as it was written first; items share a node when the texts of their indices are equal. The
last value written to a node counts.

## Main definitions

- `Tree` — a node with everything below it
- `Tree.write` — a tree with one more value
- `Tree.ofPairs` — the tree of some pairs
- `Tree.walk?` — the node at the end of some steps
-/

namespace KeyedText

/-- The name of a member: the form that is compared, and the form that it was written in first. -/
structure Spelling where
  folded : Text
  written : Text
  deriving DecidableEq, Repr, Inhabited

/-- The spelling of a name. -/
def Spelling.ofName (name : Text) : Spelling :=
  ⟨Text.fold name, Text.trim name⟩

/-- A node: the value written to it, if any, which may be absent; its members and its items, both in
the order in which they were first written. -/
inductive Tree where
  | node (value : Option (Option Text)) (members : List (Spelling × Tree))
      (items : List (Text × Tree))
  deriving Inhabited

namespace Tree

/-- A node with nothing in it. -/
def empty : Tree := .node none [] []

/-- The value written to the node. -/
def value : Tree → Option (Option Text)
  | node value _ _ => value

/-- The members of the node. -/
def members : Tree → List (Spelling × Tree)
  | node _ members _ => members

/-- The items of the node. -/
def items : Tree → List (Text × Tree)
  | node _ _ items => items

/-- The text written to the node. -/
def text? (tree : Tree) : Option Text :=
  tree.value.join

/-- A node without text, members and items. -/
def isAbsent (tree : Tree) : Bool :=
  tree.text?.isNone && tree.members.isEmpty && tree.items.isEmpty

/-- Applies a change to the member of a name, which is added if it is not there yet. -/
def updateMember (name : Spelling) (change : Tree → Tree) :
    List (Spelling × Tree) → List (Spelling × Tree)
  | [] => [(name, change empty)]
  | entry :: rest =>
    if entry.1.folded == name.folded then (entry.1, change entry.2) :: rest
    else entry :: updateMember name change rest

/-- Applies a change to the item of an index, which is added if it is not there yet. -/
def updateItem (index : Text) (change : Tree → Tree) :
    List (Text × Tree) → List (Text × Tree)
  | [] => [(index, change empty)]
  | entry :: rest =>
    if entry.1 == index then (entry.1, change entry.2) :: rest
    else entry :: updateItem index change rest

/-- The tree with a value written to the node at the end of some steps. -/
def write (value : Option Text) : List Step → Tree → Tree
  | [], .node _ members items => .node (some value) members items
  | .member name :: rest, .node held members items =>
    .node held (updateMember (Spelling.ofName name) (write value rest) members) items
  | .index index :: rest, .node held members items =>
    .node held members (updateItem index.text (write value rest) items)

/-- The tree of some pairs, written one after the other. -/
def ofPairs (pairs : List Pair) : Tree :=
  pairs.foldl (fun tree pair => tree.write pair.value (stepsOf pair.key.parts)) empty

/-- The member whose name has the given folded form. -/
def member? (tree : Tree) (folded : Text) : Option Tree :=
  (tree.members.find? fun entry => entry.1.folded == folded).map (·.2)

/-- The item of an index. -/
def item? (tree : Tree) (index : Text) : Option Tree :=
  (tree.items.find? fun entry => entry.1 == index).map (·.2)

/-- The node at the end of some steps. -/
def walk? : List Step → Tree → Option Tree
  | [], tree => some tree
  | .member name :: rest, tree => (tree.member? (Text.fold name)).bind (walk? rest)
  | .index index :: rest, tree => (tree.item? index.text).bind (walk? rest)

mutual

/-- How many nodes lie below one another in a tree. -/
def depth : Tree → Nat
  | .node _ members items => 1 + max (depthOfMembers members) (depthOfItems items)

/-- The greatest depth of some members. -/
def depthOfMembers : List (Spelling × Tree) → Nat
  | [] => 0
  | (_, tree) :: rest => max tree.depth (depthOfMembers rest)

/-- The greatest depth of some items. -/
def depthOfItems : List (Text × Tree) → Nat
  | [] => 0
  | (_, tree) :: rest => max tree.depth (depthOfItems rest)

end

end Tree

end KeyedText
