import KeyedText.Decoding.Fault
import KeyedText.Document.Content
import KeyedText.Scalar.Basic

/-!
# Inputs

What is decoded is a tree or a bare piece of text: an item of a list written on one line, or the key
of an entry. An input offers itself as a text, as a list, as entries with keys, as the fields of a
record or as a choice; each view has its own faults.

## Main definitions

- `Input` — a tree or a piece of text
- `Input.text` — the input as one text
- `Input.items` — the input as a list
- `Input.entries`, `Input.fields` — the input as entries of a map or fields of a record
- `Input.choice` — the input as a variant with its content
-/

namespace KeyedText

/-- A tree, or a bare piece of text. -/
inductive Input where
  | tree (tree : Tree)
  | piece (text : Text)
  deriving Inhabited

namespace Input

/-- The input as one text. -/
def text : Input → Except DecodeFault Text
  | piece part => .ok part
  | tree node =>
    match node.value with
    | some (some value) => .ok value
    | some none => .error .absentValue
    | none => .error .nestedKeys

/-- The input as a scalar. -/
def scalar (type : ScalarType) (input : Input) : Except DecodeFault Scalar := do
  let text ← input.text
  (type.read text).mapError (.unreadable text)

/-- An input with nothing in it. A piece of text is never that. -/
def isAbsent : Input → Bool
  | piece _ => false
  | tree node => node.isAbsent

/-- The pieces of the input's text between the separators; a blank text has none. -/
def pieces (separator : Char) (input : Input) : Except DecodeFault (List Input) :=
  if input.isAbsent then .ok []
  else do
    let text ← input.text
    if Text.allBlank text then .ok []
    else .ok ((Text.splitOn separator text).map fun piece => .piece (Text.trim piece))

/-- The input as a list: its items if it has any, otherwise the pieces of its text. -/
def items (separator : Char) (input : Input) : Except DecodeFault (List Input) :=
  match input with
  | piece _ => input.pieces separator
  | tree node =>
    if !node.items.isEmpty then
      match positions node.items with
      | .ok items => .ok (items.map .tree)
      | .error fault => .error (.positions fault)
    else if !node.members.isEmpty then .error .nestedMembers
    else input.pieces separator

/-- The items and the members of a tree under their keys. -/
def entriesOf (node : Tree) : List (Text × Input) :=
  node.items.map (fun entry => (entry.1, .tree entry.2)) ++
    node.members.map fun entry => (entry.1.written, .tree entry.2)

/-- The input as the entries of a map. -/
def entries : Input → Except DecodeFault (List (Text × Input))
  | piece _ => .error .plainValue
  | tree node =>
    if node.text?.isNone || !node.members.isEmpty || !node.items.isEmpty then
      .ok (entriesOf node)
    else .error .plainValue

/-- The name under which a member is presented: that of the first known one that folds to the same
form, or as it was written. -/
def presentedName (known : List Text) (name : Spelling) : Text :=
  (known.find? fun other => Text.fold other == name.folded).getD name.written

/-- The input as the fields of a record with the given names: its members. -/
def fields (known : List Text) : Input → Except DecodeFault (List (Text × Input))
  | piece _ => .error .plainValue
  | tree node =>
    .ok (node.members.map fun entry => (presentedName known entry.1, .tree entry.2))

/-- The variant that a text names: the first one that is equal up to the case of ASCII letters, or
the text itself. -/
def variantName (known : List Text) (text : Text) : Text :=
  (known.find? fun other => Text.sameIgnoringAsciiCase other text).getD text

/-- The input as a variant with its content: a single member, or the text as a variant without
content. -/
def choice (known : List Text) (input : Input) : Except DecodeFault (Text × Option Input) :=
  match input with
  | tree (.node _ [(name, content)] _) =>
    .ok (variantName known name.written, some (.tree content))
  | tree (.node _ (_ :: _ :: _) _) => .error .severalVariants
  | input => do
    let text ← input.text
    .ok (variantName known (Text.trim text), none)

/-- The input as JSON. -/
def content : Input → Json
  | piece part => .string part
  | tree node => node.content

end Input

end KeyedText
