import KeyedText.Cause

/-!
# Named values

A table gives names to whole numbers. A plain table names single values; the values of a flags
table can also be combined, and a text then joins their names with `|`. Names and aliases are
compared without regard to the case of ASCII letters, and the first hit in table order counts.

## Main definitions

- `EnumTable` — the names of a type's values
- `EnumTable.read` — the value that a text names
- `EnumTable.render` — the names of a value
-/

namespace KeyedText

/-- A value with its name and the other names that are read as it. -/
structure Variant where
  name : Text
  aliases : List Text
  value : Nat
  deriving DecidableEq, Repr, Inhabited

/-- Whether a text is the name or an alias of a variant. -/
def Variant.hasName (variant : Variant) (name : Text) : Bool :=
  Text.sameIgnoringAsciiCase variant.name name ||
    variant.aliases.any fun other => Text.sameIgnoringAsciiCase other name

/-- How the values of a flags table combine: bit by bit, or so that the later value replaces the
earlier one and contains only itself. A blank text stands for the empty value if there is one. -/
structure FlagRule where
  bitwise : Bool
  empty : Option Nat
  deriving DecidableEq, Repr, Inhabited

namespace FlagRule

/-- Two values combined. -/
def union (rule : FlagRule) (left right : Nat) : Nat :=
  if rule.bitwise then left ||| right else right

/-- Whether a value contains another one. -/
def contains (rule : FlagRule) (whole part : Nat) : Bool :=
  if rule.bitwise then whole &&& part == part else whole == part

end FlagRule

/-- The named values of a type. A table without a flag rule names single values only. -/
structure EnumTable where
  typeName : Text
  variants : List Variant
  flags : Option FlagRule
  deriving DecidableEq, Repr, Inhabited

namespace EnumTable

/-- The value of the first variant with a given name or alias. -/
def find (table : EnumTable) (name : Text) : Except Cause Nat :=
  match table.variants.find? fun variant => variant.hasName name with
  | some variant => .ok variant.value
  | none => .error (.unknownVariant name table.typeName)

/-- The values of several names combined, after the value combined so far. -/
def combine (table : EnumTable) (rule : FlagRule) (total : Nat) : List Text → Except Cause Nat
  | [] => .ok total
  | name :: rest => do
    let value ← table.find (Text.trim name)
    table.combine rule (rule.union total value) rest

/-- The value that a text names. -/
def read (table : EnumTable) (raw : Text) : Except Cause Nat :=
  let raw := Text.trim raw
  match table.flags with
  | none => table.find raw
  | some rule =>
    if raw.isEmpty then
      match rule.empty with
      | some value => .ok value
      | none => .error (.unknownVariant raw table.typeName)
    else
      match Text.splitOn '|' raw with
      | [] => .error (.unknownVariant raw table.typeName)
      | first :: rest => do
        let value ← table.find (Text.trim first)
        table.combine rule value rest

/-- The names of the variants that a value contains and that the names chosen before do not cover
already. The variants covered so far are given combined. -/
def cover (rule : FlagRule) (value : Nat) : Option Nat → List Variant → List Text
  | _, [] => []
  | covered, variant :: rest =>
    let known := match covered with
      | some total => rule.contains total variant.value
      | none => false
    if some variant.value == rule.empty || !rule.contains value variant.value || known then
      cover rule value covered rest
    else
      let total := match covered with
        | some total => rule.union total variant.value
        | none => variant.value
      variant.name :: cover rule value (some total) rest

/-- The text of a value: the name of the first variant that equals it, or for flags the names that
cover it. A value without names has an empty text. -/
def render (table : EnumTable) (value : Nat) : Text :=
  match table.variants.find? fun variant => variant.value = value with
  | some variant => variant.name
  | none =>
    match table.flags with
    | none => []
    | some rule => Text.join " | " (cover rule value none table.variants)

end EnumTable

end KeyedText
