import KeyedText.Text.Basic

/-!
# Entries

Values by name, in the order in which the names were first given. A name that is given again keeps
its place and takes the new value.

## Main definitions

- `Entries` — values by name
- `Entries.get?` — the value of a name
- `Entries.insert` — the entries with a value for a name
- `Entries.erase` — the entries without a name
- `Entries.ofList` — the entries with each name once
-/

namespace KeyedText

/-- Values by name. -/
abbrev Entries (α : Type) := List (Text × α)

namespace Entries

variable {α : Type}

/-- The value of a name, the first one if there are several. -/
def get? (name : Text) (entries : Entries α) : Option α :=
  (entries.find? fun entry => entry.1 == name).map (·.2)

/-- The entries with the value of a name replaced, or added at the end. -/
def insert (name : Text) (value : α) : Entries α → Entries α
  | [] => [(name, value)]
  | entry :: rest =>
    if entry.1 == name then (name, value) :: rest else entry :: insert name value rest

/-- The entries without those of a name. -/
def erase (name : Text) (entries : Entries α) : Entries α :=
  entries.filter fun entry => entry.1 != name

/-- The entries with each name once, in the place where it occurs first and with its last value. -/
def ofList (entries : List (Text × α)) : Entries α :=
  entries.foldl (fun entries entry => insert entry.1 entry.2 entries) []

end Entries

end KeyedText
