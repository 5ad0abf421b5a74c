import KeyedText.Pair

/-!
# Lookup

A lookup answers which values were written under a key. Keys that are the same share one entry,
spelled as it was first written; entries stand in the order of their first pairs, and the values of
an entry in the order of the pairs.

## Main definitions

- `Lookup` — the entries by key
- `Lookup.ofPairs` — the lookup over some pairs
- `Lookup.get?` — every value of a key
- `Lookup.value?` — the last value of a key
-/

namespace KeyedText

/-- The values written under each key, by first occurrence of the key. -/
structure Lookup where
  entries : List (KeyPath × List (Option Text))
  deriving DecidableEq, Repr

namespace Lookup

/-- The entries with one more value under a key. -/
def insert (key : KeyPath) (value : Option Text) :
    List (KeyPath × List (Option Text)) → List (KeyPath × List (Option Text))
  | [] => [(key, [value])]
  | entry :: rest =>
    if entry.1.same key then (entry.1, entry.2 ++ [value]) :: rest
    else entry :: insert key value rest

/-- The lookup over some pairs. -/
def ofPairs (pairs : List Pair) : Lookup :=
  ⟨pairs.foldl (fun entries pair => insert pair.key pair.value entries) []⟩

/-- Every value written under a key, in order; `none` when the key was never written. -/
def get? (lookup : Lookup) (key : KeyPath) : Option (List (Option Text)) :=
  (lookup.entries.find? fun entry => entry.1.same key).map (·.2)

/-- Whether a key was written at all. -/
def contains (lookup : Lookup) (key : KeyPath) : Bool :=
  (lookup.get? key).isSome

/-- The last value written under a key; `none` also when that value is absent. -/
def value? (lookup : Lookup) (key : KeyPath) : Option Text :=
  ((lookup.get? key).bind List.getLast?).join

/-- Every value written under a key, in order. -/
def all (lookup : Lookup) (key : KeyPath) : List (Option Text) :=
  (lookup.get? key).getD []

/-- The keys in the order in which they were first written. -/
def keys (lookup : Lookup) : List KeyPath :=
  lookup.entries.map (·.1)

/-- The number of different keys. -/
def size (lookup : Lookup) : Nat :=
  lookup.entries.length

end Lookup

end KeyedText
