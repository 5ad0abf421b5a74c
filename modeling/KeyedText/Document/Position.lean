import KeyedText.Number.Integer

/-!
# List positions

Items with indices make up a list when their indices, read as positions, are exactly the numbers
below the number of items, in any order.

## Main definitions

- `PositionFault` — why some items make up no list
- `positions` — items in the order of their positions
-/

namespace KeyedText

/-- Why some items make up no list. -/
inductive PositionFault where
  | notPosition (index : Text)
  | pastEnd (position count : Nat)
  | missing (position : Nat)
  deriving DecidableEq, Repr

/-- Puts items into the places that their indices name; an item whose place is taken replaces the
one there. -/
def place {α : Type} : List (Text × α) → List (Option α) → Except PositionFault (List (Option α))
  | [], places => .ok places
  | (index, item) :: rest, places =>
    match readPosition? index with
    | none => .error (.notPosition index)
    | some position =>
      if position < places.length then place rest (places.set position (some item))
      else .error (.pastEnd position places.length)

/-- The items of some places from a given position on, unless one of them is empty. -/
def collect {α : Type} (position : Nat) : List (Option α) → Except PositionFault (List α)
  | [] => .ok []
  | none :: _ => .error (.missing position)
  | some item :: rest => do
    let items ← collect (position + 1) rest
    .ok (item :: items)

/-- Items in the order of their positions. -/
def positions {α : Type} (items : List (Text × α)) : Except PositionFault (List α) := do
  let places ← place items (List.replicate items.length none)
  collect 0 places

end KeyedText
