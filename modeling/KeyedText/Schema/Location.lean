import KeyedText.Schema.Slot

/-!
# Locations

A place in a slot is a slot inside of it, named by the turns that lead there: into the content of an
optional value or a box, to a field, to a position of a list, to the entry of a key.

Maps that have no order of their own hand out their entries in an order that depends on a hasher and
on what happened to the map before. It differs from map to map and from run to run, so it is not
part of a slot: there the entries of such a map are a set. What is done with the entries goes by an
order that is given for each of these maps by its place.

## Main definitions

- `Turn`, `Location` — the way to a slot inside of a slot
- `HashOrder` — the orders in which hashed maps hand out their entries
- `Slot.arrange` — a slot with its hashed maps in these orders
-/

namespace KeyedText

/-- A turn on the way from a slot to one inside of it. -/
inductive Turn where
  | content
  | field (name : Text)
  | position (n : Nat)
  | key (key : MapKey)
  deriving DecidableEq, Repr

/-- The turns that lead to a slot inside of a slot. -/
abbrev Location := List Turn

/-- The orders in which the hashed maps in a slot hand out their entries: keys with smaller numbers
come first. -/
abbrev HashOrder := Location → MapKey → Nat

/-- The orders of the maps behind a turn. -/
def HashOrder.behind (order : HashOrder) (turn : Turn) : HashOrder :=
  fun place => order (turn :: place)

/-- The entries as a map hands them out. -/
def MapKind.handOut {α : Type} (kind : MapKind) (rank : MapKey → Nat)
    (entries : List (MapKey × α)) : List (MapKey × α) :=
  match kind with
  | hashed => entries.mergeSort fun left right => decide (rank left.1 ≤ rank right.1)
  | _ => entries

mutual

/-- The slot with the entries of hashed maps in the order in which they are handed out. -/
def Slot.arrange : HashOrder → Slot → Slot
  | _, .scalar value => .scalar value
  | _, .vacant content => .vacant content
  | order, .filled content => .filled (content.arrange (order.behind .content))
  | order, .boxed content => .boxed (content.arrange (order.behind .content))
  | order, .list element items => .list element (arrangeItems order 0 items)
  | order, .map typeName kind key element entries =>
    .map typeName kind key element (kind.handOut (order []) (arrangeEntries order entries))
  | order, .object typeName fields => .object typeName (arrangeFields order fields)
  | _, .reference name => .reference name
  | _, .unset => .unset
  | order, .dynamic name typeName fields => .dynamic name typeName (arrangeFields order fields)

/-- The items of a list from a position on with their hashed maps arranged. -/
def arrangeItems : HashOrder → Nat → List Slot → List Slot
  | _, _, [] => []
  | order, position, slot :: rest =>
    slot.arrange (order.behind (.position position)) :: arrangeItems order (position + 1) rest

/-- The entries of a map with the hashed maps in them arranged. -/
def arrangeEntries : HashOrder → List (MapKey × Slot) → List (MapKey × Slot)
  | _, [] => []
  | order, (key, slot) :: rest =>
    (key, slot.arrange (order.behind (.key key))) :: arrangeEntries order rest

/-- The fields of an object with the hashed maps in them arranged. -/
def arrangeFields : HashOrder → List (Text × Slot) → List (Text × Slot)
  | _, [] => []
  | order, (field, slot) :: rest =>
    (field, slot.arrange (order.behind (.field field))) :: arrangeFields order rest

end

end KeyedText
