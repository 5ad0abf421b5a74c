import KeyedText.Source.Line

/-!
# Lines one at a time

The lines of a source are found in its bytes, by a search for the next line feed. Between two lines
nothing is kept but the offset at which the next one starts, the number of lines so far, and whether
the last line was found. A carriage return is found by looking back from the line feed, but not
beyond the start of the line.

## Main definitions

- `LineCursor` — what is kept between two lines
- `LineCursor.next?` — finds the next line
- `LineCursor.spans` — finds all lines that are left
-/

namespace KeyedText

/-- Where the search for lines stands: the offset of the next line, the number of lines so far, and
whether the last line was found. -/
structure LineCursor where
  position : Nat := 0
  number : Nat := 0
  done : Bool := false
  deriving DecidableEq, Repr

namespace LineCursor

/-- The number of bytes between an offset and the next line feed. -/
def feed? (bytes : List UInt8) (position : Nat) : Option Nat :=
  (bytes.drop position).findIdx? (· == 10)

/-- Where the content of a line ends that goes from one offset up to a line feed at another: in
front of a carriage return, if the line has one there. -/
def contentEnd (bytes : List UInt8) (start newline : Nat) : Nat :=
  if start < newline ∧ bytes[newline - 1]? = some 13 then newline - 1 else newline

/-- The next line, and the cursor behind it. What follows the last line feed is the last line. -/
def next? (bytes : List UInt8) (cursor : LineCursor) : Option (Span × LineCursor) :=
  if cursor.done then none
  else
    let start := cursor.position
    let number := cursor.number + 1
    match feed? bytes start with
    | some offset =>
      let newline := start + offset
      some (⟨number, start, contentEnd bytes start newline, newline + 1⟩,
        ⟨newline + 1, number, false⟩)
    | none => some (⟨number, start, bytes.length, bytes.length⟩, ⟨bytes.length, number, true⟩)

/-- The number of steps that may be left. -/
def left (bytes : List UInt8) (cursor : LineCursor) : Nat :=
  if cursor.done then 0 else bytes.length - cursor.position + 1

/-- Each step goes beyond a line feed or is the last one. -/
theorem left_lt_of_next? {bytes : List UInt8} {cursor later : LineCursor} {span : Span}
    (h : cursor.next? bytes = some (span, later)) : later.left bytes < cursor.left bytes := by
  rw [next?] at h
  split at h
  · exact absurd h (by simp)
  · next hdone =>
    dsimp only at h
    rw [left, left, if_neg hdone]
    split at h
    · next offset hfeed =>
      obtain ⟨hoffset, -⟩ := List.findIdx?_eq_some_iff_getElem.1 hfeed
      rw [List.length_drop] at hoffset
      obtain ⟨rfl, rfl⟩ := Prod.mk.inj (Option.some.inj h)
      simp only [Bool.false_eq_true, if_false]
      omega
    · obtain ⟨rfl, rfl⟩ := Prod.mk.inj (Option.some.inj h)
      simp

/-- The lines that are left. -/
def spans (bytes : List UInt8) (cursor : LineCursor) : List Span :=
  match _h : cursor.next? bytes with
  | none => []
  | some (span, later) => span :: later.spans bytes
termination_by cursor.left bytes
decreasing_by exact left_lt_of_next? _h

end LineCursor

end KeyedText
