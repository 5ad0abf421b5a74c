import KeyedText.Proofs.Binding.Lists
import KeyedText.Proofs.Binding.Places

/-!
# Runs of writes to positions

Values are written to positions of a list of scalars, one after the other, until one is refused. A
position behind the end makes the list longer, up to a limit for each write; what a write does not
reach keeps its value, and what comes into being next to it has the value of a new scalar.

## Main definitions

- `PositionWrite` — a text for a position, with the value that it stands for
- `PositionWrite.Refused` — the writes that a list of a given length does not take
- `PositionWrite.Accepted` — writes that are taken one after the other
- `PositionWrite.valuesAfter` — the values of a list after some writes

## Main statements

- `PositionWrite.refused_iff` — how far behind the end of a list a position may be
- `PositionWrite.bind_refused`, `PositionWrite.bind_accepted` — what one write does to a list
- `PositionWrite.valuesAfter_cons` — what several writes do is what they do one after the other
- `Object.populate_writes` — what a run of writes does to a list
-/

namespace KeyedText

/-- A text for the position that an index names, and the value that the text stands for. -/
structure PositionWrite where
  index : Index
  raw : Text
  value : Scalar
  deriving DecidableEq, Repr

namespace PositionWrite

/-- The position that the index names, if it is one. -/
def position? (write : PositionWrite) : Option Nat :=
  readPosition? write.index.text

/-- The pair that writes to a position of a member. -/
def pair (name : Text) (write : PositionWrite) : Pair :=
  ⟨⟨[⟨name, [write.index]⟩]⟩, some write.raw⟩

/-- A list of a given length does not take a write whose index is no position, or whose position
lies so far behind the end that too many items are missing, or is the last one that can be named. -/
def Refused (length : Nat) (write : PositionWrite) : Prop :=
  write.position? = none ∨ ∃ position, write.position? = some position ∧
    (positionGap < position + 1 - length ∨ length ≤ position ∧ position + 1 = 2 ^ 64)

/-- Why a list of a given length does not take a write. -/
def refusal (length : Nat) (write : PositionWrite) : Cause :=
  match write.position? with
  | none => .invalidPosition write.index.text
  | some position => .positionOutOfRange position length

/-- The fault of a write to a member of an object that holds a list of a given length. -/
def fault (schema : Schema) (target : Object) (name : Text) (member : Member) (length : Nat)
    (write : PositionWrite) : BindFault :=
  .conversion
    { key := (write.pair name).key.render
      raw := some write.raw
      member := member.name
      typeName := (schema.find target.typeName).label
      cause := write.refusal length }

/-- The number of items that a write needs. -/
def reach (write : PositionWrite) : Nat :=
  (write.position?.map (· + 1)).getD 0

/-- The length of a list after some writes. -/
def lengthAfter (length : Nat) (writes : List PositionWrite) : Nat :=
  writes.foldl (fun length write => max length write.reach) length

/-- Each of the writes is taken by the list that those before it leave behind. -/
def Accepted (length : Nat) (writes : List PositionWrite) : Prop :=
  ∀ earlier write later, writes = earlier ++ write :: later →
    ¬write.Refused (lengthAfter length earlier)

/-- The value of the last write to a position. -/
def last? (position : Nat) (writes : List PositionWrite) : Option Scalar :=
  (writes.reverse.find? fun write => write.position? == some position).map value

/-- The values of a list after some writes: at each position the last value written there, or else
the one that was there, or else that of a new item. -/
def valuesAfter (fresh : Scalar) (items : List Scalar) (writes : List PositionWrite) :
    List Scalar :=
  (List.range (lengthAfter items.length writes)).map fun position =>
    (last? position writes).getD (items[position]?.getD fresh)

variable {length position : Nat} {fresh : Scalar} {items : List Scalar} {write : PositionWrite}
  {writes : List PositionWrite}

/-! ## Closed forms -/

/-- For a list that fits into memory the last position that can be named is no exception. -/
theorem refused_iff (h : length + positionGap < 2 ^ 64) :
    write.Refused length ↔ write.position? = none ∨ ∃ position, write.position? = some position ∧
      positionGap < position + 1 - length := by
  refine or_congr_right (exists_congr fun position => and_congr_right fun _ => ?_)
  omega

theorem reach_of_position? (h : write.position? = some position) : write.reach = position + 1 := by
  rw [reach, h]
  rfl

theorem lengthAfter_cons (length : Nat) (write : PositionWrite) (writes : List PositionWrite) :
    lengthAfter length (write :: writes) = lengthAfter (max length write.reach) writes := rfl

theorem le_lengthAfter (length : Nat) (writes : List PositionWrite) :
    length ≤ lengthAfter length writes := by
  induction writes generalizing length with
  | nil => exact Nat.le_refl _
  | cons write writes ih => exact (Nat.le_max_left _ _).trans (ih _)

theorem last?_cons (position : Nat) (write : PositionWrite) (writes : List PositionWrite) :
    last? position (write :: writes) = (last? position writes).or (last? position [write]) := by
  rw [last?, List.reverse_cons, List.find?_append, Option.map_or]
  rfl

theorem last?_singleton (h : write.position? = some position) (n : Nat) :
    last? n [write] = if position = n then some write.value else none := by
  by_cases hn : position = n <;> simp [last?, h, hn]

/-- What was written behind the end made the list longer. -/
theorem last?_eq_none (h : lengthAfter length writes ≤ position) :
    last? position writes = none := by
  induction writes generalizing length with
  | nil => rfl
  | cons write writes ih =>
    rw [lengthAfter_cons] at h
    have hreach := le_lengthAfter (max length write.reach) writes
    have hlast : last? position [write] = none := by
      cases hposition : write.position? with
      | none => simp [last?, hposition]
      | some n =>
        rw [reach_of_position? hposition] at h hreach
        rw [last?_singleton hposition, if_neg (by omega)]
    rw [last?_cons, ih h, hlast]
    rfl

theorem length_valuesAfter (fresh : Scalar) (items : List Scalar) (writes : List PositionWrite) :
    (valuesAfter fresh items writes).length = lengthAfter items.length writes := by
  rw [valuesAfter, List.length_map, List.length_range]

theorem getElem?_valuesAfter (fresh : Scalar) (items : List Scalar) (writes : List PositionWrite)
    (n : Nat) : (valuesAfter fresh items writes)[n]? =
      if n < lengthAfter items.length writes then
        some ((last? n writes).getD (items[n]?.getD fresh))
      else none := by
  rw [valuesAfter, List.getElem?_map]
  split
  · next h => rw [List.getElem?_range h, Option.map_some]
  · next h => rw [List.getElem?_eq_none (by simpa using h), Option.map_none]

/-- A position behind the end counts as one with the value of a new item. -/
theorem getD_valuesAfter (fresh : Scalar) (items : List Scalar) (writes : List PositionWrite)
    (n : Nat) : ((valuesAfter fresh items writes)[n]?).getD fresh =
      (last? n writes).getD (items[n]?.getD fresh) := by
  rw [getElem?_valuesAfter]
  split
  · rfl
  · next h =>
    have hitems : items[n]? = none :=
      List.getElem?_eq_none ((le_lengthAfter _ writes).trans (Nat.le_of_not_lt h))
    rw [last?_eq_none (Nat.le_of_not_lt h), hitems]
    rfl

@[simp] theorem valuesAfter_nil (fresh : Scalar) (items : List Scalar) :
    valuesAfter fresh items [] = items := by
  refine List.ext_getElem? fun n => ?_
  rw [getElem?_valuesAfter]
  split
  · next h => rw [List.getElem?_eq_getElem h]; rfl
  · next h => exact (List.getElem?_eq_none (Nat.le_of_not_lt h)).symm

/-- What several writes do is what the first one does and then the others. -/
theorem valuesAfter_cons (fresh : Scalar) (items : List Scalar) (write : PositionWrite)
    (writes : List PositionWrite) :
    valuesAfter fresh items (write :: writes) =
      valuesAfter fresh (valuesAfter fresh items [write]) writes := by
  refine List.ext_getElem? fun n => ?_
  rw [getElem?_valuesAfter, getElem?_valuesAfter, getD_valuesAfter, length_valuesAfter,
    lengthAfter_cons, lengthAfter_cons, last?_cons]
  cases last? n writes <;> rfl

/-! ## Accepted writes -/

theorem accepted_nil (length : Nat) : Accepted length [] := by
  intro earlier write later h
  simp at h

theorem accepted_cons : Accepted length (write :: writes) ↔
    ¬write.Refused length ∧ Accepted (max length write.reach) writes := by
  constructor
  · intro h
    refine ⟨h [] write writes rfl, fun earlier other later heq => ?_⟩
    exact h (write :: earlier) other later (by rw [heq, List.cons_append])
  · rintro ⟨hfirst, hrest⟩ earlier other later heq
    cases earlier with
    | nil =>
      obtain ⟨rfl, -⟩ := List.cons.inj heq
      exact hfirst
    | cons first earlier =>
      obtain ⟨rfl, htail⟩ := List.cons.inj heq
      exact hrest earlier other later htail

/-- Writes are accepted up to the first one that is refused. -/
theorem exists_accepted (length : Nat) (writes : List PositionWrite) :
    ∃ done rest, writes = done ++ rest ∧ Accepted length done ∧
      (rest = [] ∨ ∃ write later, rest = write :: later ∧
        write.Refused (lengthAfter length done)) := by
  induction writes generalizing length with
  | nil => exact ⟨[], [], rfl, accepted_nil length, .inl rfl⟩
  | cons write writes ih =>
    by_cases hrefused : write.Refused length
    · exact ⟨[], write :: writes, rfl, accepted_nil length, .inr ⟨write, writes, rfl, hrefused⟩⟩
    · obtain ⟨done, rest, heq, haccepted, hrest⟩ := ih (max length write.reach)
      exact ⟨write :: done, rest, by rw [heq, List.cons_append],
        accepted_cons.2 ⟨hrefused, haccepted⟩, hrest⟩

end PositionWrite

/-! ## One write -/

/-- A list cannot be filled up to a position that lies too far behind its end, nor to the last one
that can be named. -/
theorem padded?_eq_none_iff (fresh : Slot) {items : List Slot} {position : Nat}
    (h : position < 2 ^ 64) : padded? fresh items position = none ↔
      positionGap < position + 1 - items.length ∨
        items.length ≤ position ∧ position + 1 = 2 ^ 64 := by
  rw [padded?]
  split
  · simp; omega
  · split
    · simp; omega
    · simp; omega

namespace Slot

variable {schema : Schema} {converters : ConverterRegistry} {site : Site} {raw : Text}
  {old value : Scalar}

/-- A converted value is stored in a scalar of its type, whatever that held before. -/
theorem store?_scalar {converted : Slot}
    (h : store? converted (.scalar old) = some (.scalar value)) {other : Scalar}
    (hother : other.type = old.type) :
    store? converted (.scalar other) = some (.scalar value) := by
  have hstore : ∀ scalar : Scalar, store? converted (.scalar scalar) =
      if (Slot.scalar scalar).type = converted.type then some converted
      else if (Slot.scalar scalar).type = .option converted.type then some (.filled converted)
      else none := fun _ => rfl
  have hsame : (scalar other).type = (scalar old).type := congrArg SlotType.scalar hother
  rw [hstore, hsame, ← hstore, h]

theorem convert_scalar {converter : Converter}
    (h : (scalar old).convert site converter raw = (.scalar value, none)) {other : Scalar}
    (hother : other.type = old.type) :
    (scalar other).convert site converter raw = (.scalar value, none) := by
  rw [convert_onSlot] at h ⊢
  cases hconverted : converter site raw with
  | error cause => simp [hconverted] at h
  | ok converted =>
    cases hstored : store? converted.value (.scalar old) with
    | none => simp [hconverted, hstored] at h
    | some slot =>
      obtain rfl : slot = .scalar value := by simpa [hconverted, hstored] using h
      simp [store?_scalar hstored hother]

theorem assign_scalar (h : (scalar old).assign site (some raw) = (.scalar value, none)) :
    value.type = old.type ∧ ∀ other : Scalar, other.type = old.type →
      (scalar other).assign site (some raw) = (.scalar value, none) := by
  rw [assign] at h
  cases hread : (scalar old).type.read site raw with
  | error cause => simp [hread] at h
  | ok slot =>
    obtain rfl : slot = .scalar value := by simpa [hread] using h
    obtain ⟨_, hvalue, heq⟩ := map_eq_ok.1 hread
    obtain rfl := Slot.scalar.inj heq
    refine ⟨ScalarType.type_of_read hvalue, fun other hother => ?_⟩
    have htype : (scalar other).type = (scalar old).type := congrArg SlotType.scalar hother
    simp [assign, htype, hread]

theorem type_of_assignLeaf
    (h : (scalar old).assignLeaf site converters (some raw) = (.scalar value, .assigned)) :
    value.type = old.type := by
  cases hconverter : site.member.converter with
  | none =>
    rcases hassign : (scalar old).assign site (some raw) with ⟨after, _ | cause⟩
    · obtain rfl : after = .scalar value := by simpa [assignLeaf, hconverter, hassign] using h
      exact (assign_scalar hassign).1
    · simp [assignLeaf, hconverter, hassign, Site.fault] at h
  | some name =>
    cases hresolve : (converters.resolve name).1 with
    | error cause => simp [assignLeaf, hconverter, hresolve, Site.fault] at h
    | ok converter =>
      have htype : ((scalar old).convert site converter raw).1.type = .scalar old.type :=
        Conversion.type_run _ _ _
      rcases hconvert : (scalar old).convert site converter raw with ⟨after, _ | cause⟩
      · obtain rfl : after = .scalar value := by
          simpa [assignLeaf, hconverter, hresolve, hconvert] using h
        rw [hconvert] at htype
        exact SlotType.scalar.inj htype
      · simp [assignLeaf, hconverter, hresolve, hconvert, Site.fault] at h

/-- A scalar whose text is read, or given to a converter that finds its value before it writes,
takes the text whatever it held before. -/
theorem assignLeaf_scalar
    (hfinds : ∀ name, site.member.converter = some name →
      ∃ converter : Converter, (converters.resolve name).1 = .ok converter.onSlot)
    (h : (scalar old).assignLeaf site converters (some raw) = (.scalar value, .assigned)) :
    ∀ other : Scalar, other.type = old.type →
      (scalar other).assignLeaf site converters (some raw) = (.scalar value, .assigned) := by
  intro other hother
  cases hconverter : site.member.converter with
  | none =>
    rcases hassign : (scalar old).assign site (some raw) with ⟨after, _ | cause⟩
    · obtain rfl : after = .scalar value := by simpa [assignLeaf, hconverter, hassign] using h
      simp [assignLeaf, hconverter, (assign_scalar hassign).2 other hother]
    · simp [assignLeaf, hconverter, hassign, Site.fault] at h
  | some name =>
    obtain ⟨converter, hresolve⟩ := hfinds name hconverter
    rcases hconvert : (scalar old).convert site converter raw with ⟨after, _ | cause⟩
    · obtain rfl : after = .scalar value := by
        simpa [assignLeaf, hconverter, hresolve, hconvert] using h
      simp [assignLeaf, hconverter, hresolve, convert_scalar hconvert hother]
    · simp [assignLeaf, hconverter, hresolve, hconvert, Site.fault] at h

end Slot

namespace PositionWrite

variable {schema : Schema} {converters : ConverterRegistry} {site : Site} {element : SlotType}
  {type : ScalarType} {write : PositionWrite}

/-- The scalars of a type take the text of a write as its value, be it read or converted. -/
def Converts (site : Site) (converters : ConverterRegistry) (type : ScalarType)
    (write : PositionWrite) : Prop :=
  ∀ old : Scalar, old.type = type →
    Slot.assignLeaf site converters (some write.raw) (.scalar old) =
      (.scalar write.value, .assigned)

/-- It is enough that a new scalar takes the text, unless a converter looks at what was there. -/
theorem converts_of_initial
    (hfinds : ∀ name, site.member.converter = some name →
      ∃ converter : Converter, (converters.resolve name).1 = .ok converter.onSlot)
    (h : Slot.assignLeaf site converters (some write.raw) (.scalar type.initial) =
      (.scalar write.value, .assigned)) : write.Converts site converters type :=
  fun old hold => Slot.assignLeaf_scalar hfinds h old (hold.trans type.type_initial.symm)

theorem type_of_converts (h : write.Converts site converters type) : write.value.type = type :=
  (Slot.type_of_assignLeaf (h _ type.type_initial)).trans type.type_initial

theorem lt_of_position? {position : Nat} (h : write.position? = some position) :
    position < 2 ^ 64 := by
  obtain ⟨-, -, -, -, -, hlt⟩ := readPosition?_eq_some_iff.1 h
  exact hlt

/-- A list that does not take a write stays as it was. -/
theorem bind_refused {items : List Slot} (h : write.Refused items.length) :
    Slot.bind schema converters (some write.raw) site [.index write.index] (.list element items) =
      (.list element items, site.fault (some write.raw) (write.refusal items.length)) := by
  rw [Slot.bind_eq_bindWithin]
  rcases h with hnone | ⟨position, hposition, hfar⟩
  · have hreads : readPosition? write.index.text = none := hnone
    rw [Slot.bindWithin_list, Slot.item, hreads, refusal, hnone]
  · have hpadded : padded? (schema.initial element) items position = none :=
      (padded?_eq_none_iff _ (lt_of_position? hposition)).2 hfar
    rw [Slot.bindWithin_position_fault hposition hpadded, refusal, hposition]

theorem getD_map_scalar (items : List Scalar) (fresh : Scalar) (n : Nat) :
    ((items.map Slot.scalar)[n]?).getD (.scalar fresh) = .scalar (items[n]?.getD fresh) := by
  rw [List.getElem?_map]
  cases items[n]? <;> rfl

/-- A list that is filled up for a position and then written there holds what it should. -/
theorem set_padded?_eq {items : List Scalar} {padded : List Slot} {position : Nat} {fresh : Scalar}
    (hposition : write.position? = some position)
    (hpadded : padded? (.scalar fresh) (items.map .scalar) position = some padded) :
    padded.set position (.scalar write.value) =
      (valuesAfter fresh items [write]).map .scalar := by
  have hlength : (padded.set position (.scalar write.value)).length =
      ((valuesAfter fresh items [write]).map Slot.scalar).length := by
    rw [Slot.length_set_padded? hpadded, List.length_map, List.length_map, length_valuesAfter,
      lengthAfter_cons, reach_of_position? hposition]
    rfl
  have hitems : ∀ n : Nat, ((padded.set position (.scalar write.value))[n]?).getD (.scalar fresh) =
      (((valuesAfter fresh items [write]).map Slot.scalar)[n]?).getD (.scalar fresh) := by
    intro n
    rw [Slot.getD_set_padded? hpadded, getD_map_scalar, getD_map_scalar, getD_valuesAfter,
      last?_singleton hposition]
    by_cases hn : n = position
    · rw [if_pos hn, if_pos hn.symm, Option.getD_some]
    · rw [if_neg hn, if_neg (Ne.symm hn), Option.getD_none]
  exact Slot.eq_of_getD hlength hitems

/-- A list of scalars that takes a write has the value at its position. -/
theorem bind_accepted {items : List Scalar} (htype : ∀ item ∈ items, item.type = type)
    (h : ¬write.Refused items.length) (hconverts : write.Converts site converters type) :
    Slot.bind schema converters (some write.raw) site [.index write.index]
        (.list (.scalar type) (items.map .scalar)) =
      (.list (.scalar type) ((valuesAfter type.initial items [write]).map .scalar), .assigned) := by
  obtain ⟨hread, hnear⟩ := not_or.1 h
  obtain ⟨position, hposition⟩ := Option.ne_none_iff_exists'.1 hread
  have hroom : padded? (schema.initial (.scalar type)) (items.map .scalar) position ≠ none := by
    rw [Ne, padded?_eq_none_iff _ (lt_of_position? hposition), List.length_map]
    exact fun hfar => hnear ⟨position, hposition, hfar⟩
  obtain ⟨padded, hpadded⟩ := Option.ne_none_iff_exists'.1 hroom
  have hset : padded.set position (.scalar write.value) =
      (valuesAfter type.initial items [write]).map .scalar := set_padded?_eq hposition hpadded
  -- what is at the position, or comes into being there, is a scalar of the type
  have hold : (items[position]?.getD type.initial).type = type := by
    cases hitem : items[position]? with
    | none => exact type.type_initial
    | some item => exact htype item (List.mem_of_getElem? hitem)
  have hitem : ((items.map Slot.scalar)[position]?).getD (schema.initial (.scalar type)) =
      .scalar (items[position]?.getD type.initial) := getD_map_scalar items type.initial position
  rw [Slot.bind_eq_bindWithin, Slot.bindWithin_position hposition hpadded, hitem, Slot.bind,
    hconverts _ hold, hset]

/-- The values of a list of scalars are of its type after writes as well. -/
theorem type_valuesAfter {items : List Scalar} {writes : List PositionWrite}
    (htype : ∀ item ∈ items, item.type = type)
    (hwrites : ∀ write ∈ writes, write.value.type = type) :
    ∀ item ∈ valuesAfter type.initial items writes, item.type = type := by
  intro item hitem
  obtain ⟨n, -, rfl⟩ := List.mem_map.1 hitem
  cases hlast : last? n writes with
  | some value =>
    obtain ⟨write, hfind, rfl⟩ := Option.map_eq_some_iff.1 hlast
    exact hwrites write (List.mem_reverse.1 (List.mem_of_find?_eq_some hfind))
  | none =>
    cases hitem : items[n]? with
    | some item => exact htype item (List.mem_of_getElem? hitem)
    | none => exact type.type_initial

end PositionWrite

/-! ## Runs -/

namespace Object

open PositionWrite

variable {schema : Schema} {options : BindOptions} {target : Object} {name : Text}
  {member : Member} {type : ScalarType} {items : List Scalar}

namespace Holds

/-- A write that is refused ends the run, and leaves the object as it was. -/
theorem populate_refused {write : PositionWrite} (options : BindOptions)
    (h : target.Holds schema name member (.list (.scalar type) (items.map .scalar)))
    (hrefused : write.Refused items.length) (pairs : List Pair) :
    target.populate schema options (KeyPath.ofText []) (write.pair name :: pairs) =
      (target, some (write.fault schema target name member items.length)) := by
  have hkey : (write.pair name).key.parts = [⟨name, [write.index]⟩] := rfl
  have hrefused' : write.Refused (items.map Slot.scalar).length := by rwa [List.length_map]
  rw [h.populate_cons hkey, List.map_singleton, pair, bind_refused hrefused', List.length_map]
  exact congrArg (·, _) h.put_self

/-- A write that is accepted changes the list, and the run goes on. -/
theorem populate_accepted {write : PositionWrite}
    (h : target.Holds schema name member (.list (.scalar type) (items.map .scalar)))
    (htype : ∀ item ∈ items, item.type = type) (haccepted : ¬write.Refused items.length)
    (hconverts : write.Converts (target.site schema options member (write.pair name))
      options.converters type) (pairs : List Pair) :
    target.populate schema options (KeyPath.ofText []) (write.pair name :: pairs) =
      (target.put member.field (.list (.scalar type)
        ((valuesAfter type.initial items [write]).map .scalar))).populate schema options
          (KeyPath.ofText []) pairs := by
  have hkey : (write.pair name).key.parts = [⟨name, [write.index]⟩] := rfl
  have hvalue : (write.pair name).value = some write.raw := rfl
  rw [h.populate_cons hkey, List.map_singleton, hvalue, bind_accepted htype haccepted hconverts]

/-- Writes that are accepted one after the other change the list together. -/
theorem populate_done (done : List PositionWrite)
    (h : target.Holds schema name member (.list (.scalar type) (items.map .scalar)))
    (htype : ∀ item ∈ items, item.type = type) (haccepted : Accepted items.length done)
    (hconverts : ∀ write ∈ done, write.Converts
      (target.site schema options member (write.pair name)) options.converters type)
    (pairs : List Pair) :
    target.populate schema options (KeyPath.ofText []) (done.map (pair name) ++ pairs) =
      (target.put member.field (.list (.scalar type)
        ((valuesAfter type.initial items done).map .scalar))).populate schema options
          (KeyPath.ofText []) pairs := by
  induction done generalizing items target with
  | nil => rw [valuesAfter_nil, h.put_self, List.map_nil, List.nil_append]
  | cons write done ih =>
    obtain ⟨hfirst, hrest⟩ := accepted_cons.1 haccepted
    obtain ⟨hconvert, hconverts⟩ := List.forall_mem_cons.1 hconverts
    have hvalue : ∀ write' ∈ [write], write'.value.type = type := by
      simpa using type_of_converts hconvert
    have hlength : (valuesAfter type.initial items [write]).length =
        max items.length write.reach := length_valuesAfter _ _ _
    rw [List.map_cons, List.cons_append, h.populate_accepted htype hfirst hconvert,
      ih (h.put _) (type_valuesAfter htype hvalue) (by rwa [hlength]) hconverts, put_put,
      ← valuesAfter_cons]

end Holds

/-- **A run of writes** to the positions of a list of scalars goes on until one of them is refused,
which changes nothing. Then the list is as long as the writes before that one need, if it was not
longer already, and holds at each position the value that was written there last, or else the one
that was there before, or else that of a new item. A list that fits into memory refuses an index
that names no position, and a position that makes more than 65536 new items necessary. -/
theorem populate_writes
    (h : target.Holds schema name member (.list (.scalar type) (items.map .scalar)))
    (htype : ∀ item ∈ items, item.type = type) (writes : List PositionWrite)
    (hconverts : ∀ write ∈ writes, write.Converts
      (target.site schema options member (write.pair name)) options.converters type) :
    (∃ (done rest : List PositionWrite) (final : List Scalar),
      writes = done ++ rest ∧ Accepted items.length done ∧
      final.length = lengthAfter items.length done ∧
      (∀ n < final.length, final[n]? =
        some ((last? n done).getD (items[n]?.getD type.initial))) ∧
      (rest = [] ∨ ∃ write later, rest = write :: later ∧ write.Refused final.length) ∧
      target.populate schema options (KeyPath.ofText []) (done.map (pair name)) =
        (target.put member.field (.list (.scalar type) (final.map .scalar)), none) ∧
      target.populate schema options (KeyPath.ofText []) (writes.map (pair name)) =
        (target.put member.field (.list (.scalar type) (final.map .scalar)),
          rest.head?.map (fault schema target name member final.length))) ∧
      ∀ length, length + positionGap < 2 ^ 64 → ∀ write : PositionWrite, write.Refused length ↔
        write.position? = none ∨ ∃ position, write.position? = some position ∧
          positionGap < position + 1 - length := by
  refine ⟨?_, fun length hlength write => refused_iff hlength⟩
  obtain ⟨done, rest, rfl, haccepted, hrest⟩ := exists_accepted items.length writes
  have hlength := length_valuesAfter type.initial items done
  have hdone : ∀ write ∈ done, write.Converts
      (target.site schema options member (write.pair name)) options.converters type :=
    fun write hwrite => hconverts write (List.mem_append_left rest hwrite)
  have hrun := h.populate_done done htype haccepted hdone
  refine ⟨done, rest, valuesAfter type.initial items done, rfl, haccepted, hlength, ?_, ?_, ?_, ?_⟩
  · intro n hn
    rw [getElem?_valuesAfter, if_pos (hlength ▸ hn)]
  · rwa [hlength]
  · rw [← List.append_nil (done.map (pair name)), hrun]
    rfl
  · rw [List.map_append, hrun]
    rcases hrest with rfl | ⟨write, later, rfl, hrefused⟩
    · rfl
    · rw [List.map_cons, (h.put _).populate_refused options (by rwa [hlength])]
      rfl

end Object

/-- A road has the limits of its lanes. -/
def roadSchema : Schema where
  types :=
    [{ typeName := "Road", label := "Road"
       members := [{ name := "Lanes", field := "lanes" }]
       initial := [("lanes", .list (.scalar (.integer (.unsigned 8))) [])] }]

/-- A road with one lane. -/
def road : Object where
  typeName := "Road"
  fields := [("lanes", .list (.scalar (.integer (.unsigned 8)))
    [.scalar (.integer (.unsigned 8) 50)])]

/-- Two writes to one position that is spelled in two ways, and then one that is too far away. -/
def roadWrites : List PositionWrite :=
  [⟨Index.ofText "+03", "70", .integer (.unsigned 8) 70⟩,
   ⟨Index.ofText " 3 ", "+080 ", .integer (.unsigned 8) 80⟩,
   ⟨Index.ofText "18446744073709551615", "90", .integer (.unsigned 8) 90⟩,
   ⟨Index.ofText "0", "60", .integer (.unsigned 8) 60⟩]

theorem road_populate_writes :
    let result := road.populate roadSchema {} (KeyPath.ofText [])
      (roadWrites.map (PositionWrite.pair "lanes"))
    ∃ (done rest : List PositionWrite) (final : List Scalar), roadWrites = done ++ rest ∧
      PositionWrite.Accepted 1 done ∧ final.length = PositionWrite.lengthAfter 1 done ∧
      (rest = [] ∨ ∃ write later, rest = write :: later ∧ write.Refused final.length) ∧
      result.1 = road.put "lanes"
        (.list (.scalar (.integer (.unsigned 8))) (final.map .scalar)) := by
  intro result
  have hholds : road.Holds roadSchema "lanes" { name := "Lanes", field := "lanes" }
      (.list (.scalar (.integer (.unsigned 8)))
        ([.integer (.unsigned 8) 50].map Slot.scalar)) := ⟨rfl, rfl, rfl⟩
  have hconverts : ∀ write ∈ roadWrites, write.Converts
      (road.site roadSchema {} { name := "Lanes", field := "lanes" } (write.pair "lanes"))
      ConverterRegistry.empty (.integer (.unsigned 8)) := by
    intro write hwrite
    refine PositionWrite.converts_of_initial (fun name hname => absurd hname (by simp [Object.site,
      Site.into])) ?_
    simp only [roadWrites, List.mem_cons, List.not_mem_nil, or_false] at hwrite
    rcases hwrite with rfl | rfl | rfl | rfl <;> rfl
  obtain ⟨⟨done, rest, final, hwrites, haccepted, hlength, -, hrest, -, hresult⟩, -⟩ :=
    Object.populate_writes hholds (by simp [Scalar.type]) roadWrites hconverts
  exact ⟨done, rest, final, hwrites, haccepted, hlength, hrest, congrArg Prod.fst hresult⟩

end KeyedText
