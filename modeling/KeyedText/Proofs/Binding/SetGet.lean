import KeyedText.Binding.Populate
import KeyedText.Proofs.Binding.Along

/-!
# Set, then get

A pair whose key leads to a scalar writes that scalar and nothing else. The write is followed from
the end of the key outwards: at the end it replaces one scalar, and behind each turn that the key
takes on its way it stays a write of that scalar and leaves everything next to it alone.

## Main definitions

- `Slot.Leads` — the steps of a key lead to a scalar at a place
- `Slot.Ended` — following a key failed, or wrote a value at a place

## Main statements

- `Slot.Leads.ended` — following a key that leads to a scalar fails or writes that scalar
- `Object.get_populate` — a populated scalar reads back, every other one stays, and what comes into
  being next to it is new
-/

namespace KeyedText

namespace Slot

/-- The steps of a key lead to a scalar of some type at a place. Optional values and boxes are gone
through, members are found by name or alias, list positions and converted map keys may be new, and
an index on an object without an indexer goes on in its member `Item`. -/
inductive Leads (schema : Schema) : Slot → List Step → Location → ScalarType → Prop
  | leaf (value : Scalar) : Leads schema (.scalar value) [] [] value.type
  | content {slot child : Slot} {steps : List Step} {place : Location} {type : ScalarType}
      (there : slot.childOrNew? schema .content = some child)
      (rest : Leads schema child steps place type) :
      Leads schema slot steps (.content :: place) type
  | position {element : SlotType} {items : List Slot} {index : Index} {n : Nat} {child : Slot}
      {steps : List Step} {place : Location} {type : ScalarType}
      (reads : readPosition? index.text = some n)
      (there : (Slot.list element items).childOrNew? schema (.position n) = some child)
      (rest : Leads schema child steps place type) :
      Leads schema (.list element items) (.index index :: steps) (.position n :: place) type
  | key {typeName : Text} {kind : MapKind} {keyType : KeyType} {element : SlotType}
      {entries : List (MapKey × Slot)} {index : Index} {key : MapKey} {child : Slot}
      {steps : List Step} {place : Location} {type : ScalarType}
      (isOpen : kind ≠ .gated index.text)
      (reads : keyType.read index = .ok key)
      (there : (Slot.map typeName kind keyType element entries).childOrNew? schema (.key key) =
        some child)
      (rest : Leads schema child steps place type) :
      Leads schema (.map typeName kind keyType element entries) (.index index :: steps)
        (.key key :: place) type
  | member {typeName name : Text} {fields : Fields} {member : Member} {child : Slot}
      {steps : List Step} {place : Location} {type : ScalarType}
      (found : (schema.find typeName).findMember (Text.fold name) = some member)
      (binds : (member.ignoreSet || !member.writable) = false)
      (plain : member.converter = none)
      (there : Entries.get? member.field fields = some child)
      (rest : Leads schema child steps place type) :
      Leads schema (.object typeName fields) (.member name :: steps) (.field member.field :: place)
        type
  | item {typeName : Text} {fields : Fields} {member : Member} {index : Index} {child : Slot}
      {steps : List Step} {place : Location} {type : ScalarType}
      (noIndexer : (schema.find typeName).indexer = none)
      (found : (schema.find typeName).findMember (Text.fold itemName) = some member)
      (binds : (member.ignoreSet || !member.writable) = false)
      (there : Entries.get? member.field fields = some child)
      (rest : Leads schema child (.index index :: steps) place type) :
      Leads schema (.object typeName fields) (.index index :: steps) (.field member.field :: place)
        type

/-- What following a key came to: a fault, or a value written at a place. -/
def Ended (schema : Schema) (place : Location) (value : Scalar) (before : Slot)
    (result : Slot × Outcome) : Prop :=
  (∃ fault, result.2 = .failed fault) ∨
    result.2 = .assigned ∧ Written schema place value before result.1

section

variable {schema : Schema} {converters : ConverterRegistry} {site : Site} {raw : Text}
  {scalar : Scalar} {type : ScalarType} {turn : Turn} {place : Location} {steps : List Step}
  {index : Index} {child before : Slot}

/-- How a write behind a turn ends decides how the write ends. -/
theorem Ended.step {result result' : Slot × Outcome} (h : Ended schema place scalar child result)
    (houtcome : result'.2 = result.2)
    (hchange : result.2 = .assigned → Changed schema turn child result.1 before result'.1) :
    Ended schema (turn :: place) scalar before result' := by
  rcases h with ⟨fault, hfault⟩ | ⟨hassigned, hwritten⟩
  · exact .inl ⟨fault, houtcome.trans hfault⟩
  · exact .inr ⟨houtcome.trans hassigned, hwritten.step (hchange hassigned)⟩

theorem Ended.content (hplain : site.member.converter = none)
    (hthere : before.childOrNew? schema .content = some child) (steps : List Step) (hops : Nat)
    (h : Ended schema place scalar child
      (bindWithin schema converters (some raw) hops site steps child)) :
    Ended schema (.content :: place) scalar before
      (bindWithin schema converters (some raw) hops site steps before) := by
  obtain ⟨houtcome, hcontent⟩ := bindWithin_content hplain hthere steps hops
  refine h.step houtcome fun hassigned => ?_
  rw [hcontent hassigned]
  exact changed_content hthere _

theorem Ended.position {element : SlotType} {items : List Slot} {n : Nat}
    (hreads : readPosition? index.text = some n)
    (hthere : (list element items).childOrNew? schema (.position n) = some child) (hops : Nat)
    (h : Ended schema place scalar child
      (Slot.bind schema converters (some raw) site steps child)) :
    Ended schema (.position n :: place) scalar (list element items)
      (bindWithin schema converters (some raw) hops site (.index index :: steps)
        (list element items)) := by
  cases hpadded : padded? (schema.initial element) items n with
  | none =>
    -- too far behind the end of the list
    rw [bindWithin_position_fault hreads hpadded]
    exact .inl ⟨_, rfl⟩
  | some padded =>
    have hchange := changed_position hpadded
    obtain rfl := Option.some.inj ((hchange child).was.symm.trans hthere)
    rw [bindWithin_position hreads hpadded]
    exact h.step rfl fun _ => hchange _

theorem Ended.key {typeName : Text} {kind : MapKind} {keyType : KeyType} {element : SlotType}
    {entries : List (MapKey × Slot)} {key : MapKey}
    (hopen : kind ≠ .gated index.text) (hreads : keyType.read index = .ok key)
    (hthere : (map typeName kind keyType element entries).childOrNew? schema (.key key) =
      some child) (hops : Nat)
    (h : Ended schema place scalar child
      (Slot.bind schema converters (some raw) site steps child)) :
    Ended schema (.key key :: place) scalar (map typeName kind keyType element entries)
      (bindWithin schema converters (some raw) hops site (.index index :: steps)
        (map typeName kind keyType element entries)) := by
  have hchange := changed_key schema typeName kind keyType element key entries
  obtain rfl := Option.some.inj ((hchange child).was.symm.trans hthere)
  rw [bindWithin_key hopen hreads, MapKind.upsert_eq_put]
  exact h.step rfl fun _ => hchange _

theorem Ended.field {typeName field : Text} {fields : Fields} {result : Slot × Outcome}
    (hthere : Entries.get? field fields = some child)
    (h : Ended schema place scalar child result) :
    Ended schema (.field field :: place) scalar (object typeName fields)
      (object typeName (Fields.put field result.1 fields), result.2) :=
  h.step rfl fun _ => changed_field schema (.object typeName) hthere _

/-! ## Along a key -/

/-- A key leads to a scalar that is there or comes into being. -/
theorem Leads.atOrNew? (h : before.Leads schema steps place type) :
    ∃ old : Scalar, before.atOrNew? schema place = some (.scalar old) := by
  induction h with
  | leaf old => exact ⟨old, rfl⟩
  | content there _ ih => rwa [Slot.atOrNew?, there]
  | position _ there _ ih => rwa [Slot.atOrNew?, there]
  | key _ _ there _ ih => rwa [Slot.atOrNew?, there]
  | member _ _ _ there _ ih =>
    rwa [Slot.atOrNew?, childOrNew?_field there]
  | item _ _ _ there _ ih =>
    rwa [Slot.atOrNew?, childOrNew?_field there]

/-- Following a key that leads to a scalar fails or writes that scalar. -/
theorem Leads.ended (h : before.Leads schema steps place type)
    (hread : type.read raw = .ok scalar) (converters : ConverterRegistry) (hops : Nat) (site : Site)
    (hplain : site.member.converter = none) :
    Ended schema place scalar before
      (bindWithin schema converters (some raw) hops site steps before) := by
  induction h generalizing site hops with
  | leaf old =>
    refine .inr ?_
    simp only [bindWithin, Slot.bind, assignLeaf_eq hplain, Slot.type, SlotType.read, hread,
      Except.map]
    exact ⟨trivial, written_scalar old scalar⟩
  | @content slot child steps place type there rest ih =>
    exact Ended.content hplain there steps hops (ih hread hops site hplain)
  | @position element items index n child steps place type reads there rest ih =>
    have hrest := ih hread (schema.hopLimit child) site hplain
    rw [← bind_eq_bindWithin] at hrest
    exact Ended.position reads there hops hrest
  | @key typeName kind keyType element entries index key child steps place type isOpen reads there
      rest ih =>
    have hrest := ih hread (schema.hopLimit child) site hplain
    rw [← bind_eq_bindWithin] at hrest
    exact Ended.key isOpen reads there hops hrest
  | @member typeName name fields member child steps place type found binds plain there rest ih =>
    -- the converter that counts from here on is that of the member, and it has none
    have hrest := ih hread (schema.hopLimit child) (site.into (schema.find typeName) member) plain
    rw [← bind_eq_bindWithin] at hrest
    rw [bindWithin_member found binds there]
    exact Ended.field there hrest
  | @item typeName fields member index child steps place type noIndexer found binds there rest ih =>
    -- the index stays for the member, so the bound goes down and the site stays
    cases hops with
    | zero =>
      refine .inl ⟨.endless, ?_⟩
      simp only [bindWithin, indexedWithin, indexedWith, Slot.enter, Fields.item, noIndexer, found,
        binds, Fields.update_eq_put _ _ there]
      rfl
    | succ hops =>
      simp only [bindWithin, indexedWithin, indexedWith, Slot.enter, Fields.item, noIndexer, found,
        binds, Fields.update_eq_put _ _ there]
      exact Ended.field there (ih hread hops site hplain)

end

end Slot

/-! ## Populating an object with one pair -/

section

variable {schema : Schema} {options : BindOptions} {pair : Pair} {target : Object}
  {place : Location} {type : ScalarType} {raw : Text} {value : Scalar}

/-- Binding a pair whose key leads to a scalar of an object fails or writes that scalar. -/
theorem Object.ended_bind {steps : List Step} (options : BindOptions)
    (hleads : target.toSlot.Leads schema steps place type) (hraw : pair.value = some raw)
    (hread : type.read raw = .ok value) :
    Slot.Ended schema place value target.toSlot
      ((target.bind schema options pair steps).1.toSlot,
        (target.bind schema options pair steps).2) := by
  generalize hslot : target.toSlot = slot at hleads
  cases hleads with
  | leaf | position | key => exact absurd hslot (by simp [Object.toSlot])
  | content there rest =>
    exact absurd there (by simp [← hslot, Object.toSlot, Slot.childOrNew?, Slot.child?,
      Slot.created?])
  | @member typeName name fields member child steps place type found binds plain there rest =>
    obtain ⟨rfl, rfl⟩ := Slot.object.inj hslot
    have hrest := rest.ended hread options.converters (schema.hopLimit child)
      ((Site.ofPair options pair (schema.find target.typeName).label).into
        (schema.find target.typeName) member) plain
    rw [← Slot.bind_eq_bindWithin, ← hraw] at hrest
    simp only [Object.bind, Fields.member, found, binds, Fields.update_eq_put _ _ there]
    exact Slot.Ended.field there hrest
  | @item typeName fields member index child steps place type noIndexer found binds there rest =>
    obtain ⟨rfl, rfl⟩ := Slot.object.inj hslot
    have hrest := rest.ended hread options.converters (schema.hopLimit child)
      (Site.ofPair options pair (schema.find target.typeName).label) rfl
    rw [← hraw] at hrest
    simp only [Object.bind, Fields.item, noIndexer, found, binds, Fields.update_eq_put _ _ there]
    exact Slot.Ended.field there hrest

theorem Object.populate_singleton (pair : Pair) (target : Object) :
    target.populate schema options (KeyPath.ofText []) [pair] =
      match target.bind schema options pair (stepsOf pair.key.parts) with
      | (target, .failed fault) => (target, some fault)
      | (target, _) => (target, none) := by
  have hparts : (KeyPath.ofText []).stripPrefix? pair.key = some pair.key.parts := rfl
  rw [Object.populate, hparts]
  rfl

/-- **Set, then get.** When the key of a pair leads to a scalar of an object and populating the
object with the pair succeeds, the scalar reads back as the value of the pair, every other scalar
that was there reads as before, and what came into being apart from it is as new slots are. -/
theorem Object.get_populate
    (hleads : target.toSlot.Leads schema (stepsOf pair.key.parts) place type)
    (hraw : pair.value = some raw) (hread : type.read raw = .ok value)
    (hok : (target.populate schema options (KeyPath.ofText []) [pair]).2 = none) :
    let after := (target.populate schema options (KeyPath.ofText []) [pair]).1.toSlot
    after.leaf? place = some value ∧
      (∀ other old, target.toSlot.leaf? other = some old → ¬Location.Same other place →
        after.leaf? other = some old) ∧
      ∀ other slot, Location.Apart other place → target.toSlot.at? other = none →
        after.at? other = some slot → target.toSlot.atOrNew? schema other = some slot := by
  have hended := target.ended_bind options hleads hraw hread
  rw [Object.populate_singleton] at hok ⊢
  rcases hbind : target.bind schema options pair (stepsOf pair.key.parts) with ⟨after, outcome⟩
  rw [hbind] at hok hended
  rcases hended with ⟨fault, hfault⟩ | ⟨hassigned, hwritten⟩
  · obtain rfl : outcome = .failed fault := hfault
    exact absurd hok (by simp)
  · obtain rfl : outcome = .assigned := hassigned
    -- where the key leads to a scalar, every other scalar lies apart from it
    obtain ⟨old, hold⟩ := hleads.atOrNew?
    refine ⟨Slot.leaf?_of_at? hwritten.holds, fun other kept hkept hother => ?_, hwritten.fresh⟩
    have hapart := Location.apart_of_leaf hold hkept hother
    exact Slot.leaf?_of_at? (hwritten.keeps other _ hapart (Slot.at?_of_leaf? hkept))

end

/-- A car has a name and perhaps a number of doors, which may also be called gates. A garage has
cars. -/
def garageSchema : Schema where
  types :=
    [{ typeName := "Garage", label := "Garage"
       members := [{ name := "Cars", field := "cars" }]
       initial := [("cars", .list (.object "Car") [])] },
     { typeName := "Car", label := "Car"
       members :=
         [{ name := "Name", field := "name" },
          { name := "Doors", field := "doors", aliases := ["Gates"] }]
       initial :=
         [("name", .scalar (.text .plain [])),
          ("doors", .vacant (.scalar (.integer (.signed 32))))] }]

/-- A garage with one car. -/
def garage : Object where
  typeName := "Garage"
  fields :=
    [("cars", .list (.object "Car")
      [.object "Car"
        [("name", .scalar (.text .plain "Herbie")),
         ("doors", .vacant (.scalar (.integer (.signed 32))))]])]

/-- A garage takes the doors of a car that is not there yet: the car comes into being, its doors
read back, the name of the other car reads as before, and the new one has the name of a new car. -/
theorem garage_get_populate :
    let pair := Pair.ofText "cars[1].gates" (some "4".toList)
    let place := [.field "cars", .position 1, .field "doors", .content]
    (garage.populate garageSchema {} (KeyPath.ofText []) [pair]).2 = none ∧
      let after := (garage.populate garageSchema {} (KeyPath.ofText []) [pair]).1.toSlot
      after.leaf? place = some (.integer (.signed 32) 4) ∧
        (∀ other old, garage.toSlot.leaf? other = some old → ¬Location.Same other place →
          after.leaf? other = some old) ∧
        ∀ other slot, Location.Apart other place → garage.toSlot.at? other = none →
          after.at? other = some slot → garage.toSlot.atOrNew? garageSchema other = some slot := by
  intro pair place
  have hok : (garage.populate garageSchema {} (KeyPath.ofText []) [pair]).2 = none := by decide
  have hcars : (garageSchema.find "Garage").findMember (Text.fold "cars") =
      some { name := "Cars", field := "cars" } := rfl
  have hgates : (garageSchema.find "Car").findMember (Text.fold "gates") =
      some { name := "Doors", field := "doors", aliases := ["Gates"] } := rfl
  have hleads : garage.toSlot.Leads garageSchema
      [.member "cars", .index ⟨"1", ["1"]⟩, .member "gates"] place (.integer (.signed 32)) :=
    .member hcars rfl rfl rfl
      (.position rfl rfl (.member hgates rfl rfl rfl (.content rfl (.leaf (.integer _ 0)))))
  exact ⟨hok, Object.get_populate hleads rfl rfl hok⟩

end KeyedText
