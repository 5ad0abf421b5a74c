import KeyedText.Proofs.Binding.Items

/-!
# Along the steps of a key

What following a key does to a slot, one step at a time: at the end the value is assigned, the
content of an optional value or a box is gone through, an index goes to an item and a name to the
field of a member. The bound on the members `Item` that an index passes is kept open, since it is
counted anew at every slot.

## Main definitions

- `Slot.bindWithin` — following a key with a bound on the members `Item` that its first index passes

## Main statements

- `Slot.bindWithin_content` — following a key into the content of a slot
- `Slot.bindWithin_position`, `Slot.bindWithin_key` — following a key into an item
- `Slot.bindWithin_member` — following a key into a member
-/

namespace KeyedText

theorem ScalarType.type_initial (type : ScalarType) : type.initial.type = type := by
  cases type <;> rfl

namespace Slot

/-- A slot after the value at the end of some steps, where an index in front passes through the
members `Item` of at most the given number of objects. -/
def bindWithin (schema : Schema) (converters : ConverterRegistry) (value : Option Text)
    (hops : Nat) (site : Site) : List Step → Slot → Slot × Outcome
  | .index index :: rest =>
    indexedWithin schema site value index (Slot.bind schema converters value site rest) hops
  | steps => Slot.bind schema converters value site steps

variable {schema : Schema} {converters : ConverterRegistry} {site : Site} {raw : Text}
  {value : Option Text} {steps : List Step} {index : Index} {slot child : Slot} {act : Act}

/-- Following a key is following it with the bound that is enough. -/
theorem bind_eq_bindWithin (site : Site) (steps : List Step) (slot : Slot) :
    Slot.bind schema converters value site steps slot =
      bindWithin schema converters value (schema.hopLimit slot) site steps slot := by
  rcases steps with _ | ⟨name | index, rest⟩
  · rfl
  · rfl
  · rfl

/-! ## New slots and the end of a key -/

theorem type_initial (type : SlotType) : (schema.initial type).type = type := by
  induction type with
  | scalar type => rw [Schema.initial, Slot.type, ScalarType.type_initial]
  | boxed content ih => rw [Schema.initial, Slot.type, ih]
  | _ => rfl

/-- The way into a new slot is the way into a slot that was just created. -/
theorem enter_initial (type : SlotType) :
    (schema.initial type).enter schema act = type.enterNew schema act := by
  induction type with
  | boxed content ih => rw [Schema.initial, enter, ih, SlotType.enterNew]
  | _ => rfl

/-- A value is assigned without a converter, or reported. -/
theorem assignLeaf_eq (h : site.member.converter = none) :
    assignLeaf site converters (some raw) slot =
      match slot.type.read site raw with
      | .ok slot => (slot, .assigned)
      | .error cause => (slot, site.fault (some raw) cause) := by
  unfold assignLeaf
  rw [h]
  dsimp only [assign]
  cases slot.type.read site raw <;> rfl

/-! ## Contents -/

theorem read_content (h : slot.childOrNew? schema .content = some child) :
    slot.type.read site raw = (child.type.read site raw).map slot.withContent := by
  rcases content_cases h with ⟨content, rfl, rfl⟩ | rfl | rfl
  · rw [type_initial]
    rfl
  · rfl
  · rfl

theorem enter_content (h : slot.childOrNew? schema .content = some child) :
    slot.enter schema act =
      (slot.withContent (child.enter schema act).1, (child.enter schema act).2) := by
  rcases content_cases h with ⟨content, rfl, rfl⟩ | rfl | rfl
  · rw [enter_initial]
    rfl
  · rfl
  · rfl

/-- Following a key into the content of a slot. A value that cannot be read leaves no content
behind that was not there. -/
theorem bindWithin_content (hplain : site.member.converter = none)
    (hthere : slot.childOrNew? schema .content = some child) (steps : List Step) (hops : Nat) :
    let result := bindWithin schema converters (some raw) hops site steps slot
    let result' := bindWithin schema converters (some raw) hops site steps child
    result.2 = result'.2 ∧ (result'.2 = .assigned → result.1 = slot.withContent result'.1) := by
  have hentered : ∀ act : Act, (slot.enter schema act).2 = (child.enter schema act).2 ∧
      ((child.enter schema act).2 = .assigned →
        (slot.enter schema act).1 = slot.withContent (child.enter schema act).1) := by
    intro act
    rw [enter_content hthere]
    exact ⟨rfl, fun _ => rfl⟩
  rcases steps with _ | ⟨name | index, rest⟩
  · -- at the end of the key the text is read before the content comes into being
    simp only [bindWithin, Slot.bind, assignLeaf_eq hplain, read_content hthere]
    cases child.type.read site raw with
    | error cause => exact ⟨rfl, fun h => absurd h (by simp [Site.fault])⟩
    | ok read => exact ⟨rfl, fun _ => rfl⟩
  · exact hentered _
  · cases hops with
    | zero => exact hentered _
    | succ hops => exact hentered _

/-! ## Items and members -/

theorem bindWithin_list (element : SlotType) (items : List Slot) (hops : Nat) :
    bindWithin schema converters value hops site (.index index :: steps) (.list element items) =
      Slot.item schema site value index (Slot.bind schema converters value site steps)
        (.list element items) := by
  cases hops with
  | zero => rfl
  | succ hops => rfl

theorem bindWithin_map (typeName : Text) (kind : MapKind) (keyType : KeyType) (element : SlotType)
    (entries : List (MapKey × Slot)) (hops : Nat) :
    bindWithin schema converters value hops site (.index index :: steps)
        (.map typeName kind keyType element entries) =
      Slot.item schema site value index (Slot.bind schema converters value site steps)
        (.map typeName kind keyType element entries) := by
  cases hops with
  | zero => rfl
  | succ hops => rfl

theorem bindWithin_position {element : SlotType} {items padded : List Slot} {n : Nat}
    (hreads : readPosition? index.text = some n)
    (hpadded : padded? (schema.initial element) items n = some padded) (hops : Nat) :
    let result := Slot.bind schema converters value site steps
      ((items[n]?).getD (schema.initial element))
    bindWithin schema converters value hops site (.index index :: steps) (.list element items) =
      (.list element (padded.set n result.1), result.2) := by
  simp only [bindWithin_list, Slot.item, hreads, hpadded, actAt_eq (getElem?_padded? hpadded)]

theorem bindWithin_position_fault {element : SlotType} {items : List Slot} {n : Nat}
    (hreads : readPosition? index.text = some n)
    (hpadded : padded? (schema.initial element) items n = none) (hops : Nat) :
    bindWithin schema converters value hops site (.index index :: steps) (.list element items) =
      (.list element items, site.fault value (.positionOutOfRange n items.length)) := by
  simp only [bindWithin_list, Slot.item, hreads, hpadded]

theorem bindWithin_key {typeName : Text} {kind : MapKind} {keyType : KeyType} {element : SlotType}
    {entries : List (MapKey × Slot)} {key : MapKey} (hopen : kind ≠ .gated index.text)
    (hreads : keyType.read index = .ok key) (hops : Nat) :
    let result := kind.upsert key (schema.initial element)
      (Slot.bind schema converters value site steps) entries
    bindWithin schema converters value hops site (.index index :: steps)
        (.map typeName kind keyType element entries) =
      (.map typeName kind keyType element result.1, result.2) := by
  simp only [bindWithin_map, Slot.item, if_neg hopen, hreads]

theorem bindWithin_member {typeName name : Text} {fields : Fields} {member : Member}
    (hfound : (schema.find typeName).findMember (Text.fold name) = some member)
    (hbinds : (member.ignoreSet || !member.writable) = false)
    (hthere : Entries.get? member.field fields = some child) (hops : Nat) :
    let result := Slot.bind schema converters value
      (site.into (schema.find typeName) member) steps child
    bindWithin schema converters value hops site (.member name :: steps) (.object typeName fields) =
      (.object typeName (Fields.put member.field result.1 fields), result.2) := by
  simp only [bindWithin, Slot.bind, Slot.enter, Fields.member, hfound, hbinds,
    Fields.update_eq_put _ _ hthere]
  rfl

end Slot

end KeyedText
