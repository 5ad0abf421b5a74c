import KeyedText.Proofs.Binding.Items

/-!
# Slots that only grow

On its way along the steps of a key a write makes room: it fills an optional value, adds items up to
a position of a list and adds an entry to a map. Everything that is added so is as new slots are. A
slot that has grown in this way holds whatever it held before, and it is the same slot when no place
of it is new.

## Main definitions

- `Slot.GoesTo` — the field that a step of a key leads to, with the steps that are left
- `Slot.Grown` — a slot that has only grown, along the steps of a key
- `Slot.Bare` — a slot that nothing lies behind
- `Slot.Extends` — a slot that holds what an earlier one holds, and else what new slots hold

## Main statements

- `Slot.Extends.leaf?` — what it means for the scalars of a slot
- `Slot.Grown.extends` — a slot that has only grown has kept what it held
- `Slot.Grown.eq_of_places` — a slot that has grown by no place is the same
-/

namespace KeyedText

theorem ObjectType.mem_of_findMember {type : ObjectType} {folded : Text} {member : Member}
    (h : type.findMember folded = some member) : member ∈ type.members := by
  obtain ⟨position, -, hmember⟩ := Option.bind_eq_some_iff.1 h
  exact List.mem_of_getElem? hmember

namespace Slot

/-- The field of an object that the first of some steps leads to, and the steps that are left there:
a member that takes writes, the map of an indexer, or the member `Item` of an object without an
indexer. An index is left to be looked up in the field. -/
inductive GoesTo (schema : Schema) (typeName : Text) : List Step → Text → List Step → Prop
  | member {name : Text} {steps : List Step} {member : Member}
      (found : (schema.find typeName).findMember (Text.fold name) = some member)
      (binds : (member.ignoreSet || !member.writable) = false) :
      GoesTo schema typeName (.member name :: steps) member.field steps
  | item {index : Index} {steps : List Step} {member : Member}
      (noIndexer : (schema.find typeName).indexer = none)
      (found : (schema.find typeName).findMember (Text.fold itemName) = some member)
      (binds : (member.ignoreSet || !member.writable) = false) :
      GoesTo schema typeName (.index index :: steps) member.field (.index index :: steps)
  | indexer {index : Index} {steps : List Step} {indexer : Indexer}
      (found : (schema.find typeName).indexer = some indexer)
      (isOpen : indexer.closed ≠ some index.text) :
      GoesTo schema typeName (.index index :: steps) indexer.field (.index index :: steps)

/-- A slot that differs from an earlier one at most by what comes into being along the steps of a
key. -/
inductive Grown (schema : Schema) : List Step → Slot → Slot → Prop
  | stays (steps : List Step) (slot : Slot) : Grown schema steps slot slot
  | content {steps : List Step} {slot child child' : Slot}
      (there : slot.childOrNew? schema .content = some child)
      (rest : Grown schema steps child child') : Grown schema steps slot (slot.withContent child')
  | position {element : SlotType} {items padded : List Slot} {index : Index} {n : Nat}
      {steps : List Step} {child' : Slot} (reads : readPosition? index.text = some n)
      (room : padded? (schema.initial element) items n = some padded)
      (rest : Grown schema steps ((items[n]?).getD (schema.initial element)) child') :
      Grown schema (.index index :: steps) (.list element items)
        (.list element (padded.set n child'))
  | key {typeName : Text} {kind : MapKind} {keyType : KeyType} {element : SlotType}
      {entries : List (MapKey × Slot)} {index : Index} {key : MapKey} {steps : List Step}
      {child' : Slot} (isOpen : kind ≠ .gated index.text) (reads : keyType.read index = .ok key)
      (rest : Grown schema steps ((MapKind.get? key entries).getD (schema.initial element))
        child') :
      Grown schema (.index index :: steps) (.map typeName kind keyType element entries)
        (.map typeName kind keyType element (kind.put key child' entries))
  | field {typeName field : Text} {make : Fields → Slot} {fields : Fields}
      {steps left : List Step} {child child' : Slot} (isObject : IsObject typeName make)
      (goes : GoesTo schema typeName steps field left)
      (there : Entries.get? field fields = some child)
      (rest : Grown schema left child child') :
      Grown schema steps (make fields) (make (Fields.put field child' fields))

/-- A slot that nothing lies behind, nor can come to lie behind: a scalar, the name of a type, a
dynamic slot without an object, or an object without fields. -/
def Bare (schema : Schema) (slot : Slot) : Prop :=
  ∀ turn, slot.childOrNew? schema turn = none

/-- A slot that holds whatever an earlier one holds. All that it holds is what the earlier one has,
or would have when the places came into being. -/
structure Extends (schema : Schema) (before after : Slot) : Prop where
  keeps : ∀ place slot, slot.Bare schema → before.at? place = some slot →
    after.at? place = some slot
  fresh : ∀ place slot, slot.Bare schema → after.at? place = some slot →
    before.atOrNew? schema place = some slot

variable {schema : Schema} {turn : Turn} {place : Location} {steps : List Step}
  {slot child child' before after : Slot}

theorem bare_scalar (schema : Schema) (value : Scalar) : (scalar value).Bare schema := by
  intro turn
  cases turn <;> rfl

/-- Every scalar of a slot is one of the slot that holds whatever it holds. -/
theorem Extends.leaf? (h : Extends schema before after) {value : Scalar}
    (hleaf : before.leaf? place = some value) : after.leaf? place = some value :=
  leaf?_of_at? (h.keeps place _ (bare_scalar schema value) (at?_of_leaf? hleaf))

theorem Extends.refl (schema : Schema) (slot : Slot) : Extends schema slot slot :=
  ⟨fun _ _ _ h => h, fun _ _ _ h => atOrNew?_of_at? h⟩

/-- What is kept inside of a slot is kept in the slot, when nothing else changes behind its
turns. -/
theorem Extends.step (h : Extends schema child child')
    (hchange : Changed schema turn child child' before after) : Extends schema before after := by
  constructor
  · intro place slot hbare hat
    cases place with
    | nil =>
      -- the turn leads on from here, so this is no bare slot
      obtain rfl := Option.some.inj hat
      exact absurd (hbare turn) (by simp [hchange.was])
    | cons first place =>
      rw [at?, Option.bind_eq_some_iff] at hat ⊢
      obtain ⟨middle, hmiddle, hplace⟩ := hat
      by_cases hsame : first.same turn = true
      · rw [Turn.child?_eq hsame] at hmiddle ⊢
        have hwas := hchange.was
        rw [childOrNew?_of_child? hmiddle] at hwas
        obtain rfl := Option.some.inj hwas
        exact ⟨child', hchange.now, h.keeps place slot hbare hplace⟩
      · exact ⟨middle, hchange.keeps first (by simpa using hsame) middle hmiddle, hplace⟩
  · intro place slot hbare hat
    cases place with
    | nil =>
      obtain rfl := Option.some.inj hat
      exact absurd (hbare turn) (by simp [childOrNew?_of_child? hchange.now])
    | cons first place =>
      rw [at?, Option.bind_eq_some_iff] at hat
      obtain ⟨middle, hmiddle, hplace⟩ := hat
      rw [atOrNew?]
      by_cases hsame : first.same turn = true
      · rw [Turn.child?_eq hsame, hchange.now] at hmiddle
        obtain rfl := Option.some.inj hmiddle
        rw [childOrNew?, Turn.child?_eq hsame, Turn.created?_eq hsame, ← childOrNew?, hchange.was]
        exact h.fresh place slot hbare hplace
      · rw [Bool.not_eq_true] at hsame
        rw [hchange.childOrNew?_eq hsame hmiddle]
        exact atOrNew?_of_at? hplace

/-! ## Slots that have grown -/

/-- A slot that has only grown has kept what it held, and what is new in it is as new slots
are. -/
theorem Grown.extends (h : Grown schema steps before after) : Extends schema before after := by
  induction h with
  | stays steps slot => exact .refl schema slot
  | content there _ ih => exact ih.step (changed_content there _)
  | position _ room _ ih => exact ih.step (changed_position room _)
  | key _ _ _ ih => exact ih.step (changed_key _ _ _ _ _ _ _ _)
  | field isObject _ there _ ih => exact ih.step (changed_field schema isObject there _)

/-- Where no place of a slot is new, the slot behind the turn was there, and no place of it is new
either. -/
theorem Changed.there (h : Changed schema turn child child' before after)
    (hplaces : ∀ place, (after.at? place).isSome → (before.at? place).isSome) :
    before.child? turn = some child ∧
      ∀ place, (child'.at? place).isSome → (child.at? place).isSome := by
  have hthere : before.child? turn = some child := by
    have hplace : (before.at? [turn]).isSome := hplaces [turn] (by rw [at?, h.now]; rfl)
    rw [at?] at hplace
    cases hold : before.child? turn with
    | none => simp [hold] at hplace
    | some old =>
      have hwas := h.was
      rw [childOrNew?_of_child? hold] at hwas
      exact hwas
  refine ⟨hthere, fun place hplace => ?_⟩
  have hlater := hplaces (turn :: place)
  rw [at?, at?, h.now, hthere] at hlater
  exact hlater hplace

theorem withContent_of_child? (h : slot.child? .content = some child) :
    slot.withContent child = slot := by
  cases slot with
  | filled content => exact congrArg Slot.filled (Option.some.inj h).symm
  | boxed content => exact congrArg Slot.boxed (Option.some.inj h).symm
  | _ => exact absurd h (by simp [child?])

/-- A slot that has grown by no place is the same. -/
theorem Grown.eq_of_places (h : Grown schema steps before after)
    (hplaces : ∀ place, (after.at? place).isSome → (before.at? place).isSome) : after = before := by
  induction h with
  | stays steps slot => rfl
  | content there _ ih =>
    obtain ⟨hthere, hlater⟩ := (changed_content there _).there hplaces
    rw [ih hlater, withContent_of_child? hthere]
  | @position element items padded index n steps child' reads room _ ih =>
    obtain ⟨hthere, hlater⟩ := (changed_position room _).there hplaces
    rw [child?] at hthere
    obtain ⟨hlt, hitem⟩ := List.getElem?_eq_some_iff.1 hthere
    rw [padded?, if_pos hlt] at room
    rw [← Option.some.inj room, ih hlater, ← hitem, List.set_getElem_self]
  | @key typeName kind keyType element entries index key steps child' _ _ _ ih =>
    obtain ⟨hthere, hlater⟩ := (changed_key schema _ _ _ _ _ _ _).there hplaces
    rw [child?, ← MapKind.get?] at hthere
    rw [ih hlater, MapKind.put_of_get? hthere]
  | field isObject _ there _ ih =>
    obtain ⟨-, hlater⟩ := (changed_field schema isObject there _).there hplaces
    rw [ih hlater, Fields.put_of_get? there]

end Slot

end KeyedText
