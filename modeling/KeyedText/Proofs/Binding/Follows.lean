import KeyedText.Proofs.Binding.Twice

/-!
# Where a key leads

Following a key to its end is a relation between a slot and what becomes of it. How many objects an
index may pass makes no difference to it: what is done within a bound is done within any larger one.
So a key that is followed twice from one slot comes to the same, even if the rest of the object
around the slot has changed in between.

## Main definitions

- `Act.Agrees` — a step that does whatever another one does without a fault
- `Slot.Follows` — what becomes of a slot when a key is followed without a fault
- `Slot.Addresses` — the member of an object that the first of some steps leads to
- `Fields.Stepped` — fields after a step on one of them
- `Slot.StepsInto` — what following a key does to the field of a member

## Main statements

- `Act.Agrees.indexedWithin` — a larger bound changes nothing
- `Slot.Follows.unique` — a key comes to one thing
- `Slot.Follows.content`, `Slot.Follows.position`, `Slot.Follows.key`, `Slot.Follows.fields` —
  following a key one step
- `Object.follows_bind` — binding a pair in an object
-/

namespace KeyedText

/-- A step that does whatever another one does without a fault. -/
def Act.Agrees (act act' : Act) : Prop :=
  ∀ slot, (∀ fault, (act slot).2 ≠ .failed fault) → act' slot = act slot

variable {schema : Schema} {converters : ConverterRegistry} {site : Site} {value : Option Text}
  {index : Index} {steps left : List Step} {act act' within within' : Act}

/-! ## Steps that agree -/

namespace Act.Agrees

theorem enterNew (h : Act.Agrees act act') (type : SlotType)
    (hfine : ∀ fault, (type.enterNew schema act).2 ≠ .failed fault) :
    type.enterNew schema act' = type.enterNew schema act := by
  induction type with
  | option content ih | boxed content ih =>
    have hcontent := ih hfine
    rw [SlotType.enterNew, hcontent]
    rfl
  | _ => exact h _ hfine

/-- Going on in the content of a slot. -/
theorem enter (h : Act.Agrees act act') :
    Act.Agrees (Slot.enter schema act) (Slot.enter schema act') := by
  intro slot hfine
  fun_induction Slot.enter schema act slot with
  | case1 content child outcome hchild =>
    have hnew : content.enterNew schema act' = content.enterNew schema act :=
      h.enterNew content (by rwa [hchild])
    rw [Slot.enter, hnew, hchild]
  | case2 content child outcome hchild ih | case3 content child outcome hchild ih =>
    rw [hchild] at ih
    rw [Slot.enter, ih hfine]
  | case4 slot hvacant hfilled hboxed =>
    have hsame : ∀ act : Act, slot.enter schema act = act slot := by
      intro act
      cases slot with
      | vacant content => exact absurd rfl (hvacant content)
      | filled content => exact absurd rfl (hfilled content)
      | boxed content => exact absurd rfl (hboxed content)
      | _ => rfl
    rw [hsame]
    exact h slot hfine

/-- Going on in the field of an object. -/
theorem update (h : Act.Agrees within within') (field : Text) (fields : Fields)
    (hfine : ∀ fault, (Fields.update field .skipped within fields).2 ≠ .failed fault) :
    Fields.update field .skipped within' fields = Fields.update field .skipped within fields := by
  cases hthere : Entries.get? field fields with
  | none => rw [Fields.update_of_missing _ _ hthere, Fields.update_of_missing _ _ hthere]
  | some child =>
    rw [Fields.update_eq_put _ _ hthere] at hfine ⊢
    rw [Fields.update_eq_put _ _ hthere, h child hfine]

theorem fieldsItem (h : Act.Agrees within within') (typeName : Text) (fields : Fields)
    (hfine : ∀ fault,
      (Fields.item schema site value index act within typeName fields).2 ≠ .failed fault) :
    Fields.item schema site value index act within' typeName fields =
      Fields.item schema site value index act within typeName fields := by
  rw [Fields.item] at hfine ⊢
  rw [Fields.item]
  cases hindexer : (schema.find typeName).indexer with
  | some indexer => rfl
  | none =>
    rw [hindexer] at hfine
    dsimp only at hfine ⊢
    cases hfound : (schema.find typeName).findMember (Text.fold itemName) with
    | none => rfl
    | some member =>
      rw [hfound] at hfine
      dsimp only at hfine ⊢
      split
      · rfl
      · next hbinds =>
        rw [if_neg hbinds] at hfine
        exact h.update member.field fields hfine

theorem indexedWith (h : Act.Agrees within within') :
    Act.Agrees (Slot.indexedWith schema site value index act within)
      (Slot.indexedWith schema site value index act within') := by
  rw [Slot.indexedWith_eq, Slot.indexedWith_eq]
  apply enter
  intro slot hfine
  cases slot with
  | object typeName fields | dynamic name typeName fields =>
    rw [Slot.inFields, Slot.inFields, h.fieldsItem typeName fields hfine]
  | _ => rfl

/-- What is done within a bound is done within any larger one. -/
theorem indexedWithin {hops hops' : Nat} (hle : hops ≤ hops') :
    Act.Agrees (Slot.indexedWithin schema site value index act hops)
      (Slot.indexedWithin schema site value index act hops') := by
  induction hops generalizing hops' with
  | zero =>
    -- where no more objects may be passed, every way into one is a fault
    have hends : ∀ within' : Act, Act.Agrees (fun slot => (slot, .failed .endless)) within' :=
      fun within' slot hfine => absurd rfl (hfine .endless)
    cases hops' with
    | zero => exact fun _ _ => rfl
    | succ hops' => exact (hends _).indexedWith
  | succ hops ih =>
    obtain ⟨more, rfl⟩ := Nat.exists_eq_add_of_le' hle
    exact (ih (Nat.le_add_left _ _)).indexedWith

end Act.Agrees

/-! ## Following a key -/

namespace Slot

/-- What becomes of a slot when a key is followed to its end without a fault. -/
def Follows (schema : Schema) (converters : ConverterRegistry) (value : Option Text) (site : Site)
    (steps : List Step) (before after : Slot) : Prop :=
  ∃ hops outcome, bindWithin schema converters value hops site steps before = (after, outcome) ∧
    ∀ fault, outcome ≠ .failed fault

variable {before after other slot child : Slot}

theorem bindWithin_agrees {hops hops' : Nat} (hle : hops ≤ hops') (site : Site)
    (steps : List Step) :
    Act.Agrees (bindWithin schema converters value hops site steps)
      (bindWithin schema converters value hops' site steps) := by
  rcases steps with _ | ⟨name | index, rest⟩
  · exact fun _ _ => rfl
  · exact fun _ _ => rfl
  · exact Act.Agrees.indexedWithin hle

/-- A key that is followed from one slot comes to one thing. -/
theorem Follows.unique (h : Follows schema converters value site steps before after)
    (h' : Follows schema converters value site steps before other) : after = other := by
  obtain ⟨hops, outcome, hrun, hfine⟩ := h
  obtain ⟨hops', outcome', hrun', hfine'⟩ := h'
  rcases Nat.le_total hops hops' with hle | hle
  · have hsame := bindWithin_agrees hle site steps before (by rwa [hrun])
    rw [hrun, hrun'] at hsame
    exact (congrArg Prod.fst hsame).symm
  · have hsame := bindWithin_agrees hle site steps before (by rwa [hrun'])
    rw [hrun, hrun'] at hsame
    exact congrArg Prod.fst hsame

theorem follows_of_bind {result : Slot × Outcome}
    (h : Slot.bind schema converters value site steps before = result)
    (hfine : ∀ fault, result.2 ≠ .failed fault) :
    Follows schema converters value site steps before result.1 := by
  rw [bind_eq_bindWithin] at h
  exact ⟨_, result.2, h, hfine⟩

/-- A key that leads further is followed through boxes and optional values. -/
theorem exists_enter (hne : steps ≠ []) (hops : Nat) (site : Site) :
    ∃ act, bindWithin schema converters value hops site steps = Slot.enter schema act := by
  rcases steps with _ | ⟨name | index, rest⟩
  · exact absurd rfl hne
  · exact ⟨_, rfl⟩
  · cases hops with
    | zero => exact ⟨_, rfl⟩
    | succ hops => exact ⟨_, rfl⟩

/-- Into the content of an optional value or a box. -/
theorem Follows.content (hne : steps ≠ []) (hthere : slot.childOrNew? schema .content = some child)
    (h : Follows schema converters value site steps slot after) :
    ∃ child', Follows schema converters value site steps child child' ∧
      after = slot.withContent child' := by
  obtain ⟨hops, outcome, hrun, hfine⟩ := h
  obtain ⟨act, hact⟩ := exists_enter hne hops site
  rw [hact, enter_content hthere, ← hact] at hrun
  obtain ⟨rfl, rfl⟩ := Prod.mk.inj hrun
  exact ⟨_, ⟨hops, _, rfl, hfine⟩, rfl⟩

/-- To a position of a list. -/
theorem Follows.position {element : SlotType} {items : List Slot} {n : Nat}
    (hreads : readPosition? index.text = some n)
    (h : Follows schema converters value site (.index index :: steps) (.list element items)
      after) :
    ∃ padded child', padded? (schema.initial element) items n = some padded ∧
      Follows schema converters value site steps ((items[n]?).getD (schema.initial element))
        child' ∧ after = .list element (padded.set n child') := by
  obtain ⟨hops, outcome, hrun, hfine⟩ := h
  cases hroom : padded? (schema.initial element) items n with
  | none =>
    rw [bindWithin_position_fault hreads hroom] at hrun
    exact absurd (congrArg Prod.snd hrun).symm (hfine _)
  | some padded =>
    rw [bindWithin_position hreads hroom] at hrun
    obtain ⟨rfl, rfl⟩ := Prod.mk.inj hrun
    exact ⟨padded, _, rfl, follows_of_bind rfl hfine, rfl⟩

/-- To the value of a key of a map. -/
theorem Follows.key {typeName : Text} {kind : MapKind} {keyType : KeyType} {element : SlotType}
    {entries : List (MapKey × Slot)} {key : MapKey} (hopen : kind ≠ .gated index.text)
    (hreads : keyType.read index = .ok key)
    (h : Follows schema converters value site (.index index :: steps)
      (.map typeName kind keyType element entries) after) :
    ∃ child', Follows schema converters value site steps
        ((MapKind.get? key entries).getD (schema.initial element)) child' ∧
      after = .map typeName kind keyType element (kind.put key child' entries) := by
  obtain ⟨hops, outcome, hrun, hfine⟩ := h
  rw [bindWithin_key hopen hreads, MapKind.upsert_eq_put] at hrun
  obtain ⟨rfl, rfl⟩ := Prod.mk.inj hrun
  exact ⟨_, follows_of_bind rfl hfine, rfl⟩

end Slot

/-! ## Into the fields of an object -/

/-- The member of an object that the first of some steps leads to, and the steps that are left
there: a member by its name, or the member `Item` for an index on an object without an indexer. -/
inductive Slot.Addresses (schema : Schema) (typeName : Text) : List Step → Member → List Step → Prop
  | member {name : Text} {steps : List Step} {member : Member}
      (found : (schema.find typeName).findMember (Text.fold name) = some member) :
      Addresses schema typeName (.member name :: steps) member steps
  | item {index : Index} {steps : List Step} {member : Member}
      (noIndexer : (schema.find typeName).indexer = none)
      (found : (schema.find typeName).findMember (Text.fold itemName) = some member) :
      Addresses schema typeName (.index index :: steps) member (.index index :: steps)

/-- The place behind the first of some steps, which lead to a member. An index leaves the place as
it is. -/
def Site.along (site : Site) (type : ObjectType) (member : Member) : List Step → Site
  | .member _ :: _ => site.into type member
  | _ => site

/-- Fields after a step on one of them. Where the field is not there the step is not taken. -/
inductive Fields.Stepped (field : Text) (step : Slot → Slot → Prop) : Fields → Fields → Prop
  | missing {fields : Fields} (none : Entries.get? field fields = none) :
      Stepped field step fields fields
  | put {fields : Fields} {child child' : Slot} (there : Entries.get? field fields = some child)
      (taken : step child child') : Stepped field step fields (Fields.put field child' fields)

namespace Fields

variable {field : Text} {step : Slot → Slot → Prop} {fields : Fields}

theorem stepped_self (h : ∀ child, step child child) (field : Text) (fields : Fields) :
    Stepped field step fields fields := by
  cases hthere : Entries.get? field fields with
  | none => exact .missing hthere
  | some child =>
    have hput : Stepped field step fields (put field child fields) := .put hthere (h child)
    rwa [put_of_get? hthere] at hput

theorem stepped_update
    (h : ∀ child, (∀ fault, (act child).2 ≠ .failed fault) → step child (act child).1)
    (hfine : ∀ fault, (update field .skipped act fields).2 ≠ .failed fault) :
    Stepped field step fields (update field .skipped act fields).1 := by
  cases hthere : Entries.get? field fields with
  | none =>
    rw [update_of_missing _ _ hthere]
    exact .missing hthere
  | some child =>
    rw [update_eq_put _ _ hthere] at hfine ⊢
    exact .put hthere (h child hfine)

end Fields

namespace Slot

variable {after : Slot}

/-- What following a key does to the field of a member: nothing if the member ignores writes. -/
def StepsInto (schema : Schema) (converters : ConverterRegistry) (value : Option Text)
    (site : Site) (typeName : Text) (member : Member) (steps left : List Step)
    (child child' : Slot) : Prop :=
  if member.ignoreSet || !member.writable then child' = child
  else Follows schema converters value (site.along (schema.find typeName) member steps) left child
    child'

theorem StepsInto.unique {typeName : Text} {member : Member} {child before : Slot}
    (h : StepsInto schema converters value site typeName member steps left child before)
    (h' : StepsInto schema converters value site typeName member steps left child after) :
    before = after := by
  rw [StepsInto] at h h'
  split at h
  · next hignored =>
    rw [if_pos hignored] at h'
    rw [h, h']
  · next hbinds =>
    rw [if_neg hbinds] at h'
    exact h.unique h'

/-- Within a bound, the first of some steps goes on in the field of the member that it leads to. -/
theorem Addresses.exists_update {typeName : Text} {member : Member}
    (h : Addresses schema typeName steps member left) (hops : Nat) (site : Site) :
    ∃ act : Act, (∀ fields, bindWithin schema converters value hops site steps
        (.object typeName fields) =
          if member.ignoreSet || !member.writable then (.object typeName fields, .skipped)
          else (.object typeName (Fields.update member.field .skipped act fields).1,
            (Fields.update member.field .skipped act fields).2)) ∧
      ∀ child, (∀ fault, (act child).2 ≠ .failed fault) →
        Follows schema converters value (site.along (schema.find typeName) member steps) left child
          (act child).1 := by
  cases h with
  | @member name _ _ found =>
    refine ⟨Slot.bind schema converters value (site.into (schema.find typeName) member) left,
      fun fields => ?_, fun child hfine => follows_of_bind rfl hfine⟩
    simp only [bindWithin, Slot.bind, Slot.enter, Fields.member, found]
    split <;> rfl
  | @item index steps member noIndexer found =>
    cases hops with
    | zero =>
      refine ⟨fun slot => (slot, .failed .endless), fun fields => ?_,
        fun child hfine => absurd rfl (hfine .endless)⟩
      simp only [bindWithin, indexedWithin, indexedWith, Slot.enter, Fields.item, noIndexer, found]
      split <;> rfl
    | succ hops =>
      refine ⟨bindWithin schema converters value hops site (.index index :: steps),
        fun fields => ?_, fun child hfine => ⟨hops, _, rfl, hfine⟩⟩
      simp only [bindWithin, indexedWithin, indexedWith, Slot.enter, Fields.item, noIndexer, found]
      split <;> rfl

/-- To the field of a member. -/
theorem Follows.fields {typeName : Text} {member : Member} {fields : Fields}
    (haddresses : Addresses schema typeName steps member left)
    (h : Follows schema converters value site steps (.object typeName fields) after) :
    ∃ fields', after = .object typeName fields' ∧ Fields.Stepped member.field
      (StepsInto schema converters value site typeName member steps left) fields fields' := by
  obtain ⟨hops, outcome, hrun, hfine⟩ := h
  obtain ⟨act, hact, hfollows⟩ := haddresses.exists_update hops site
  rw [hact] at hrun
  split at hrun
  · next hignored =>
    obtain ⟨rfl, -⟩ := Prod.mk.inj hrun
    exact ⟨fields, rfl, Fields.stepped_self (fun child => by simp [StepsInto, hignored]) _ _⟩
  · next hbinds =>
    obtain ⟨rfl, rfl⟩ := Prod.mk.inj hrun
    refine ⟨_, rfl, Fields.stepped_update (fun child hchild => ?_) hfine⟩
    rw [StepsInto, if_neg hbinds]
    exact hfollows child hchild

end Slot

/-- A bound that is counted at the slot itself is one bound, since an index goes to one slot. -/
theorem Fields.exists_item (within : Nat → Act) (limit : Slot → Nat) (typeName : Text)
    (fields : Fields) :
    ∃ hops, Fields.item schema site value index act (within hops) typeName fields =
      Fields.item schema site value index act (fun slot => within (limit slot) slot) typeName
        fields := by
  cases hindexer : (schema.find typeName).indexer with
  | some indexer => exact ⟨0, by simp only [Fields.item, hindexer]⟩
  | none =>
    cases hfound : (schema.find typeName).findMember (Text.fold itemName) with
    | none => exact ⟨0, by simp only [Fields.item, hindexer, hfound]⟩
    | some member =>
      cases hthere : Entries.get? member.field fields with
      | none =>
        exact ⟨0, by simp only [Fields.item, hindexer, hfound, update_of_missing _ _ hthere]⟩
      | some child =>
        exact ⟨limit child, by simp only [Fields.item, hindexer, hfound, update_eq_put _ _ hthere]⟩

/-- Binding a pair in an object is following its key in the object, if the key leads further. -/
theorem Object.follows_bind {options : BindOptions} {pair : Pair} {target after : Object}
    {outcome : Outcome} (hne : steps ≠ [])
    (h : target.bind schema options pair steps = (after, outcome))
    (hfine : ∀ fault, outcome ≠ .failed fault) :
    Slot.Follows schema options.converters pair.value
      (Site.ofPair options pair (schema.find target.typeName).label) steps target.toSlot
      after.toSlot := by
  let site := Site.ofPair options pair (schema.find target.typeName).label
  rcases steps with _ | ⟨name | index, rest⟩
  · exact absurd rfl hne
  · have hrun : Slot.bind schema options.converters pair.value site (.member name :: rest)
        target.toSlot = (after.toSlot, outcome) := by
      rw [Object.bind] at h
      obtain ⟨rfl, rfl⟩ := Prod.mk.inj h
      rfl
    exact Slot.follows_of_bind hrun hfine
  · let act := Slot.bind schema options.converters pair.value site rest
    obtain ⟨hops, hitem⟩ := @Fields.exists_item schema site pair.value index act
      (Slot.indexedWithin schema site pair.value index act) schema.hopLimit target.typeName
      target.fields
    have hrun : Slot.bindWithin schema options.converters pair.value (hops + 1) site
        (.index index :: rest) target.toSlot =
      ((⟨target.typeName, (Fields.item schema site pair.value index act
          (Slot.indexedWithin schema site pair.value index act hops) target.typeName
          target.fields).1⟩ : Object).toSlot,
        (Fields.item schema site pair.value index act
          (Slot.indexedWithin schema site pair.value index act hops) target.typeName
          target.fields).2) := rfl
    rw [hitem] at hrun
    obtain ⟨rfl, rfl⟩ := Prod.mk.inj h
    exact ⟨hops + 1, _, hrun, hfine⟩

end KeyedText
