import KeyedText.Proofs.Binding.Twice

/-!
# Indices that are handed on

An index on an object without an indexer is handed on to its member `Item`, with nothing used up. If
that holds such an object again, the index is handed on once more, and an optional `Item` makes the
object that it is handed on to. So an index may go round in circles. Following a key bounds how
often an index is handed on; the bound is large enough that it is met only by those indices that
would be handed on for ever.

## Main definitions

- `Slot.innermost` — the slot that the way into a slot ends at
- `Slot.item?` — the slot that an index is handed on to
- `Slot.settlesWithin` — an index is handed on at most a number of times

## Main statements

- `Slot.settlesWithin_hopLimit` — an index that is not handed on for ever stays within the bound
- `Slot.indexed_settles_or_endless` — what an index does does not depend on the bound
- `Object.populate_settles` — no key is endless when new objects hand an index on a few times only
-/

namespace KeyedText

variable {schema : Schema} {site : Site} {value : Option Text} {index : Index}
  {act within within' : Act} {slot next : Slot} {typeName : Text} {fields : Fields}
  {hops more : Nat}

/-! ## Where an index is handed on to -/

/-- The slot that the way into a new slot ends at. -/
def SlotType.innermost (schema : Schema) : SlotType → Slot
  | .option content => content.innermost schema
  | .boxed content => content.innermost schema
  | type => schema.initial type

/-- The slot that the way into a slot ends at. -/
def Slot.innermost (schema : Schema) : Slot → Slot
  | .vacant content => content.innermost schema
  | .filled content => content.innermost schema
  | .boxed content => content.innermost schema
  | slot => slot

/-- The slot in the fields of an object that an index on it is handed on to. -/
def Fields.item? (schema : Schema) (typeName : Text) (fields : Fields) : Option Slot :=
  match (schema.find typeName).indexer, (schema.find typeName).findMember (Text.fold itemName) with
  | none, some member =>
    if member.ignoreSet || !member.writable then none else Entries.get? member.field fields
  | _, _ => none

/-- The slot that an index on a slot is handed on to. -/
def Slot.item? (schema : Schema) (slot : Slot) : Option Slot :=
  match slot.innermost schema with
  | .object typeName fields => Fields.item? schema typeName fields
  | .dynamic _ typeName fields => Fields.item? schema typeName fields
  | _ => none

/-- Whether an index on a slot is handed on at most a number of times. -/
def Slot.settlesWithin (schema : Schema) : Nat → Slot → Bool
  | 0, slot => (slot.item? schema).isNone
  | hops + 1, slot => (slot.item? schema).all (settlesWithin schema hops)

namespace Slot

/-! ## One step of handing on -/

/-- The way into a new slot is decided by what is done to the slot that it ends at. -/
theorem enterNew_congr {act act' : Act} {type : SlotType}
    (h : act (type.innermost schema) = act' (type.innermost schema)) :
    type.enterNew schema act = type.enterNew schema act' := by
  induction type with
  | option content ih | boxed content ih => rw [SlotType.enterNew, SlotType.enterNew, ih h]
  | _ => exact h

theorem enterNew_outcome (act : Act) (type : SlotType) :
    (type.enterNew schema act).2 = (act (type.innermost schema)).2 := by
  induction type with
  | option content ih | boxed content ih => exact ih
  | _ => rfl

/-- The way into a slot is decided by what is done to the slot that it ends at. -/
theorem enter_congr {act act' : Act}
    (h : act (slot.innermost schema) = act' (slot.innermost schema)) :
    slot.enter schema act = slot.enter schema act' := by
  fun_induction Slot.innermost schema slot with
  | case1 content => rw [enter, enter, enterNew_congr h]
  | case2 content ih | case3 content ih => rw [enter, enter, ih h]
  | case4 slot hvacant hfilled hboxed =>
    cases slot with
    | vacant content => exact absurd rfl (hvacant content)
    | filled content => exact absurd rfl (hfilled content)
    | boxed content => exact absurd rfl (hboxed content)
    | _ => exact h

theorem enter_outcome (act : Act) (slot : Slot) :
    (slot.enter schema act).2 = (act (slot.innermost schema)).2 := by
  fun_induction Slot.innermost schema slot with
  | case1 content => exact enterNew_outcome act content
  | case2 content ih | case3 content ih => exact ih
  | case4 slot hvacant hfilled hboxed =>
    cases slot with
    | vacant content => exact absurd rfl (hvacant content)
    | filled content => exact absurd rfl (hfilled content)
    | boxed content => exact absurd rfl (hboxed content)
    | _ => rfl

end Slot

/-- An index on an object does what is done to the slot that it is handed on to. -/
theorem Fields.item_congr
    (h : ∀ next, Fields.item? schema typeName fields = some next → within next = within' next) :
    Fields.item schema site value index act within typeName fields =
      Fields.item schema site value index act within' typeName fields := by
  rw [Fields.item, Fields.item]
  rw [Fields.item?] at h
  cases hindexer : (schema.find typeName).indexer with
  | some indexer => rfl
  | none =>
    cases hfound : (schema.find typeName).findMember (Text.fold itemName) with
    | none => rfl
    | some member =>
      rw [hindexer, hfound] at h
      dsimp only at h ⊢
      split
      · rfl
      · next hbinds =>
        rw [if_neg hbinds] at h
        cases hthere : Entries.get? member.field fields with
        | none => rw [update_of_missing _ _ hthere, update_of_missing _ _ hthere]
        | some next =>
          rw [update_eq_put _ _ hthere, update_eq_put _ _ hthere, h next hthere]

theorem Fields.item_outcome (h : Fields.item? schema typeName fields = some next) :
    (Fields.item schema site value index act within typeName fields).2 = (within next).2 := by
  rw [Fields.item]
  rw [Fields.item?] at h
  cases hindexer : (schema.find typeName).indexer with
  | some indexer => rw [hindexer] at h; cases h
  | none =>
    cases hfound : (schema.find typeName).findMember (Text.fold itemName) with
    | none => rw [hindexer, hfound] at h; cases h
    | some member =>
      rw [hindexer, hfound] at h
      dsimp only at h ⊢
      split
      · next hbinds => rw [if_pos hbinds] at h; cases h
      · next hbinds =>
        rw [if_neg hbinds] at h
        rw [update_eq_put _ _ h]

namespace Slot

/-- An index on a slot does what is done to the slot that it is handed on to. -/
theorem indexedWith_congr
    (h : ∀ next, slot.item? schema = some next → within next = within' next) :
    slot.indexedWith schema site value index act within =
      slot.indexedWith schema site value index act within' := by
  rw [indexedWith_eq, indexedWith_eq]
  apply enter_congr
  rw [item?] at h
  cases hinner : slot.innermost schema with
  | object typeName fields | dynamic name typeName fields =>
    rw [hinner] at h
    rw [inFields, inFields, Fields.item_congr h]
  | _ => rfl

theorem indexedWith_outcome (h : slot.item? schema = some next) :
    (slot.indexedWith schema site value index act within).2 = (within next).2 := by
  rw [indexedWith_eq, enter_outcome]
  rw [item?] at h
  cases hinner : slot.innermost schema with
  | object typeName fields | dynamic name typeName fields =>
    rw [hinner] at h
    exact Fields.item_outcome h
  | _ => rw [hinner] at h; cases h

/-! ## Indices that settle -/

theorem settlesWithin_of_item?_none (h : slot.item? schema = none) :
    slot.settlesWithin schema hops = true := by
  cases hops <;> simp [settlesWithin, h]

theorem settlesWithin_succ (h : slot.item? schema = some next) :
    slot.settlesWithin schema (hops + 1) = next.settlesWithin schema hops := by
  rw [settlesWithin, h, Option.all_some]

theorem settlesWithin_mono (h : slot.settlesWithin schema hops = true) (hle : hops ≤ more) :
    slot.settlesWithin schema more = true := by
  induction hops generalizing slot more with
  | zero => exact settlesWithin_of_item?_none (by simpa [settlesWithin] using h)
  | succ hops ih =>
    obtain ⟨more, rfl⟩ := Nat.exists_eq_add_of_le' hle
    cases hitem : slot.item? schema with
    | none => exact settlesWithin_of_item?_none hitem
    | some next =>
      rw [settlesWithin_succ hitem] at h
      rw [← Nat.add_assoc, settlesWithin_succ hitem]
      exact ih h (Nat.le_add_left hops more)

/-- What an index does that settles does not depend on how often it may be handed on. -/
theorem indexedWithin_eq (h : slot.settlesWithin schema hops = true) (hle : hops ≤ more) :
    slot.indexedWithin schema site value index act more =
      slot.indexedWithin schema site value index act hops := by
  induction hops generalizing slot more with
  | zero =>
    have hitem : slot.item? schema = none := by simpa [settlesWithin] using h
    cases more <;> exact indexedWith_congr fun next hnext => by simp [hitem] at hnext
  | succ hops ih =>
    obtain ⟨more, rfl⟩ := Nat.exists_eq_add_of_le' hle
    refine indexedWith_congr fun next hnext => ?_
    rw [settlesWithin_succ hnext] at h
    exact ih h (Nat.le_add_left hops more)

/-- An index that never settles is handed on to a slot where it does not settle either. -/
theorem exists_item?_of_endless (h : ∀ hops, slot.settlesWithin schema hops = false) :
    ∃ next, slot.item? schema = some next ∧ ∀ hops, next.settlesWithin schema hops = false := by
  cases hitem : slot.item? schema with
  | none => exact absurd (h 0) (by simp [settlesWithin, hitem])
  | some next =>
    refine ⟨next, rfl, fun hops => ?_⟩
    rw [← settlesWithin_succ hitem]
    exact h (hops + 1)

/-- An index that never settles is endless, however often it may be handed on. -/
theorem indexedWithin_endless (h : ∀ hops, slot.settlesWithin schema hops = false) (hops : Nat) :
    (slot.indexedWithin schema site value index act hops).2 = .failed .endless := by
  induction hops generalizing slot with
  | zero =>
    obtain ⟨next, hitem, -⟩ := exists_item?_of_endless h
    exact indexedWith_outcome hitem
  | succ hops ih =>
    obtain ⟨next, hitem, hnext⟩ := exists_item?_of_endless h
    exact (indexedWith_outcome hitem).trans (ih hnext)

/-! ## The bound -/

theorem objectDepth_le_of_get? {field : Text} (h : Entries.get? field fields = some slot) :
    slot.objectDepth ≤ objectDepthOfFields fields := by
  induction fields with
  | nil => cases h
  | cons entry fields ih =>
    obtain ⟨name, held⟩ := entry
    rw [Fields.get?_cons] at h
    rw [objectDepthOfFields]
    split at h
    · obtain rfl := Option.some.inj h
      exact Nat.le_max_left _ _
    · exact (ih h).trans (Nat.le_max_right _ _)

/-- The way into a new slot ends at a new slot. -/
theorem exists_innermost_eq (schema : Schema) (type : SlotType) :
    ∃ content, type.innermost schema = schema.initial content := by
  induction type with
  | option content ih | boxed content ih => exact ih
  | _ => exact ⟨_, rfl⟩

/-- The way into a slot ends at a slot inside of it or at a new one. -/
theorem innermost_cases (schema : Schema) (slot : Slot) :
    (slot.innermost schema).objectDepth = slot.objectDepth ∨
      ∃ content, slot.innermost schema = schema.initial content := by
  fun_induction Slot.innermost schema slot with
  | case1 content => exact .inr (exists_innermost_eq schema content)
  | case2 content ih | case3 content ih => exact ih
  | case4 slot => exact .inl rfl

/-- An index is handed on to a slot with fewer objects inside one another, unless it is a new object
that hands it on. -/
theorem item?_cases (h : slot.item? schema = some next) :
    next.objectDepth + 1 ≤ slot.objectDepth ∨
      ∃ typeName, slot.innermost schema = (schema.newObject typeName).toSlot ∧
        next.objectDepth ≤ objectDepthOfFields (schema.newObject typeName).fields := by
  have hdepth : ∀ typeName fields, Fields.item? schema typeName fields = some next →
      next.objectDepth ≤ objectDepthOfFields fields := by
    intro typeName fields hitem
    rw [Fields.item?] at hitem
    split at hitem
    · split at hitem
      · cases hitem
      · exact objectDepth_le_of_get? hitem
    · cases hitem
  rw [item?] at h
  obtain hsame | ⟨content, hnew⟩ := innermost_cases schema slot
  · refine .inl ?_
    rw [← hsame]
    cases hinner : slot.innermost schema with
    | object typeName fields | dynamic name typeName fields =>
      rw [hinner] at h
      rw [objectDepth, Nat.add_comm]
      exact Nat.add_le_add_left (hdepth _ _ h) 1
    | _ => rw [hinner] at h; cases h
  · refine .inr ?_
    rw [hnew] at h ⊢
    cases content with
    | object typeName => exact ⟨typeName, rfl, hdepth _ _ h⟩
    | _ => cases h

/-- Only a known type has a member that an index is handed on to. -/
theorem exists_type_of_item? (h : Fields.item? schema typeName fields = some next) :
    ∃ type ∈ schema.types, type.typeName = typeName ∧ schema.find typeName = type := by
  cases hfind : schema.types.find? fun type => type.typeName == typeName with
  | some type =>
    refine ⟨type, List.mem_of_find?_eq_some hfind, by simpa using List.find?_some hfind, ?_⟩
    rw [Schema.find, hfind]
  | none =>
    have hunknown : (schema.find typeName).findMember (Text.fold itemName) = none := by
      rw [Schema.find, hfind]
      rfl
    rw [Fields.item?, hunknown] at h
    split at h
    · next hfound => cases hfound
    · cases h

/-- How many objects lie inside one another in the new object of a type, if an index on it settles
within a number of times. -/
def settledDepth (schema : Schema) (hops : Nat) (type : ObjectType) : Nat :=
  if (schema.newObject type.typeName).toSlot.settlesWithin schema hops then
    1 + objectDepthOfFields type.initial
  else 0

theorem settledDepth_mono (schema : Schema) (hle : hops ≤ more) (type : ObjectType) :
    settledDepth schema hops type ≤ settledDepth schema more type := by
  rw [settledDepth, settledDepth]
  split
  · next h => rw [if_pos (settlesWithin_mono h hle)]
  · exact Nat.zero_le _

theorem settledDepth_le (schema : Schema) (hops : Nat) (type : ObjectType) :
    settledDepth schema hops type ≤ 1 + objectDepthOfFields type.initial := by
  rw [settledDepth]
  split
  · exact Nat.le_refl _
  · exact Nat.zero_le _

/-- The new objects of all types that settle within a number of times, taken together. -/
def settledDepths (schema : Schema) (hops : Nat) : List ObjectType → Nat
  | [] => 0
  | type :: rest => settledDepth schema hops type + settledDepths schema hops rest

theorem settledDepths_mono (schema : Schema) (hle : hops ≤ more) (types : List ObjectType) :
    settledDepths schema hops types ≤ settledDepths schema more types := by
  induction types with
  | nil => exact Nat.le_refl 0
  | cons type rest ih => exact Nat.add_le_add (settledDepth_mono schema hle type) ih

theorem settledDepths_le (schema : Schema) (hops : Nat) (types : List ObjectType) :
    settledDepths schema hops types ≤
      (types.map fun type => 1 + objectDepthOfFields type.initial).foldr (· + ·) 0 := by
  induction types with
  | nil => exact Nat.le_refl 0
  | cons type rest ih => exact Nat.add_le_add (settledDepth_le schema hops type) ih

/-- A type whose new object settles one time later adds what lies in that object. -/
theorem settledDepths_succ {types : List ObjectType} {type : ObjectType} (hmem : type ∈ types)
    (hbefore : (schema.newObject type.typeName).toSlot.settlesWithin schema hops = false)
    (hafter : (schema.newObject type.typeName).toSlot.settlesWithin schema (hops + 1) = true) :
    1 + objectDepthOfFields type.initial + settledDepths schema hops types ≤
      settledDepths schema (hops + 1) types := by
  have hlater : hops ≤ hops + 1 := Nat.le_add_right hops 1
  induction types with
  | nil => cases hmem
  | cons first rest ih =>
    rw [settledDepths, settledDepths]
    rcases List.mem_cons.1 hmem with rfl | hrest
    · have hrest := settledDepths_mono schema hlater rest
      have hzero : settledDepth schema hops type = 0 := if_neg (by simp [hbefore])
      have hall : settledDepth schema (hops + 1) type = 1 + objectDepthOfFields type.initial :=
        if_pos hafter
      omega
    · have hstep := ih hrest
      have hfirst := settledDepth_mono schema hlater first
      omega

/-- An index that settles does so after as many times as there are objects inside one another in the
slot, and in the new objects that settle before it. -/
theorem exists_settlesWithin_le (h : slot.settlesWithin schema hops = true) :
    ∃ few ≤ slot.objectDepth + settledDepths schema hops schema.types,
      slot.settlesWithin schema few = true := by
  induction hops generalizing slot with
  | zero => exact ⟨0, Nat.zero_le _, h⟩
  | succ hops ih =>
    have hmono := settledDepths_mono schema (Nat.le_add_right hops 1) schema.types
    by_cases hbefore : slot.settlesWithin schema hops = true
    · obtain ⟨few, hfew, hsettles⟩ := ih hbefore
      exact ⟨few, by omega, hsettles⟩
    · obtain ⟨next, hitem⟩ := Option.ne_none_iff_exists'.1 (mt settlesWithin_of_item?_none hbefore)
      rw [settlesWithin_succ hitem] at h
      obtain ⟨few, hfew, hsettles⟩ := ih h
      refine ⟨few + 1, ?_, by rwa [settlesWithin_succ hitem]⟩
      obtain hdepth | ⟨typeName, hinner, hdepth⟩ := item?_cases hitem
      · omega
      · -- the slot is as a new object, which does not settle earlier than the slot does
        have hnew : (schema.newObject typeName).toSlot.item? schema = some next := by
          rw [item?, hinner] at hitem
          exact hitem
        obtain ⟨type, hmem, rfl, hfind⟩ := exists_type_of_item? hnew
        have hlate : (schema.newObject type.typeName).toSlot.settlesWithin schema hops = false := by
          cases hops with
          | zero => simp [settlesWithin, hnew]
          | succ hops =>
            rw [settlesWithin_succ hitem] at hbefore
            rw [settlesWithin_succ hnew]
            simpa using hbefore
        have hthen : (schema.newObject type.typeName).toSlot.settlesWithin schema (hops + 1) =
            true := by rwa [settlesWithin_succ hnew]
        have hstep := settledDepths_succ hmem hlate hthen
        have hinitial : (schema.newObject type.typeName).fields = type.initial :=
          congrArg ObjectType.initial hfind
        rw [hinitial] at hdepth
        omega

/-- An index that settles at all is handed on no more often than the bound says. -/
theorem settlesWithin_hopLimit (h : slot.settlesWithin schema hops = true) :
    slot.settlesWithin schema (schema.hopLimit slot) = true := by
  obtain ⟨few, hfew, hsettles⟩ := exists_settlesWithin_le h
  refine settlesWithin_mono hsettles (hfew.trans ?_)
  exact Nat.add_le_add_left (settledDepths_le schema hops schema.types) _

/-- **The bound is met by endless indices only.** An index either settles, and does the same under
any greater bound, or it would be handed on for ever. -/
theorem indexed_settles_or_endless (schema : Schema) (site : Site) (value : Option Text)
    (index : Index) (act : Act) (slot : Slot) :
    (slot.settlesWithin schema (schema.hopLimit slot) = true ∧
        ∀ more, schema.hopLimit slot ≤ more →
          slot.indexedWithin schema site value index act more =
            slot.indexed schema site value index act) ∨
      ∀ hops, (slot.indexedWithin schema site value index act hops).2 = .failed .endless := by
  by_cases hsettles : ∃ hops, slot.settlesWithin schema hops = true
  · obtain ⟨hops, hhops⟩ := hsettles
    have hlimit := settlesWithin_hopLimit hhops
    exact .inl ⟨hlimit, fun more hmore => indexedWithin_eq hlimit hmore⟩
  · refine .inr (indexedWithin_endless fun hops => ?_)
    simpa using fun h => hsettles ⟨hops, h⟩

end Slot

/-! ## Keys that end -/

/-- A schema whose new objects do not hand an index on for ever. -/
def Schema.Settles (schema : Schema) : Prop :=
  ∀ type ∈ schema.types, ∃ hops,
    (schema.newObject type.typeName).toSlot.settlesWithin schema hops = true

theorem Schema.settles_iff : schema.Settles ↔ ∀ type ∈ schema.types,
    (schema.newObject type.typeName).toSlot.settlesWithin schema
      (schema.hopLimit (schema.newObject type.typeName).toSlot) = true :=
  forall₂_congr fun _ _ => ⟨fun ⟨_, h⟩ => Slot.settlesWithin_hopLimit h, fun h => ⟨_, h⟩⟩

instance (schema : Schema) : Decidable schema.Settles :=
  decidable_of_iff' _ Schema.settles_iff

/-- A step that is never endless. -/
def Act.Settles (act : Act) : Prop :=
  ∀ slot, (act slot).2 ≠ .failed .endless

theorem Site.fault_ne_endless (site : Site) (value : Option Text) (cause : Cause) :
    site.fault value cause ≠ .failed .endless := by
  simp [Site.fault]

/-- When new objects do not hand an index on for ever, no slot does. -/
theorem Slot.exists_settlesWithin (hschema : schema.Settles) (slot : Slot) :
    ∃ hops, slot.settlesWithin schema hops = true := by
  induction hdepth : slot.objectDepth using Nat.strong_induction_on generalizing slot with
  | _ depth ih =>
    cases hitem : slot.item? schema with
    | none => exact ⟨0, settlesWithin_of_item?_none hitem⟩
    | some next =>
      obtain hinside | ⟨typeName, hinner, -⟩ := item?_cases hitem
      · obtain ⟨hops, hhops⟩ := ih next.objectDepth (by omega) next rfl
        exact ⟨hops + 1, by rwa [settlesWithin_succ hitem]⟩
      · have hnew : (schema.newObject typeName).toSlot.item? schema = some next := by
          rw [item?, hinner] at hitem
          exact hitem
        obtain ⟨type, hmem, rfl, -⟩ := exists_type_of_item? hnew
        obtain ⟨hops, hhops⟩ := hschema type hmem
        have hnext := settlesWithin_mono hhops (Nat.le_add_right hops 1)
        rw [settlesWithin_succ hnew] at hnext
        exact ⟨hops + 1, by rwa [settlesWithin_succ hitem]⟩

namespace Act.Settles

theorem actAt (h : act.Settles) (position : Nat) (items : List Slot) :
    (KeyedText.actAt act position items).2 ≠ .failed .endless := by
  induction items generalizing position with
  | nil => simp [KeyedText.actAt]
  | cons item items ih =>
    cases position with
    | zero => exact h item
    | succ position => exact ih position

theorem update (h : act.Settles) (field : Text) (fields : Fields) :
    (Fields.update field .skipped act fields).2 ≠ .failed .endless := by
  cases hthere : Entries.get? field fields with
  | none => simp [Fields.update_of_missing _ _ hthere]
  | some slot =>
    rw [Fields.update_eq_put _ _ hthere]
    exact h slot

theorem item (h : act.Settles) :
    Act.Settles (Slot.item schema site value index act) := by
  intro slot
  cases slot with
  | list element items =>
    rw [Slot.item]
    split
    · exact site.fault_ne_endless value _
    · split
      · exact site.fault_ne_endless value _
      · exact h.actAt _ _
  | map typeName kind keyType element entries =>
    rw [Slot.item]
    split
    · simp
    · split
      · exact site.fault_ne_endless value _
      · rw [MapKind.upsert_eq_put]
        exact h _
  | _ => simp [Slot.item]

theorem fieldsItem (h : act.Settles)
    (hwithin : ∀ next, Fields.item? schema typeName fields = some next →
      (within next).2 ≠ .failed .endless) :
    (Fields.item schema site value index act within typeName fields).2 ≠ .failed .endless := by
  cases hitem : Fields.item? schema typeName fields with
  | some next =>
    rw [Fields.item_outcome hitem]
    exact hwithin next hitem
  | none =>
    -- nothing is handed on, so a step that goes nowhere does the same
    have hnowhere : Act.Settles fun slot => (slot, .skipped) := fun slot => by simp
    have hcongr : Fields.item schema site value index act within typeName fields =
        Fields.item schema site value index act (fun slot => (slot, .skipped)) typeName fields :=
      Fields.item_congr fun next hnext => by simp [hitem] at hnext
    rw [hcongr, Fields.item]
    split
    · split
      · simp
      · exact h.item.update _ _
    · split
      · simp
      · split
        · simp
        · exact hnowhere.update _ _

/-- A step into the fields of an object is not endless when it is not so in the slot that the way
ends at. -/
theorem enterFields {go : Text → Fields → Fields × Outcome} (h : act.Settles)
    (hobject : ∀ typeName fields, slot.innermost schema = .object typeName fields →
      (go typeName fields).2 ≠ .failed .endless)
    (hdynamic : ∀ name typeName fields, slot.innermost schema = .dynamic name typeName fields →
      (go typeName fields).2 ≠ .failed .endless) :
    (slot.enter schema (Slot.inFields go act)).2 ≠ .failed .endless := by
  rw [Slot.enter_outcome]
  cases hinner : slot.innermost schema with
  | object typeName fields => exact hobject typeName fields hinner
  | dynamic name typeName fields => exact hdynamic name typeName fields hinner
  | _ => exact h _

theorem indexedWith (h : act.Settles)
    (hwithin : ∀ next, slot.item? schema = some next → (within next).2 ≠ .failed .endless) :
    (slot.indexedWith schema site value index act within).2 ≠ .failed .endless := by
  rw [Slot.item?] at hwithin
  rw [Slot.indexedWith_eq]
  refine h.item.enterFields (fun typeName fields hinner => ?_) fun name typeName fields hinner => ?_
  all_goals
    rw [hinner] at hwithin
    exact h.fieldsItem hwithin

theorem indexedWithin (h : act.Settles) (hslot : slot.settlesWithin schema hops = true) :
    (slot.indexedWithin schema site value index act hops).2 ≠ .failed .endless := by
  induction hops generalizing slot with
  | zero =>
    have hitem : slot.item? schema = none := by simpa [Slot.settlesWithin] using hslot
    exact h.indexedWith (by simp [hitem])
  | succ hops ih =>
    refine h.indexedWith fun next hnext => ?_
    rw [Slot.settlesWithin_succ hnext] at hslot
    exact ih hslot

theorem indexed (h : act.Settles) (hschema : schema.Settles) :
    Act.Settles (Slot.indexed schema site value index act) := by
  intro slot
  obtain ⟨hops, hslot⟩ := slot.exists_settlesWithin hschema
  exact h.indexedWithin (Slot.settlesWithin_hopLimit hslot)

theorem fieldsMember {memberAct : ObjectType → Member → Act}
    (h : ∀ type member, (memberAct type member).Settles) (name typeName : Text)
    (fields : Fields) :
    (Fields.member schema name memberAct typeName fields).2 ≠ .failed .endless := by
  rw [Fields.member]
  split
  · simp
  · split
    · simp
    · exact (h _ _).update _ _

end Act.Settles

theorem Slot.settles_bind (hschema : schema.Settles) (converters : ConverterRegistry)
    (value : Option Text) (steps : List Step) (site : Site) :
    Act.Settles (Slot.bind schema converters value site steps) := by
  induction steps generalizing site with
  | nil =>
    intro slot
    rw [Slot.bind]
    obtain hassigned | ⟨after, cause, hfault, -⟩ := slot.assignLeaf_cases site converters value
    · simp [hassigned]
    · rw [hfault]
      exact site.fault_ne_endless value cause
  | cons step rest ih =>
    cases step with
    | index index => exact (ih site).indexed hschema
    | member name =>
      intro slot
      have hnowhere : Act.Settles fun slot => (slot, .skipped) := fun slot => by simp
      rw [Slot.bind_member_eq]
      exact hnowhere.enterFields
        (fun typeName fields _ => Act.Settles.fieldsMember (fun _ _ => ih _) name typeName fields)
        fun _ typeName fields _ => Act.Settles.fieldsMember (fun _ _ => ih _) name typeName fields

theorem Object.settles_bind (hschema : schema.Settles) (options : BindOptions) (pair : Pair)
    (steps : List Step) (target : Object) :
    (target.bind schema options pair steps).2 ≠ .failed .endless := by
  cases steps with
  | nil => simp [bind]
  | cons step rest =>
    have hrest := Slot.settles_bind hschema options.converters pair.value rest
    cases step with
    | member name =>
      exact Act.Settles.fieldsMember (fun type member => hrest _) name target.typeName target.fields
    | index index =>
      exact (hrest _).fieldsItem fun next _ => (hrest _).indexed hschema next

/-- **Binding ends.** When new objects do not hand an index on for ever, no key goes round in
circles, whatever the object and the pairs are: each pair assigns its value, is passed over or ends
the run with a value that could not be converted. -/
theorem Object.populate_settles (hschema : schema.Settles) (options : BindOptions)
    (under : KeyPath) (pairs : List Pair) (target : Object) :
    (target.populate schema options under pairs).2 ≠ some .endless := by
  intro hendless
  rcases hrun : target.populate schema options under pairs with ⟨after, fault⟩
  rw [hrun] at hendless
  obtain rfl : fault = some .endless := hendless
  obtain ⟨earlier, pair, later, parts, middle, -, -, -, hfailed, -⟩ := Object.exists_failed hrun
  exact Object.settles_bind hschema options pair (stepsOf parts) middle (congrArg Prod.snd hfailed)

/-- A box that may hold one more box, which is its `Item`, and a shelf of boxes. -/
def boxSchema : Schema where
  types :=
    [{ typeName := "Box", label := "Box"
       members := [{ name := "Inner", field := "inner", aliases := ["Item"] }]
       initial := [("inner", .vacant (.boxed (.object "Box")))] },
     { typeName := "Shelf", label := "Shelf"
       members := [{ name := "Boxes", field := "boxes" }]
       initial := [("boxes", .list (.object "Box") [])] }]

-- an index on a box is handed on to the box inside of it, which comes into being for that
example : ¬boxSchema.Settles := by decide

example :
    ((boxSchema.newObject "Shelf").populate boxSchema {} KeyPath.empty
      [Pair.ofText "boxes[0][1]" (some "x".toList)]).2 = some .endless := by decide

end KeyedText
