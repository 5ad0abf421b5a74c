import KeyedText.Binding.Populate
import KeyedText.Proofs.Binding.Conversions
import KeyedText.Proofs.Binding.Growth

/-!
# The way of a key

Following the steps of a key goes from slot to slot: into the content of an optional value or a box,
to an item of a list or a map, to a field of an object. At its end the value is assigned; or it
stops on the way, where nothing is done. All that following a key does to a slot is told by this
way: what lies beside it stays, and what it goes through comes into being where it was not there.

## Main definitions

- `Slot.LeadsTo` — the place that the steps of a key lead to
- `Slot.Traced` — what following a key came to, by the way that it took
- `Slot.WritesAt` — something is written at a place
- `Act.Walks` — a step that follows some steps of a key

## Main statements

- `Act.Walks.enter`, `Act.Walks.item` — going on in the content or in an item of a slot
- `Slot.assignLeaf_cases` — what happens at the end of a key
- `Slot.walks_bind`, `Object.walked_bind` — following a key
- `Slot.Traced.leadsTo` — what is written is written at the place that the key leads to
-/

namespace KeyedText

namespace Slot

/-- The type of the object in a slot. -/
def objectType? : Slot → Option Text
  | object typeName _ => some typeName
  | dynamic _ typeName _ => some typeName
  | _ => none

theorem IsObject.objectType?_eq {typeName : Text} {make : Fields → Slot}
    (h : IsObject typeName make) (fields : Fields) : (make fields).objectType? = some typeName := by
  cases h <;> rfl

/-- The steps of a key lead from a slot to a place. Contents are gone through on the way, but not at
its end; positions and keys may be new. -/
inductive LeadsTo (schema : Schema) : List Step → Slot → Location → Prop
  | ends (slot : Slot) : LeadsTo schema [] slot []
  | content {steps : List Step} {slot child : Slot} {place : Location} (goesOn : steps ≠ [])
      (there : slot.childOrNew? schema .content = some child)
      (rest : LeadsTo schema steps child place) : LeadsTo schema steps slot (.content :: place)
  | position {element : SlotType} {items : List Slot} {index : Index} {n : Nat}
      {steps : List Step} {place : Location} (reads : readPosition? index.text = some n)
      (rest : LeadsTo schema steps ((items[n]?).getD (schema.initial element)) place) :
      LeadsTo schema (.index index :: steps) (.list element items) (.position n :: place)
  | key {typeName : Text} {kind : MapKind} {keyType : KeyType} {element : SlotType}
      {entries : List (MapKey × Slot)} {index : Index} {key : MapKey} {steps : List Step}
      {place : Location} (isOpen : kind ≠ .gated index.text) (reads : keyType.read index = .ok key)
      (rest : LeadsTo schema steps ((MapKind.get? key entries).getD (schema.initial element))
        place) :
      LeadsTo schema (.index index :: steps) (.map typeName kind keyType element entries)
        (.key key :: place)
  | field {typeName field : Text} {steps left : List Step} {slot child : Slot} {place : Location}
      (isObject : slot.objectType? = some typeName)
      (goes : GoesTo schema typeName steps field left)
      (there : slot.child? (.field field) = some child) (rest : LeadsTo schema left child place) :
      LeadsTo schema steps slot (.field field :: place)

/-- What following the steps of a key from a slot came to, with the place that it came to: there the
value was assigned, or it stopped and left the slot as it was. A converter that does not fail
cleanly may also fail there when it has written already. A fault names the key and the value. -/
inductive Traced (schema : Schema) (converters : ConverterRegistry) (key : KeyPath)
    (value : Option Text) : List Step → Location → Slot → Slot × Outcome → Prop
  | assigned (slot slot' : Slot) :
      Traced schema converters key value [] [] slot (slot', .assigned)
  | spoiled {fault : ConversionFault} (slot slot' : Slot) (unclean : ¬converters.FailsClean)
      (names : fault.key = key.render ∧ fault.raw = value) :
      Traced schema converters key value [] [] slot (slot', .failed (.conversion fault))
  | stops {outcome : Outcome} (steps : List Step) (slot : Slot) (idle : outcome ≠ .assigned)
      (names : ∀ fault, outcome = .failed (.conversion fault) →
        fault.key = key.render ∧ fault.raw = value) :
      Traced schema converters key value steps [] slot (slot, outcome)
  | content {steps : List Step} {slot child child' : Slot} {place : Location} {outcome : Outcome}
      (goesOn : steps ≠ []) (there : slot.childOrNew? schema .content = some child)
      (rest : Traced schema converters key value steps place child (child', outcome)) :
      Traced schema converters key value steps (.content :: place) slot
        (slot.withContent child', outcome)
  | position {element : SlotType} {items padded : List Slot} {index : Index} {n : Nat}
      {steps : List Step} {place : Location} {child' : Slot} {outcome : Outcome}
      (reads : readPosition? index.text = some n)
      (room : padded? (schema.initial element) items n = some padded)
      (rest : Traced schema converters key value steps place
        ((items[n]?).getD (schema.initial element)) (child', outcome)) :
      Traced schema converters key value (.index index :: steps) (.position n :: place)
        (.list element items) (.list element (padded.set n child'), outcome)
  | key {typeName : Text} {kind : MapKind} {keyType : KeyType} {element : SlotType}
      {entries : List (MapKey × Slot)} {index : Index} {mapKey : MapKey} {steps : List Step}
      {place : Location} {child' : Slot} {outcome : Outcome}
      (isOpen : kind ≠ .gated index.text) (reads : keyType.read index = .ok mapKey)
      (rest : Traced schema converters key value steps place
        ((MapKind.get? mapKey entries).getD (schema.initial element)) (child', outcome)) :
      Traced schema converters key value (.index index :: steps) (.key mapKey :: place)
        (.map typeName kind keyType element entries)
        (.map typeName kind keyType element (kind.put mapKey child' entries), outcome)
  | field {typeName field : Text} {make : Fields → Slot} {fields : Fields}
      {steps left : List Step} {child child' : Slot} {place : Location} {outcome : Outcome}
      (isObject : IsObject typeName make) (goes : GoesTo schema typeName steps field left)
      (there : Entries.get? field fields = some child)
      (rest : Traced schema converters key value left place child (child', outcome)) :
      Traced schema converters key value steps (.field field :: place) (make fields)
        (make (Fields.put field child' fields), outcome)

/-- What following the steps of a key came to, by whichever way. -/
def Walked (schema : Schema) (converters : ConverterRegistry) (key : KeyPath)
    (value : Option Text) (steps : List Step) (before : Slot) (result : Slot × Outcome) : Prop :=
  ∃ place, Traced schema converters key value steps place before result

end Slot

/-- A step follows some steps of a key, whichever slot it starts from. -/
def Act.Walks (schema : Schema) (converters : ConverterRegistry) (key : KeyPath)
    (value : Option Text) (steps : List Step) (act : Act) : Prop :=
  ∀ slot, Slot.Walked schema converters key value steps slot (act slot)

/-- Following a key wrote at a place: a value was assigned, or the slot that is there is not the one
that was there or came into being. -/
def Slot.WritesAt (schema : Schema) (place : Location) (before : Slot) (result : Slot × Outcome) :
    Prop :=
  result.2 = .assigned ∨ ∃ old new, before.atOrNew? schema place = some old ∧
    result.1.at? place = some new ∧ new ≠ old

variable {schema : Schema} {converters : ConverterRegistry} {key : KeyPath}
  {value : Option Text} {steps left : List Step} {site : Site} {index : Index} {place : Location}
  {slot before : Slot} {result : Slot × Outcome} {act within : Act}

/-- What is written behind a turn is written in what is there. -/
theorem Slot.writesAt_cons_iff {turn : Turn} {child child' after : Slot} {outcome : Outcome}
    (h : Changed schema turn child child' before after) :
    WritesAt schema (turn :: place) before (after, outcome) ↔
      WritesAt schema place child (child', outcome) := by
  rw [WritesAt, at?, h.now, atOrNew?, h.was]
  rfl

/-- Nothing is written to a slot that stays as it was without an assignment. -/
theorem Slot.not_writesAt {outcome : Outcome} (idle : outcome ≠ .assigned) :
    ¬WritesAt schema place slot (slot, outcome) := by
  rintro (hassigned | ⟨old, new, hold, hnew, hne⟩)
  · exact idle hassigned
  · rw [atOrNew?_of_at? hnew] at hold
    exact hne (Option.some.inj hold)

/-- The steps lead to the place where something is written. -/
theorem Slot.Traced.leadsTo (h : Slot.Traced schema converters key value steps place before result)
    (hwrites : WritesAt schema place before result) : Slot.LeadsTo schema steps before place := by
  induction h with
  | assigned slot => exact .ends slot
  | spoiled slot => exact .ends slot
  | stops _ _ idle => exact absurd hwrites (not_writesAt idle)
  | content goesOn there _ ih =>
    exact .content goesOn there (ih ((writesAt_cons_iff (changed_content there _)).1 hwrites))
  | position reads room _ ih =>
    exact .position reads (ih ((writesAt_cons_iff (changed_position room _)).1 hwrites))
  | key isOpen reads _ ih =>
    exact .key isOpen reads (ih ((writesAt_cons_iff (changed_key _ _ _ _ _ _ _ _)).1 hwrites))
  | @field typeName field make fields _ _ _ _ _ _ isObject goes there _ ih =>
    have hchild : (make fields).child? (.field field) = _ :=
      (isObject.child?_field field fields).trans there
    exact .field (isObject.objectType?_eq fields) goes hchild
      (ih ((writesAt_cons_iff (changed_field schema isObject there _)).1 hwrites))

namespace Slot.Walked

theorem skipped (slot : Slot) : Walked schema converters key value steps slot (slot, .skipped) :=
  ⟨[], .stops steps slot (by simp) fun _ h => absurd h (by simp)⟩

theorem endless (slot : Slot) :
    Walked schema converters key value steps slot (slot, .failed .endless) :=
  ⟨[], .stops steps slot (by simp) fun _ h => absurd h (by simp)⟩

theorem fault (hsite : site.key = key) (cause : Cause) (slot : Slot) :
    Walked schema converters key value steps slot (slot, site.fault value cause) := by
  refine ⟨[], .stops steps slot (by simp [Site.fault]) fun fault h => ?_⟩
  obtain rfl := BindFault.conversion.inj (Outcome.failed.inj h)
  exact ⟨congrArg KeyPath.render hsite, rfl⟩

end Slot.Walked

namespace Act.Walks

/-! ## Contents -/

theorem enterNew (h : Act.Walks schema converters key value steps act) (hne : steps ≠ [])
    (type : SlotType) :
    Slot.Walked schema converters key value steps (schema.initial type)
      (type.enterNew schema act) := by
  induction type with
  | option content ih | boxed content ih =>
    obtain ⟨place, hplace⟩ := ih
    exact ⟨.content :: place, .content hne rfl hplace⟩
  | _ => exact h _

/-- Going on in the content of a slot. -/
theorem enter (h : Act.Walks schema converters key value steps act) (hne : steps ≠ []) :
    Act.Walks schema converters key value steps (Slot.enter schema act) := by
  intro slot
  fun_induction Slot.enter schema act slot with
  | case1 content child outcome hchild =>
    obtain ⟨place, hplace⟩ := h.enterNew hne content
    rw [hchild] at hplace
    exact ⟨.content :: place, .content hne rfl hplace⟩
  | case2 content child outcome hchild ih | case3 content child outcome hchild ih =>
    obtain ⟨place, hplace⟩ := ih
    rw [hchild] at hplace
    exact ⟨.content :: place, .content hne rfl hplace⟩
  | case4 slot => exact h slot

/-! ## Items -/

/-- Going on in the item of a list or a map. -/
theorem item (h : Act.Walks schema converters key value steps act) (hsite : site.key = key) :
    Act.Walks schema converters key value (.index index :: steps)
      (Slot.item schema site value index act) := by
  intro slot
  cases slot with
  | list element items =>
    rw [Slot.item]
    cases hreads : readPosition? index.text with
    | none => exact .fault hsite _ _
    | some n =>
      dsimp only
      cases hroom : padded? (schema.initial element) items n with
      | none => exact .fault hsite _ _
      | some padded =>
        obtain ⟨place, hplace⟩ := h ((items[n]?).getD (schema.initial element))
        dsimp only
        rw [actAt_eq (getElem?_padded? hroom)]
        exact ⟨.position n :: place, .position hreads hroom hplace⟩
  | map typeName kind keyType element entries =>
    rw [Slot.item]
    split
    · exact .skipped _
    · next hopen =>
      cases hreads : keyType.read index with
      | error cause => exact .fault hsite _ _
      | ok mapKey =>
        obtain ⟨place, hplace⟩ := h ((MapKind.get? mapKey entries).getD (schema.initial element))
        dsimp only
        rw [MapKind.upsert_eq_put]
        exact ⟨.key mapKey :: place, .key hopen hreads hplace⟩
  | _ => exact .skipped _

/-! ## Fields -/

/-- Going on in the field of an object that the steps lead to. -/
theorem update (h : Act.Walks schema converters key value left act) {typeName field : Text}
    {make : Fields → Slot} (hobject : Slot.IsObject typeName make)
    (hgoes : Slot.GoesTo schema typeName steps field left) (fields : Fields) :
    Slot.Walked schema converters key value steps (make fields)
      (make (Fields.update field .skipped act fields).1,
        (Fields.update field .skipped act fields).2) := by
  cases hthere : Entries.get? field fields with
  | none =>
    rw [Fields.update_of_missing _ _ hthere]
    exact .skipped _
  | some child =>
    obtain ⟨place, hplace⟩ := h child
    rw [Fields.update_eq_put _ _ hthere]
    exact ⟨.field field :: place, .field hobject hgoes hthere hplace⟩

theorem fieldsMember {memberAct : ObjectType → Member → Act}
    (h : ∀ type member, Act.Walks schema converters key value steps (memberAct type member))
    {typeName : Text} {make : Fields → Slot} (hobject : Slot.IsObject typeName make) (name : Text)
    (fields : Fields) :
    Slot.Walked schema converters key value (.member name :: steps) (make fields)
      (make (Fields.member schema name memberAct typeName fields).1,
        (Fields.member schema name memberAct typeName fields).2) := by
  rw [Fields.member]
  cases hfound : (schema.find typeName).findMember (Text.fold name) with
  | none => exact .skipped _
  | some member =>
    dsimp only
    split
    · exact .skipped _
    · next hbinds =>
      exact (h _ member).update hobject (.member hfound (by simpa using hbinds)) fields

theorem fieldsItem (h : Act.Walks schema converters key value steps act)
    (hwithin : Act.Walks schema converters key value (.index index :: steps) within)
    (hsite : site.key = key) {typeName : Text} {make : Fields → Slot}
    (hobject : Slot.IsObject typeName make) (fields : Fields) :
    Slot.Walked schema converters key value (.index index :: steps) (make fields)
      (make (Fields.item schema site value index act within typeName fields).1,
        (Fields.item schema site value index act within typeName fields).2) := by
  rw [Fields.item]
  cases hindexer : (schema.find typeName).indexer with
  | some indexer =>
    dsimp only
    split
    · exact .skipped _
    · next hopen => exact (h.item hsite).update hobject (.indexer hindexer hopen) fields
  | none =>
    dsimp only
    cases hfound : (schema.find typeName).findMember (Text.fold itemName) with
    | none => exact .skipped _
    | some member =>
      dsimp only
      split
      · exact .skipped _
      · next hbinds =>
        exact hwithin.update hobject (.item hindexer hfound (by simpa using hbinds)) fields

/-! ## Steps of a key -/

theorem indexedWith (h : Act.Walks schema converters key value steps act)
    (hwithin : Act.Walks schema converters key value (.index index :: steps) within)
    (hsite : site.key = key) :
    Act.Walks schema converters key value (.index index :: steps)
      (Slot.indexedWith schema site value index act within) := by
  refine enter (fun slot => ?_) (by simp)
  cases slot with
  | object typeName fields => exact h.fieldsItem hwithin hsite (.object typeName) fields
  | dynamic name typeName fields =>
    exact h.fieldsItem hwithin hsite (.dynamic name typeName) fields
  | _ => exact h.item hsite _

theorem indexedWithin (h : Act.Walks schema converters key value steps act) (hsite : site.key = key)
    (hops : Nat) :
    Act.Walks schema converters key value (.index index :: steps)
      (Slot.indexedWithin schema site value index act hops) := by
  induction hops with
  | zero => exact h.indexedWith .endless hsite
  | succ hops ih => exact h.indexedWith ih hsite

end Act.Walks

/-! ## Following a key -/

/-- A text that cannot be read leaves the slot as it was. -/
theorem Slot.assign_of_fault {slot after : Slot} {cause : Cause}
    (h : slot.assign site value = (after, some cause)) : after = slot := by
  cases value with
  | none => exact absurd (congrArg Prod.snd h) (by simp [assign])
  | some raw =>
    rw [assign] at h
    cases hread : slot.type.read site raw with
    | ok read => simp [hread] at h
    | error cause =>
      rw [hread] at h
      exact (Prod.mk.inj h).1.symm

/-- At the end of a key the value is assigned, or there is a fault and the slot is as it was. Only a
converter that does not fail cleanly may have changed it. -/
theorem Slot.assignLeaf_cases (site : Site) (converters : ConverterRegistry) (value : Option Text)
    (slot : Slot) :
    (slot.assignLeaf site converters value).2 = .assigned ∨
      ∃ after cause, slot.assignLeaf site converters value = (after, site.fault value cause) ∧
        (converters.FailsClean → after = slot) := by
  cases hconverter : site.member.converter with
  | none =>
    rcases hassign : slot.assign site value with ⟨after, _ | cause⟩
    · exact .inl (by simp [assignLeaf, hconverter, hassign])
    · exact .inr ⟨after, cause, by simp [assignLeaf, hconverter, hassign],
        fun _ => assign_of_fault hassign⟩
  | some name =>
    cases value with
    | none => exact .inl (by simp [assignLeaf, hconverter, assign])
    | some raw =>
      cases hresolve : (converters.resolve name).1 with
      | error cause =>
        exact .inr ⟨slot, cause, by simp [assignLeaf, hconverter, hresolve], fun _ => rfl⟩
      | ok converter =>
        rcases hconvert : slot.convert site converter raw with ⟨after, _ | cause⟩
        · exact .inl (by simp [assignLeaf, hconverter, hresolve, hconvert])
        · exact .inr ⟨after, cause, by simp [assignLeaf, hconverter, hresolve, hconvert],
            fun hclean => Conversion.run_of_fault (hclean _ _ hresolve site raw) hconvert⟩

theorem Slot.walks_assignLeaf (hsite : site.key = key) (converters : ConverterRegistry) :
    Act.Walks schema converters key value [] (Slot.assignLeaf site converters value) := by
  intro slot
  obtain hassigned | ⟨after, cause, hfault, hclean⟩ := assignLeaf_cases site converters value slot
  · have hresult : slot.assignLeaf site converters value =
        ((slot.assignLeaf site converters value).1, .assigned) := by rw [← hassigned]
    rw [hresult]
    exact ⟨[], .assigned slot _⟩
  · rw [hfault]
    by_cases hfails : converters.FailsClean
    · obtain rfl := hclean hfails
      exact .fault hsite cause after
    · exact ⟨[], .spoiled slot after hfails ⟨congrArg KeyPath.render hsite, rfl⟩⟩

/-- Following a key goes along its steps. -/
theorem Slot.walks_bind (converters : ConverterRegistry) (site : Site) (steps : List Step) :
    Act.Walks schema converters site.key value steps
      (Slot.bind schema converters value site steps) := by
  induction steps generalizing site with
  | nil => exact walks_assignLeaf rfl converters
  | cons step steps ih =>
    cases step with
    | index index => exact fun slot => (ih site).indexedWithin rfl _ slot
    | member name =>
      rw [Slot.bind]
      refine Act.Walks.enter (fun slot => ?_) (by simp)
      have hmember : ∀ type member, Act.Walks schema converters site.key value steps
          (Slot.bind schema converters value (site.into type member) steps) :=
        fun type member => ih (site.into type member)
      cases slot with
      | object typeName fields =>
        exact Act.Walks.fieldsMember hmember (.object typeName) name fields
      | dynamic title typeName fields =>
        exact Act.Walks.fieldsMember hmember (.dynamic title typeName) name fields
      | _ => exact .skipped _

/-- Binding a pair in an object goes along the steps of its key. -/
theorem Object.walked_bind (schema : Schema) (options : BindOptions) (pair : Pair)
    (steps : List Step) (target : Object) :
    Slot.Walked schema options.converters pair.key pair.value steps target.toSlot
      ((target.bind schema options pair steps).1.toSlot,
        (target.bind schema options pair steps).2) := by
  let site := Site.ofPair options pair (schema.find target.typeName).label
  cases steps with
  | nil => exact .skipped _
  | cons step steps =>
    cases step with
    | member name =>
      have hmember : ∀ type member, Act.Walks schema options.converters pair.key pair.value steps
          (Slot.bind schema options.converters pair.value (site.into type member) steps) :=
        fun type member => Slot.walks_bind options.converters (site.into type member) steps
      exact Act.Walks.fieldsMember hmember (.object target.typeName) name target.fields
    | index index =>
      have hitem : Act.Walks schema options.converters pair.key pair.value steps
          (Slot.bind schema options.converters pair.value site steps) :=
        Slot.walks_bind options.converters site steps
      exact hitem.fieldsItem (fun slot => hitem.indexedWithin rfl _ slot) rfl
        (.object target.typeName) target.fields

end KeyedText
