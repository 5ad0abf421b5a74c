import KeyedText.Proofs.Binding.Frame
import KeyedText.Proofs.Binding.Replayed

/-!
# Populating twice

A run over the pairs under a key is repeated over what came of it. Pair by pair the second run does
what the first did: where the first makes room, the second finds it made, and where the first takes
something back, so does the second. So it ends without a fault when the first run does, and leaves
what it found, down to the order of the entries of maps.

A step that looks for an index counts the objects that it may pass, and there may be more of them in
the second run. Two steps are therefore compared, of which the second may go farther.

## Main definitions

- `Slot.Replays`, `Act.Replays` — a step that a second run repeats

## Main statements

- `Act.Replays.enter`, `Act.Replays.item` — going on in the content or in an item of a slot
- `Slot.replays_assignLeaf`, `Slot.replays_bind` — the end of a key, and following one
- `Object.replayed_populate` — two runs over the same pairs
- `Object.populate_populate` — populating is idempotent
-/

namespace KeyedText

/-- Unless the first of two steps fails, the second comes to the same and does the same. -/
def Slot.Replays (schema : Schema) (known : Text → Prop) (type : SlotType) (last : Option Slot)
    (result result' : Slot × Outcome) : Prop :=
  (∀ fault, result.2 ≠ .failed fault) →
    result'.2 = result.2 ∧ Slot.Replayed schema known type last result.1 result'.1

/-- Two steps, the second of which does in a second run what the first does in the first. -/
def Act.Replays (schema : Schema) (known : Text → Prop) (act act' : Act) : Prop :=
  ∀ type last first second, Slot.Replayed schema known type last first second →
    Slot.Replays schema known type last (act first) (act' second)

/-- A place without a converter, where text can name objects of known types only as they should
be. -/
structure Site.Static (schema : Schema) (known : Text → Prop) (site : Site) : Prop where
  noConverter : site.member.converter = none
  registry : site.types.Typed schema known

variable {schema : Schema} {known : Text → Prop} {type : SlotType} {last last' : Option Slot}
  {first second : Slot} {site : Site} {value : Option Text} {index : Index} {steps : List Step}
  {act act' within within' : Act}

/-! ## Steps that are repeated -/

namespace Slot.Replays

theorem skipped (h : Replayed schema known type last first second) :
    Replays schema known type last (first, .skipped) (second, .skipped) :=
  fun _ => ⟨rfl, h⟩

theorem of_failed {result : Slot × Outcome} (fault : BindFault) :
    Replays schema known type last (first, .failed fault) result :=
  fun h => absurd rfl (h fault)

/-- What is repeated inside of two slots is repeated in the slots. -/
theorem step {type' : SlotType} {child child' result result' : Slot × Outcome}
    (h : Replays schema known type' last' child child') (houtcome : result.2 = child.2)
    (houtcome' : result'.2 = child'.2)
    (hreplayed : Replayed schema known type' last' child.1 child'.1 →
      Replayed schema known type last result.1 result'.1) :
    Replays schema known type last result result' := by
  intro hfine
  rw [houtcome] at hfine ⊢
  obtain ⟨hsame, hchild⟩ := h hfine
  exact ⟨houtcome'.trans hsame, hreplayed hchild⟩

end Slot.Replays

namespace Act.Replays

/-! ## Contents -/

/-- Going on in the contents of two slots, by induction on their type. -/
theorem enter (hschema : schema.Static known) (h : Act.Replays schema known act act') :
    Act.Replays schema known (Slot.enter schema act) (Slot.enter schema act') := by
  intro type
  induction type with
  | option content ih | boxed content ih =>
    intro last first second hreplayed
    obtain ⟨item, other, last', hitem, hother, hbehind, hback⟩ :=
      hreplayed.content hschema content (by simp)
    rw [Slot.enter_content hitem, Slot.enter_content hother]
    exact (ih last' item other hbehind).step rfl rfl (hback _ _)
  | _ =>
    intro last first second hreplayed
    obtain ⟨htype, htype'⟩ := hreplayed.type_eq
    rw [Slot.enter_eq (by simp [htype]) (by simp [htype]),
      Slot.enter_eq (by simp [htype']) (by simp [htype'])]
    exact h _ last first second hreplayed

/-! ## Items -/

/-- Going on in the items of lists and maps. -/
theorem item (hschema : schema.Static known) (h : Act.Replays schema known act act') :
    Act.Replays schema known (Slot.item schema site value index act)
      (Slot.item schema site value index act') := by
  intro type last first second hreplayed
  cases type with
  | list element =>
    obtain ⟨items, others, rfl, rfl, hbehind⟩ := hreplayed.position hschema
    rw [Slot.item, Slot.item]
    cases hreads : readPosition? index.text with
    | none => exact .of_failed _
    | some n =>
      dsimp only
      cases hroom : padded? (schema.initial element) items n with
      | none => exact .of_failed _
      | some padded =>
        obtain ⟨padded', last', hroom', hchild, hback⟩ := hbehind n padded hroom
        rw [hroom']
        dsimp only
        rw [actAt_eq (getElem?_padded? hroom), actAt_eq (getElem?_padded? hroom')]
        exact (h _ last' _ _ hchild).step rfl rfl (hback _ _)
  | map typeName kind keyType element =>
    obtain ⟨items, others, rfl, rfl, hbehind⟩ := hreplayed.key hschema
    rw [Slot.item, Slot.item]
    split
    · exact .skipped hreplayed
    · cases hreads : keyType.read index with
      | error cause => exact .of_failed _
      | ok key =>
        obtain ⟨last', hchild, hback⟩ := hbehind key
        dsimp only
        rw [MapKind.upsert_eq_put, MapKind.upsert_eq_put]
        exact (h _ last' _ _ hchild).step rfl rfl (hback _ _)
  | _ =>
    obtain ⟨htype, htype'⟩ := hreplayed.type_eq
    rw [Slot.item_eq (by simp [htype]) (by simp [htype]),
      Slot.item_eq (by simp [htype']) (by simp [htype'])]
    exact .skipped hreplayed

/-! ## Fields -/

theorem update {typeName : Text} {items others : Fields} (h : Act.Replays schema known act act')
    (hreplayed : Slot.Replayed schema known (.object typeName) last (.object typeName items)
      (.object typeName others)) (field : Text) :
    Slot.Replays schema known (.object typeName) last
      (.object typeName (Fields.update field .skipped act items).1,
        (Fields.update field .skipped act items).2)
      (.object typeName (Fields.update field .skipped act' others).1,
        (Fields.update field .skipped act' others).2) := by
  obtain ⟨items', others', hitems, hothers, hbehind⟩ := hreplayed.field
  obtain rfl := (Slot.object.inj hitems).2
  obtain rfl := (Slot.object.inj hothers).2
  rcases hbehind field with
    ⟨hitem, hother⟩ | ⟨item, other, fresh, last', hitem, hother, hchild, hback⟩
  · rw [Fields.update_of_missing _ _ hitem, Fields.update_of_missing _ _ hother]
    exact .skipped hreplayed
  · rw [Fields.update_eq_put _ _ hitem, Fields.update_eq_put _ _ hother]
    exact (h _ last' item other hchild).step rfl rfl (hback _ _)

/-- Going on in the fields of objects of one type. -/
theorem inFields {go go' : Text → Fields → Fields × Outcome}
    (hfields : ∀ typeName last items others,
      Slot.Replayed schema known (.object typeName) last (.object typeName items)
        (.object typeName others) →
      Slot.Replays schema known (.object typeName) last
        (.object typeName (go typeName items).1, (go typeName items).2)
        (.object typeName (go' typeName others).1, (go' typeName others).2))
    (h : Act.Replays schema known act act') :
    Act.Replays schema known (Slot.inFields go act) (Slot.inFields go' act') := by
  intro type last first second hreplayed
  obtain ⟨htype, htype'⟩ := hreplayed.type_eq
  cases type with
  | object typeName =>
    obtain ⟨items, others, rfl, rfl, -⟩ := hreplayed.field
    exact hfields typeName last items others hreplayed
  | dynamic => exact absurd hreplayed.static id
  | _ =>
    rw [Slot.inFields_eq (by simp [htype]) (by simp [htype]),
      Slot.inFields_eq (by simp [htype']) (by simp [htype'])]
    exact h _ last first second hreplayed

theorem fieldsMember {memberAct : ObjectType → Member → Act} {typeName : Text}
    {items others : Fields}
    (h : ∀ member ∈ (schema.find typeName).members, Act.Replays schema known
      (memberAct (schema.find typeName) member) (memberAct (schema.find typeName) member))
    (hreplayed : Slot.Replayed schema known (.object typeName) last (.object typeName items)
      (.object typeName others)) (name : Text) :
    Slot.Replays schema known (.object typeName) last
      (.object typeName (Fields.member schema name memberAct typeName items).1,
        (Fields.member schema name memberAct typeName items).2)
      (.object typeName (Fields.member schema name memberAct typeName others).1,
        (Fields.member schema name memberAct typeName others).2) := by
  rw [Fields.member, Fields.member]
  cases hfound : (schema.find typeName).findMember (Text.fold name) with
  | none => exact .skipped hreplayed
  | some member =>
    dsimp only
    split
    · exact .skipped hreplayed
    · exact (h member (ObjectType.mem_of_findMember hfound)).update hreplayed member.field

theorem fieldsItem (hschema : schema.Static known) (h : Act.Replays schema known act act')
    (hwithin : Act.Replays schema known within within') {typeName : Text} {items others : Fields}
    (hreplayed : Slot.Replayed schema known (.object typeName) last (.object typeName items)
      (.object typeName others)) :
    Slot.Replays schema known (.object typeName) last
      (.object typeName (Fields.item schema site value index act within typeName items).1,
        (Fields.item schema site value index act within typeName items).2)
      (.object typeName (Fields.item schema site value index act' within' typeName others).1,
        (Fields.item schema site value index act' within' typeName others).2) := by
  rw [Fields.item, Fields.item]
  cases hindexer : (schema.find typeName).indexer with
  | some indexer =>
    dsimp only
    split
    · exact .skipped hreplayed
    · exact (h.item hschema).update hreplayed indexer.field
  | none =>
    dsimp only
    cases hfound : (schema.find typeName).findMember (Text.fold itemName) with
    | none => exact .skipped hreplayed
    | some member =>
      dsimp only
      split
      · exact .skipped hreplayed
      · exact hwithin.update hreplayed member.field

/-! ## Steps of a key -/

theorem indexedWith (hschema : schema.Static known) (h : Act.Replays schema known act act')
    (hwithin : Act.Replays schema known within within') :
    Act.Replays schema known (Slot.indexedWith schema site value index act within)
      (Slot.indexedWith schema site value index act' within') := by
  rw [Slot.indexedWith_eq, Slot.indexedWith_eq]
  apply enter hschema
  apply inFields
  · intro typeName last items others hreplayed
    exact h.fieldsItem hschema hwithin hreplayed
  · exact h.item hschema

/-- The second step may pass more objects than the first. -/
theorem indexedWithin (hschema : schema.Static known) (h : Act.Replays schema known act act')
    {hops hops' : Nat} (hle : hops ≤ hops') :
    Act.Replays schema known (Slot.indexedWithin schema site value index act hops)
      (Slot.indexedWithin schema site value index act' hops') := by
  induction hops generalizing hops' with
  | zero =>
    -- the first run passes no more objects, or it fails and there is nothing to repeat
    have hends : ∀ within', Act.Replays schema known (fun slot => (slot, .failed .endless))
        within' :=
      fun within' type last first second _ => .of_failed _
    cases hops' with
    | zero => exact h.indexedWith hschema (hends _)
    | succ hops' => exact h.indexedWith hschema (hends _)
  | succ hops ih =>
    obtain ⟨more, rfl⟩ := Nat.exists_eq_add_of_le' hle
    exact h.indexedWith hschema (ih (Nat.le_add_left _ _))

theorem indexed (hschema : schema.Static known) (h : Act.Replays schema known act act') :
    Act.Replays schema known (Slot.indexed schema site value index act)
      (Slot.indexed schema site value index act') := by
  intro type last first second hreplayed
  have hle : schema.hopLimit first ≤ schema.hopLimit second :=
    Nat.add_le_add_right (hreplayed.objectDepth_le hschema) _
  exact h.indexedWithin hschema hle type last first second hreplayed

end Act.Replays

/-- A value that is assigned at the end of a key is what both runs have there. -/
theorem Slot.replays_assignLeaf (hsite : site.Static schema known)
    (converters : ConverterRegistry) :
    Act.Replays schema known (Slot.assignLeaf site converters value)
      (Slot.assignLeaf site converters value) := by
  intro type last first second hreplayed hfine
  obtain ⟨htype, htype'⟩ := hreplayed.type_eq
  cases value with
  | none =>
    have hclear : ∀ slot : Slot,
        slot.assignLeaf site converters none = (slot.clear, .assigned) := by
      intro slot
      simp [assignLeaf, hsite.noConverter, assign]
    rw [hclear, hclear]
    exact ⟨rfl, hreplayed.clear⟩
  | some raw =>
    rw [assignLeaf_eq hsite.noConverter, htype] at hfine
    rw [assignLeaf_eq hsite.noConverter, assignLeaf_eq hsite.noConverter, htype, htype']
    cases hread : type.read site raw with
    | error cause =>
      rw [hread] at hfine
      exact absurd rfl (hfine _)
    | ok slot =>
      exact ⟨rfl, .same _ (SlotType.typed_of_read hsite.registry hreplayed.static hread)⟩

theorem Site.Static.into (hschema : schema.Static known) (hsite : site.Static schema known)
    {typeName : Text} (hknown : known typeName) {member : Member}
    (hmember : member ∈ (schema.find typeName).members) :
    (site.into (schema.find typeName) member).Static schema known :=
  ⟨(hschema typeName hknown).noConverter member hmember, hsite.registry⟩

/-- A second run follows a key as the first did. -/
theorem Slot.replays_bind (hschema : schema.Static known) (hsite : site.Static schema known)
    (converters : ConverterRegistry) (steps : List Step) :
    Act.Replays schema known (Slot.bind schema converters value site steps)
      (Slot.bind schema converters value site steps) := by
  induction steps generalizing site with
  | nil => exact replays_assignLeaf hsite converters
  | cons step steps ih =>
    cases step with
    | index index => exact (ih hsite).indexed hschema
    | member name =>
      rw [bind_member_eq]
      apply Act.Replays.enter hschema
      apply Act.Replays.inFields
      · intro typeName last items others hreplayed
        refine Act.Replays.fieldsMember (fun member hmember => ?_) hreplayed name
        exact ih (hsite.into hschema hreplayed.static hmember)
      · exact fun type last first second hreplayed => .skipped hreplayed

/-! ## Runs -/

variable {options : BindOptions} {under : KeyPath} {pairs : List Pair} {typeName : Text}

/-- A second run binds a pair as the first did. -/
theorem Object.replays_bind (hschema : schema.Static known)
    (hregistry : options.types.Typed schema known) (pair : Pair) (steps : List Step)
    {target target' : Object}
    (h : Slot.Replayed schema known (.object typeName) last target.toSlot target'.toSlot) :
    Slot.Replays schema known (.object typeName) last
      ((target.bind schema options pair steps).1.toSlot,
        (target.bind schema options pair steps).2)
      ((target'.bind schema options pair steps).1.toSlot,
        (target'.bind schema options pair steps).2) := by
  obtain ⟨items, others, htarget, htarget', -⟩ := h.field
  obtain rfl : target = ⟨typeName, items⟩ := Object.toSlot_injective htarget
  obtain rfl : target' = ⟨typeName, others⟩ := Object.toSlot_injective htarget'
  let site := Site.ofPair options pair (schema.find typeName).label
  have hsite : site.Static schema known := ⟨rfl, hregistry⟩
  cases steps with
  | nil => exact .skipped h
  | cons step steps =>
    cases step with
    | member name =>
      let memberAct : ObjectType → Member → Act := fun type member =>
        Slot.bind schema options.converters pair.value (site.into type member) steps
      have hmember : ∀ member ∈ (schema.find typeName).members, Act.Replays schema known
          (memberAct (schema.find typeName) member) (memberAct (schema.find typeName) member) :=
        fun member hmember => Slot.replays_bind hschema (hsite.into hschema h.static hmember) _ _
      exact Act.Replays.fieldsMember hmember h name
    | index index =>
      have hact : Act.Replays schema known
          (Slot.bind schema options.converters pair.value site steps)
          (Slot.bind schema options.converters pair.value site steps) :=
        Slot.replays_bind hschema hsite options.converters steps
      exact hact.fieldsItem hschema (hact.indexed hschema) h

/-- As long as a first run does not fail, a second run goes the same way. -/
theorem Object.replayed_populate (hschema : schema.Static known)
    (hregistry : options.types.Typed schema known) {target target' : Object}
    (h : Slot.Replayed schema known (.object typeName) last target.toSlot target'.toSlot)
    (hok : (target.populate schema options under pairs).2 = none) :
    (target'.populate schema options under pairs).2 = none ∧
      Slot.Replayed schema known (.object typeName) last
        (target.populate schema options under pairs).1.toSlot
        (target'.populate schema options under pairs).1.toSlot := by
  induction pairs generalizing target target' with
  | nil => exact ⟨rfl, h⟩
  | cons pair pairs ih =>
    cases hparts : under.stripPrefix? pair.key with
    | none =>
      simp only [populate, hparts] at hok ⊢
      exact ih h hok
    | some parts =>
      have hbind := Object.replays_bind hschema hregistry pair (stepsOf parts) h
      simp only [populate, hparts] at hok ⊢
      rcases hfirst : target.bind schema options pair (stepsOf parts) with ⟨next, outcome⟩
      rcases hsecond : target'.bind schema options pair (stepsOf parts) with ⟨next', outcome'⟩
      rw [hfirst, hsecond] at hbind
      rw [hfirst] at hok
      cases outcome with
      | failed fault => exact absurd hok (by simp)
      | assigned | skipped =>
        obtain ⟨hsame, hnext⟩ := hbind (by simp)
        obtain rfl : outcome' = _ := hsame
        exact ih hnext hok

/-- **Populating is idempotent.** Take an object type made of scalars, optional values, boxes,
lists, maps and objects of such types, where no member has a converter and new objects hold nothing
but scalars, and a registry that gives out objects as they should be. If a new object can be
populated with some pairs, under any key and with any separator, then populating what came of it
once more succeeds and changes nothing, nor the order of the entries of any map. -/
theorem Object.populate_populate (hschema : schema.Static known)
    (hregistry : options.types.Typed schema known) (hknown : known typeName) {after : Object}
    (h : (schema.newObject typeName).populate schema options under pairs = (after, none)) :
    after.populate schema options under pairs = (after, none) := by
  have hnew : (schema.newObject typeName).toSlot.Hollow schema known (.object typeName) :=
    Slot.hollow_initial hschema hknown
  have hok : ((schema.newObject typeName).populate schema options under pairs).2 = none := by
    rw [h]
  -- against itself the run shows that what comes of it is typed, and so it can be repeated
  have htyped : after.toSlot.Typed schema known (.object typeName) := by
    have hself := (Object.replayed_populate hschema hregistry (.same none hnew.typed) hok).2
    rw [h] at hself
    exact hself.of_none.2
  obtain ⟨hok', hreplayed⟩ :=
    Object.replayed_populate hschema hregistry (hnew.replayed htyped) hok
  rw [h] at hreplayed
  exact Prod.ext (Object.toSlot_injective (hreplayed.eq hschema)) hok'

/-- A shelf has rows of numbers, perhaps places by name in the order in which they were given, and
perhaps another shelf. -/
def shelfType : ObjectType where
  typeName := "Shelf"
  label := "Shelf"
  members :=
    [{ name := "Rows", field := "rows" }, { name := "Places", field := "places" },
     { name := "Next", field := "next" }]
  initial :=
    [("rows", .list (.list (.scalar (.integer (.unsigned 8)))) []),
     ("places", .vacant (.map "Places" .inserted (.single (.text .plain))
       (.scalar (.integer (.unsigned 8))))),
     ("next", .vacant (.boxed (.object "Shelf")))]

/-- Shelves are the only objects. -/
def shelfSchema : Schema where
  types := [shelfType]

/-- Text can ask for a new shelf. -/
def shelfOptions : BindOptions where
  types := ⟨[("spare", shelfSchema.newObject "Shelf")]⟩

theorem static_shelf : shelfSchema.Static (· = "Shelf") := by
  rintro _ rfl
  have htype : shelfSchema.find "Shelf" = shelfType := rfl
  rw [htype]
  refine ⟨by decide, fun field slot hslot => ?_, by decide⟩
  have hmem := Entries.mem_of_get? hslot
  simp only [shelfType, List.mem_cons, Prod.mk.injEq, List.not_mem_nil, or_false] at hmem
  rcases hmem with ⟨-, rfl⟩ | ⟨-, rfl⟩ | ⟨-, rfl⟩
  · exact .list trivial
  · exact .vacant trivial
  · exact .vacant rfl

theorem typed_shelfOptions : shelfOptions.types.Typed shelfSchema (· = "Shelf") := by
  intro name object hobject hknown
  have hmem := Entries.mem_of_get? hobject
  simp only [shelfOptions, List.mem_singleton, Prod.mk.injEq] at hmem
  obtain ⟨-, rfl⟩ := hmem
  exact Slot.typed_initial static_shelf hknown

/-- On the way both rows and places are taken back once. The second run finds them as they are at
the end, takes them back as well, and leaves neither a second row nor another order of the
places. -/
theorem shelf_populate_populate :
    let pairs :=
      [Pair.ofText "rows[1][0]" (some "5".toList), Pair.ofText "rows" (some []),
       Pair.ofText "places[b]" (some "1".toList), Pair.ofText "rows[0][2]" (some "7".toList),
       Pair.ofText "places" none, Pair.ofText "places[c]" (some "2".toList),
       Pair.ofText "places[b]" (some "3".toList), Pair.ofText "next" (some "spare".toList),
       Pair.ofText "next.rows" (some "8".toList)]
    let run := (shelfSchema.newObject "Shelf").populate shelfSchema shelfOptions
      (KeyPath.ofText []) pairs
    run.2 = none ∧
      (run.1.encode shelfSchema {}).toOption =
        some ("Rows[0][0] = 0\nRows[0][1] = 0\nRows[0][2] = 7\nPlaces[c] = 2\nPlaces[b] = 3\n" ++
          "Next.Rows[0][0] = 8\n").toList ∧
      run.1.populate shelfSchema shelfOptions (KeyPath.ofText []) pairs = (run.1, none) := by
  intro pairs run
  have hok : run.2 = none := by decide +kernel
  have hrun : run = (run.1, none) := by
    rw [← hok]
  refine ⟨hok, by decide +kernel, ?_⟩
  exact Object.populate_populate static_shelf typed_shelfOptions rfl hrun

end KeyedText
