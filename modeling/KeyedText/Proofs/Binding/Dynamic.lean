import KeyedText.Proofs.Binding.Frame
import KeyedText.Proofs.Binding.Ignored
import KeyedText.Proofs.Binding.Lists
import KeyedText.Proofs.Grouping.Prefixes

/-!
# Slots whose type the text names

A dynamic slot is a leaf until a text names a type for it, and an object of that type afterwards. So
what a key behind it means depends on what was written before. A type that is named anew starts the
slot over: nothing that was written earlier counts, and the pairs behind it do to the slot what they
would do to a new object of the type.

## Main definitions

- `KeyPath.stepsInto?`, `KeyPath.routesInto` — keys that lead into a field, and their other steps
- `Object.FieldStep` — what a pair does to the slot of a field
- `Slot.NamedFrom` — what a dynamic slot may become

## Main statements

- `Object.populate_cons_field` — what the first pair of a run does to a field
- `Slot.namedFrom_bind` — a key leaves a dynamic slot with its name or a registered one
- `Object.populate_dynamic` — the pairs behind a dynamic slot
- `Object.populate_typeLine` — a type that is named starts its slot over
-/

namespace KeyedText

variable {schema : Schema} {options : BindOptions} {under : KeyPath} {target after : Object}
  {field name title typeName : Text} {fields : Fields} {slot : Slot} {pairs later : List Pair}

/-! ## Keys that lead into a field -/

/-- Whether a name leads to a member that takes writes and is kept in a field. -/
def ObjectType.leadsInto (type : ObjectType) (folded field : Text) : Bool :=
  (type.findMember folded).any fun member =>
    !(member.ignoreSet || !member.writable) && member.field == field

/-- The steps of a key that are left behind a member that is kept in a field, if it leads there. -/
def KeyPath.stepsInto? (under : KeyPath) (type : ObjectType) (field : Text) (key : KeyPath) :
    Option (List Step) :=
  match under.stripPrefix? key with
  | some (part :: parts) =>
    if type.leadsInto part.folded field then some (part.indices.map .index ++ stepsOf parts)
    else none
  | _ => none

/-- The pairs that lead into a field with the steps that are left behind it. -/
def KeyPath.routesInto (under : KeyPath) (type : ObjectType) (field : Text) (pairs : List Pair) :
    List (Pair × List Step) :=
  pairs.filterMap fun pair => (under.stepsInto? type field pair.key).map fun steps => (pair, steps)

theorem ObjectType.leadsInto_iff {type : ObjectType} {folded : Text} :
    type.leadsInto folded field = true ↔ ∃ member, type.findMember folded = some member ∧
      (member.ignoreSet || !member.writable) = false ∧ member.field = field := by
  cases hfound : type.findMember folded <;> simp [leadsInto, hfound]

theorem Fields.get?_update_of_ne {β : Type} {other : Text} (h : field ≠ other) (missing : β)
    (step : Slot → Slot × β) (fields : Fields) :
    Entries.get? field (update other missing step fields).1 = Entries.get? field fields := by
  cases hthere : Entries.get? other fields with
  | none => rw [update_of_missing _ _ hthere]
  | some old => rw [update_eq_put _ _ hthere, get?_put_of_ne h]

/-- A field is left alone by the names that do not lead there. -/
theorem Fields.get?_member (h : (schema.find typeName).leadsInto (Text.fold name) field = false)
    (act : ObjectType → Member → Act) (fields : Fields) :
    Entries.get? field (Fields.member schema name act typeName fields).1 =
      Entries.get? field fields := by
  rw [Fields.member]
  cases hfound : (schema.find typeName).findMember (Text.fold name) with
  | none => rfl
  | some member =>
    cases hbinds : member.ignoreSet || !member.writable with
    | true => simp [hbinds]
    | false =>
      have hne : field ≠ member.field := by
        intro hfield
        rw [ObjectType.leadsInto_iff.2 ⟨member, hfound, hbinds, hfield.symm⟩] at h
        cases h
      simpa [hbinds] using get?_update_of_ne hne _ _ fields

/-- The fault that following a key ended with, if any. -/
def Outcome.fault? : Outcome → Option BindFault
  | .failed fault => some fault
  | _ => none

namespace Object

/-- What a pair does to the slot of a field, and the fault that it ends a run with, if any: the slot
stays as it is unless the key leads there; otherwise it goes on with the steps that are left. -/
inductive FieldStep (schema : Schema) (options : BindOptions) (under : KeyPath) (target : Object)
    (field : Text) (pair : Pair) (slot : Slot) : Slot → Option BindFault → Prop where
  | elsewhere (leads : under.stepsInto? (schema.find target.typeName) field pair.key = none)
      (fault? : Option BindFault) :
      FieldStep schema options under target field pair slot slot fault?
  | into {steps : List Step} {member : Member}
      (leads : under.stepsInto? (schema.find target.typeName) field pair.key = some steps)
      (mem : member ∈ (schema.find target.typeName).members) (kept : member.field = field) :
      FieldStep schema options under target field pair slot
        (Slot.bind schema options.converters pair.value (target.site schema options member pair)
          steps slot).1
        (Slot.bind schema options.converters pair.value (target.site schema options member pair)
          steps slot).2.fault?

theorem populate_cons_of_some {pair : Pair} {parts : List KeyPart}
    (h : under.stripPrefix? pair.key = some parts) (rest : List Pair) :
    target.populate schema options under (pair :: rest) =
      match (target.bind schema options pair (stepsOf parts)).2.fault? with
      | some fault => ((target.bind schema options pair (stepsOf parts)).1, some fault)
      | none => (target.bind schema options pair (stepsOf parts)).1.populate schema options under
          rest := by
  rw [populate, h]
  dsimp only
  rcases target.bind schema options pair (stepsOf parts) with ⟨next, _ | _ | fault⟩ <;> rfl

theorem bindEach_cons (pair : Pair) (steps : List Step) (rest : List (Pair × List Step))
    (target : Object) :
    target.bindEach schema options ((pair, steps) :: rest) =
      match (target.bind schema options pair steps).2.fault? with
      | some fault => ((target.bind schema options pair steps).1, some fault)
      | none => (target.bind schema options pair steps).1.bindEach schema options rest := by
  rw [bindEach]
  rcases target.bind schema options pair steps with ⟨next, _ | _ | fault⟩ <;> rfl

/-- What the first pair of a run does to a field, and how the run goes on. -/
theorem populate_cons_field (schema : Schema) (options : BindOptions) (under : KeyPath)
    (hslot : Entries.get? field target.fields = some slot) (pair : Pair) :
    ∃ next slot' fault?, next.typeName = target.typeName ∧
      Entries.get? field next.fields = some slot' ∧
      target.FieldStep schema options under field pair slot slot' fault? ∧
      ∀ rest, target.populate schema options under (pair :: rest) =
        match fault? with
        | some fault => (next, some fault)
        | none => next.populate schema options under rest := by
  cases hparts : under.stripPrefix? pair.key with
  | none =>
    refine ⟨target, slot, none, rfl, hslot, .elsewhere ?_ none, fun rest => ?_⟩
    · rw [KeyPath.stepsInto?, hparts]
    · rw [populate, hparts]
  | some parts =>
    suffices hfield : ∃ slot',
        Entries.get? field (target.bind schema options pair (stepsOf parts)).1.fields =
          some slot' ∧
        target.FieldStep schema options under field pair slot slot'
          (target.bind schema options pair (stepsOf parts)).2.fault? by
      obtain ⟨slot', hget, hstep⟩ := hfield
      exact ⟨_, slot', _, target.typeName_bind schema options pair _, hget, hstep,
        populate_cons_of_some hparts⟩
    cases parts with
    | nil => exact ⟨slot, hslot, .elsewhere (by rw [KeyPath.stepsInto?, hparts]) _⟩
    | cons part parts =>
      have hsteps : stepsOf (part :: parts) =
          .member part.name :: (part.indices.map .index ++ stepsOf parts) := rfl
      rw [hsteps]
      cases hleads : (schema.find target.typeName).leadsInto part.folded field with
      | true =>
        obtain ⟨member, hfound, hbinds, rfl⟩ := ObjectType.leadsInto_iff.1 hleads
        have hholds : target.Holds schema part.name member slot := ⟨hfound, hbinds, hslot⟩
        have hinto : under.stepsInto? (schema.find target.typeName) member.field pair.key =
            some (part.indices.map .index ++ stepsOf parts) := by
          rw [KeyPath.stepsInto?, hparts]
          exact if_pos hleads
        rw [hholds.bind_member]
        exact ⟨_, Fields.get?_put_self hslot,
          .into hinto (ObjectType.mem_of_findMember hfound) rfl⟩
      | false =>
        have hnone : under.stepsInto? (schema.find target.typeName) field pair.key = none := by
          rw [KeyPath.stepsInto?, hparts]
          exact if_neg (by simp [hleads])
        refine ⟨slot, ?_, .elsewhere hnone _⟩
        rw [bind, Fields.get?_member hleads]
        exact hslot

end Object

/-! ## Dynamic slots -/

namespace Slot

variable {types : TypeRegistry} {site : Site} {value : Option Text} {index : Index}
  {act : Act} {steps : List Step} {before middle : Slot}

/-- What a dynamic slot may become: it stays without an object or goes on with the name and the type
of the one it has, or it has been given the name of a registered type and an object of that type. -/
inductive NamedFrom (types : TypeRegistry) : Slot → Slot → Prop where
  | unset : NamedFrom types .unset .unset
  | kept (name typeName : Text) (fields fields' : Fields) :
      NamedFrom types (.dynamic name typeName fields) (.dynamic name typeName fields')
  | given {before : Slot} {name : Text} {made : Object} (dynamic : before.type = .dynamic)
      (registered : types.create? name = some made) (fields : Fields) :
      NamedFrom types before (.dynamic name made.typeName fields)

theorem NamedFrom.type_left (h : NamedFrom types before slot) : before.type = .dynamic := by
  cases h with
  | unset => rfl
  | kept => rfl
  | given dynamic _ _ => exact dynamic

theorem NamedFrom.type_right (h : NamedFrom types before slot) : slot.type = .dynamic := by
  cases h <;> rfl

theorem NamedFrom.refl (h : slot.type = .dynamic) : NamedFrom types slot slot := by
  cases slot with
  | unset => exact .unset
  | dynamic name typeName fields => exact .kept name typeName fields fields
  | _ => cases h

theorem NamedFrom.trans (h : NamedFrom types before middle) (h' : NamedFrom types middle slot) :
    NamedFrom types before slot := by
  cases h' with
  | unset => exact h
  | kept name typeName fields fields' =>
    cases h with
    | kept _ _ fields'' _ => exact .kept name typeName fields'' fields'
    | given dynamic registered _ => exact .given dynamic registered fields'
  | given _ registered fields => exact .given h.type_left registered fields

/-- An index on a dynamic slot goes on in the fields of its object, and nowhere without one. -/
theorem namedFrom_indexed (h : slot.type = .dynamic) :
    NamedFrom types slot (slot.indexed schema site value index act).1 := by
  rw [indexed]
  cases slot with
  | unset => cases schema.hopLimit .unset <;> exact .unset
  | dynamic name typeName fields =>
    cases schema.hopLimit (.dynamic name typeName fields) <;> exact .kept _ _ _ _
  | _ => cases h

/-- The name of a registered type starts a dynamic slot over. -/
theorem assignLeaf_given (hplain : site.member.converter = none) (h : slot.type = .dynamic)
    {raw : Text} {made : Object} (hmade : site.types.create? raw = some made)
    (converters : ConverterRegistry) :
    slot.assignLeaf site converters (some raw) =
      (.dynamic (Text.trim raw) made.typeName made.fields, .assigned) := by
  simp [assignLeaf, hplain, assign, h, SlotType.read, hmade]

theorem namedFrom_assignLeaf (hplain : site.member.converter = none) (h : slot.type = .dynamic)
    (converters : ConverterRegistry) :
    NamedFrom site.types slot (slot.assignLeaf site converters value).1 := by
  cases value with
  | none =>
    have hclear : slot.clear = slot := by cases slot <;> first | rfl | cases h
    simpa [assignLeaf, hplain, assign, hclear] using NamedFrom.refl h
  | some raw =>
    cases hmade : site.types.create? raw with
    | none =>
      simpa [assignLeaf, hplain, assign, h, SlotType.read, hmade] using NamedFrom.refl h
    | some made =>
      have hnamed : site.types.create? (Text.trim raw) = some made := by
        rw [← hmade, TypeRegistry.create?, TypeRegistry.create?, Text.trim_trim]
      rw [assignLeaf_given hplain h hmade]
      exact .given h hnamed made.fields

/-- A key leaves a dynamic slot with the name that it has, or with a registered one. -/
theorem namedFrom_bind (schema : Schema) (converters : ConverterRegistry) (value : Option Text)
    (site : Site) (hplain : site.member.converter = none) (h : slot.type = .dynamic)
    (steps : List Step) :
    NamedFrom site.types slot (slot.bind schema converters value site steps).1 := by
  cases steps with
  | nil => exact namedFrom_assignLeaf hplain h converters
  | cons step rest =>
    cases step with
    | index index => exact namedFrom_indexed h
    | member name =>
      cases slot with
      | unset => exact .unset
      | dynamic name typeName fields => exact .kept _ _ _ _
      | _ => cases h

end Slot

/-! ## Runs -/

namespace Object

/-- A name behind a dynamic slot does to its object what it would do to the object alone. -/
theorem bind_dynamic (pair : Pair) (target : Object) (member : Member) (steps : List Step) :
    Slot.bind schema options.converters pair.value (target.site schema options member pair)
        (.member name :: steps) (.dynamic title typeName fields) =
      let result := (⟨typeName, fields⟩ : Object).bind schema options pair (.member name :: steps)
      (.dynamic title typeName result.1.fields, result.2) :=
  rfl

/-- However a run ends, a dynamic slot has the name that it had or a registered one. -/
theorem namedFrom_populate (under : KeyPath) (hslot : Entries.get? field target.fields = some slot)
    (hdynamic : slot.type = .dynamic)
    (hplain : ∀ member ∈ (schema.find target.typeName).members, member.field = field →
      member.converter = none) (pairs : List Pair) :
    ∃ slot', Entries.get? field (target.populate schema options under pairs).1.fields =
      some slot' ∧ Slot.NamedFrom options.types slot slot' := by
  induction pairs generalizing target slot with
  | nil => exact ⟨slot, hslot, .refl hdynamic⟩
  | cons pair pairs ih =>
    obtain ⟨next, slot', fault?, htype, hslot', hstep, hrun⟩ :=
      populate_cons_field schema options under hslot pair
    have hnamed : Slot.NamedFrom options.types slot slot' := by
      cases hstep with
      | elsewhere => exact .refl hdynamic
      | @into steps member _ mem kept =>
        exact Slot.namedFrom_bind schema options.converters pair.value
          (target.site schema options member pair) (hplain member mem kept) hdynamic steps
    rw [hrun]
    cases fault? with
    | some fault => exact ⟨slot', hslot', hnamed⟩
    | none =>
      obtain ⟨last, hlast, htrans⟩ := ih hslot' hnamed.type_right (htype ▸ hplain)
      exact ⟨last, hlast, hnamed.trans htrans⟩

/-- The pairs that lead on behind a dynamic slot do to its object what they would do to the object
alone. -/
theorem populate_dynamic
    (hslot : Entries.get? field target.fields = some (.dynamic title typeName fields))
    (h : target.populate schema options under pairs = (after, none))
    (hlater : ∀ pair ∈ pairs, ∀ steps,
      under.stepsInto? (schema.find target.typeName) field pair.key = some steps →
      ∃ name rest, steps = .member name :: rest) :
    ∃ fields', (⟨typeName, fields⟩ : Object).bindEach schema options
        (under.routesInto (schema.find target.typeName) field pairs) = (⟨typeName, fields'⟩, none) ∧
      Entries.get? field after.fields = some (.dynamic title typeName fields') := by
  induction pairs generalizing target fields with
  | nil =>
    obtain rfl : target = after := congrArg Prod.fst h
    exact ⟨fields, rfl, hslot⟩
  | cons pair pairs ih =>
    obtain ⟨next, slot', fault?, htype, hslot', hstep, hrun⟩ :=
      populate_cons_field schema options under hslot pair
    have hrest := fun own hown => hlater own (List.mem_cons_of_mem pair hown)
    rw [hrun] at h
    rw [← htype] at hrest ⊢
    cases hstep with
    | elsewhere hnone =>
      rw [KeyPath.routesInto, List.filterMap_cons_none (by rw [htype, hnone, Option.map_none])]
      cases fault? with
      | some fault => exact absurd (congrArg Prod.snd h) (by simp)
      | none => exact ih hslot' h hrest
    | into hsteps _ _ =>
      obtain ⟨name, rest, rfl⟩ := hlater pair List.mem_cons_self _ hsteps
      rw [bind_dynamic] at h hslot'
      rw [KeyPath.routesInto, List.filterMap_cons_some (by rw [htype, hsteps, Option.map_some]),
        bindEach_cons]
      dsimp only at h hslot'
      cases hfault : ((⟨typeName, fields⟩ : Object).bind schema options pair
          (.member name :: rest)).2.fault? with
      | some fault =>
        rw [hfault] at h
        exact absurd (congrArg Prod.snd h) (by simp)
      | none =>
        rw [hfault] at h
        exact ih hslot' h hrest

end Object

/-- When one name leads into a field, the pairs that go on behind it are those under that name. -/
theorem KeyPath.routesInto_eq_routes {type : ObjectType}
    (hlater : ∀ pair ∈ pairs, ∀ steps, under.stepsInto? type field pair.key = some steps →
      ∃ name rest, steps = .member name :: rest)
    (hname : ∀ pair ∈ pairs, ∀ part parts, under.stripPrefix? pair.key = some (part :: parts) →
      (type.leadsInto part.folded field = true ↔ part.folded = Text.fold name)) :
    under.routesInto type field pairs =
      KeyPath.routes ⟨under.parts ++ [⟨name, []⟩]⟩ pairs := by
  apply List.filterMap_congr
  intro pair hpair
  have hstrip : stripPrefix? ⟨under.parts ++ [⟨name, []⟩]⟩ pair.key =
      match under.stripPrefix? pair.key with
      | some (part :: rest) => if part.same ⟨name, []⟩ then some rest else none
      | _ => none :=
    stripParts?_concat _ _ _
  rw [hstrip, stepsInto?]
  cases hparts : under.stripPrefix? pair.key with
  | none => rfl
  | some parts =>
    cases parts with
    | nil => rfl
    | cons part parts =>
      have hiff := hname pair hpair part parts hparts
      dsimp only
      by_cases hleads : type.leadsInto part.folded field = true
      · -- what is left behind the part begins with a name, so the part has no indices
        obtain ⟨next, rest, hnext⟩ := hlater pair hpair (part.indices.map .index ++ stepsOf parts)
          (by rw [stepsInto?, hparts]; exact if_pos hleads)
        have hindices : part.indices = [] := by
          cases hfirst : part.indices with
          | nil => rfl
          | cons index indices => rw [hfirst] at hnext; cases hnext
        have hsame : part.same ⟨name, []⟩ = true :=
          KeyPart.same_iff.2 ⟨beq_iff_eq.2 (hiff.1 hleads), by rw [hindices]⟩
        rw [if_pos hleads, if_pos hsame, hindices]
        rfl
      · have hother : ¬part.same ⟨name, []⟩ = true := fun hsame =>
          hleads (hiff.2 (beq_iff_eq.1 (KeyPart.same_iff.1 hsame).1))
        rw [if_neg hleads, if_neg hother]
        rfl

/-- **A type that is named starts its slot over.** When a run succeeds in which a pair names a
registered type for a dynamic slot, and no later pair ends at the slot or has an index on it, then
the slot has that name, and what the later pairs behind the slot make of a new object of the type.
When all of these use one name of the slot, they do so as a run of their own under that name. What
the slot held before and what earlier pairs wrote to it does not count. However a run ends, the slot
has the name and the type that it had before, or the name of a registered type and an object of
that. -/
theorem Object.populate_typeLine (hslot : Entries.get? field target.fields = some slot)
    (hdynamic : slot.type = .dynamic)
    (hplain : ∀ member ∈ (schema.find target.typeName).members, member.field = field →
      member.converter = none) :
    (∀ (earlier later : List Pair) (line : Pair) (raw : Text) (made after : Object),
        under.stepsInto? (schema.find target.typeName) field line.key = some [] →
        line.value = some raw → options.types.create? raw = some made →
        (∀ pair ∈ later, ∀ steps,
          under.stepsInto? (schema.find target.typeName) field pair.key = some steps →
          ∃ name rest, steps = .member name :: rest) →
        target.populate schema options under (earlier ++ line :: later) = (after, none) →
        ∃ fields,
          Entries.get? field after.fields =
            some (.dynamic (Text.trim raw) made.typeName fields) ∧
          made.bindEach schema options
              (under.routesInto (schema.find target.typeName) field later) =
            (⟨made.typeName, fields⟩, none) ∧
          ∀ name, (∀ pair ∈ later, ∀ part parts,
              under.stripPrefix? pair.key = some (part :: parts) →
              ((schema.find target.typeName).leadsInto part.folded field = true ↔
                part.folded = Text.fold name)) →
            made.populate schema options ⟨under.parts ++ [⟨name, []⟩]⟩ later =
              (⟨made.typeName, fields⟩, none)) ∧
      ∀ pairs, ∃ slot', Entries.get? field (target.populate schema options under pairs).1.fields =
        some slot' ∧ Slot.NamedFrom options.types slot slot' := by
  refine ⟨?_, namedFrom_populate under hslot hdynamic hplain⟩
  intro earlier later line raw made after hline hvalue hmade hlater hrun
  obtain ⟨middle, hearlier, hmiddle⟩ := exists_middle hrun
  have htype : middle.typeName = target.typeName := by
    rw [← typeName_populate schema options under earlier target, hearlier]
  obtain ⟨held, hheld, hnamed⟩ :=
    namedFrom_populate under hslot hdynamic hplain earlier
  rw [hearlier] at hheld
  rw [← htype] at hline hlater hplain ⊢
  obtain ⟨next, slot', fault?, hnext, hslot', hstep, hgoes⟩ :=
    populate_cons_field schema options under hheld line
  rw [hgoes] at hmiddle
  cases hstep with
  | elsewhere hnone => cases hline.symm.trans hnone
  | @into steps member hsteps hmember hfield =>
    obtain rfl : [] = steps := Option.some.inj (hline.symm.trans hsteps)
    have hassigned : Slot.bind schema options.converters line.value
        (middle.site schema options member line) [] held =
          (.dynamic (Text.trim raw) made.typeName made.fields, .assigned) := by
      rw [hvalue]
      exact Slot.assignLeaf_given (hplain member hmember hfield) hnamed.type_right hmade
        options.converters
    rw [hassigned] at hmiddle hslot'
    rw [← hnext] at hlater ⊢
    obtain ⟨fields, hbound, hafter⟩ := populate_dynamic hslot' hmiddle hlater
    refine ⟨fields, hafter, hbound, fun name hname => ?_⟩
    rw [populate_eq_bindEach, ← KeyPath.routesInto_eq_routes hlater hname]
    exact hbound

/-- A kennel has a name and a pet of any kind, which is also called its animal. -/
def kennelSchema : Schema where
  types :=
    [{ typeName := "Kennel", label := "Kennel"
       members :=
         [{ name := "Pet", field := "pet", aliases := ["Animal"] },
          { name := "Name", field := "name" }]
       initial := [("pet", .unset), ("name", .scalar (.text .plain []))] },
     { typeName := "Dog", label := "Dog"
       members := [{ name := "Name", field := "name" }, { name := "Age", field := "age" }]
       initial :=
         [("name", .scalar (.text .plain [])), ("age", .scalar (.integer (.signed 32) 0))] }]

/-- Texts can name dogs. -/
def kennelOptions : BindOptions where
  types := TypeRegistry.empty.register "Dog" (kennelSchema.newObject "Dog")

/-- A kennel with a dog of four years. -/
def kennel : Object where
  typeName := "Kennel"
  fields :=
    [("pet", .dynamic "Dog" "Dog"
      [("name", .scalar (.text .plain "Rex")), ("age", .scalar (.integer (.signed 32) 4))]),
     ("name", .scalar (.text .plain "Home"))]

/-- The dog of a kennel is given another name and is then replaced by a new one, which has the name
that comes after that and no years. -/
theorem kennel_populate_typeLine :
    let earlier := [Pair.ofText "pet.name" (some "Max".toList)]
    let line := Pair.ofText "animal" (some " Dog".toList)
    let later := [Pair.ofText "name" (some "Court".toList),
      Pair.ofText "pet.name" (some "Ben".toList)]
    let made := kennelSchema.newObject "Dog"
    let result := kennel.populate kennelSchema kennelOptions KeyPath.empty
      (earlier ++ line :: later)
    result.2 = none ∧ ∃ fields,
      Entries.get? "pet" result.1.fields = some (.dynamic "Dog" "Dog" fields) ∧
        made.populate kennelSchema kennelOptions (KeyPath.ofText "pet") later =
          (⟨"Dog", fields⟩, none) := by
  intro earlier line later made result
  have hplain : ∀ member ∈ (kennelSchema.find "Kennel").members, member.field = "pet".toList →
      member.converter = none := by decide
  have hlater : ∀ pair ∈ later, ∀ steps,
      KeyPath.empty.stepsInto? (kennelSchema.find "Kennel") "pet" pair.key = some steps →
      ∃ name rest, steps = .member name :: rest := by
    intro pair hpair steps hsteps
    rcases List.mem_cons.1 hpair with rfl | hpair
    · cases hsteps
    · obtain rfl := List.mem_singleton.1 hpair
      exact ⟨"name", [], (Option.some.inj hsteps).symm⟩
  have hname : ∀ pair ∈ later, ∀ part parts,
      KeyPath.empty.stripPrefix? pair.key = some (part :: parts) →
      ((kennelSchema.find "Kennel").leadsInto part.folded "pet" = true ↔
        part.folded = Text.fold "pet") := by
    intro pair hpair part parts hparts
    rcases List.mem_cons.1 hpair with rfl | hpair
    · obtain ⟨rfl, -⟩ := List.cons.inj (Option.some.inj hparts)
      decide
    · obtain rfl := List.mem_singleton.1 hpair
      obtain ⟨rfl, -⟩ := List.cons.inj (Option.some.inj hparts)
      decide
  have hrun : kennel.populate kennelSchema kennelOptions KeyPath.empty
      (earlier ++ line :: later) = (result.1, none) := rfl
  obtain ⟨fields, hafter, -, hfresh⟩ := (Object.populate_typeLine rfl rfl hplain).1 earlier later
    line " Dog" made result.1 rfl rfl rfl hlater hrun
  exact ⟨rfl, fields, hafter, hfresh "pet" hname⟩

end KeyedText
