import KeyedText.Proofs.Binding.Traced
import Mathlib.Data.List.Nodup

/-!
# Members that ignore writes

No key leads into a member that ignores writes, by whichever of its names, by the member `Item` or
by an index. Such a member of the target itself is as it was at the end of a run, whatever the pairs
are and however the run ends. A member of an object inside of the target is so too, unless a value
is assigned to the object or to a slot that it lies in, which replaces the object.

## Main definitions

- `Location.Encloses` — a place that another one lies at or behind
- `ObjectType.Ignores` — the members of a type that nothing is written to
- `Object.bindEach`, `Object.AssignsAt` — a run of pairs, and the places that it assigns values at
- `Object.KeepsIgnored` — an object that has kept what ignores writes

## Main statements

- `Slot.LeadsTo.unique` — a key leads to one place at most
- `Slot.Traced.shields` — following a key leaves alone what no key leads into
- `Object.keepsIgnored_populate` — runs and groups keep what ignores writes
-/

namespace KeyedText

/-- A place encloses the places at it and behind it. -/
def Location.Encloses : Location → Location → Prop
  | [], _ => True
  | _ :: _, [] => False
  | outer :: outers, inner :: inners => inner.same outer = true ∧ Encloses outers inners

/-- A member that ignores writes, where no other member is kept in the same field and no index on
the object goes there. -/
structure ObjectType.Ignores (type : ObjectType) (member : Member) : Prop where
  mem : member ∈ type.members
  ignoreSet : member.ignoreSet = true
  fields : (type.members.map Member.field).Nodup
  indexer : ∀ indexer, type.indexer = some indexer → indexer.field ≠ member.field

variable {schema : Schema} {options : BindOptions} {converters : ConverterRegistry}
  {key : KeyPath} {value : Option Text} {steps left : List Step} {typeName field : Text}
  {member : Member} {held : Option Slot} {place place' : Location}

/-- No step leads into a member that ignores writes. -/
theorem ObjectType.Ignores.not_goesTo (h : (schema.find typeName).Ignores member) :
    ¬Slot.GoesTo schema typeName steps member.field left := by
  -- the member that a step finds in the field would be this one, which does not take writes
  have hother : ∀ (folded : Text) (other : Member),
      (schema.find typeName).findMember folded = some other →
      (other.ignoreSet || !other.writable) = false → other.field ≠ member.field := by
    intro folded other hfound hbinds hfield
    have hsame := List.inj_on_of_nodup_map h.fields (mem_of_findMember hfound) h.mem hfield
    rw [hsame, h.ignoreSet] at hbinds
    exact absurd hbinds (by simp)
  intro hgoes
  generalize hfield : member.field = field at hgoes
  cases hgoes with
  | member found binds => exact hother _ _ found binds hfield.symm
  | item _ found binds => exact hother _ _ found binds hfield.symm
  | indexer found _ => exact h.indexer _ found hfield.symm

namespace Slot

variable {turn : Turn} {slot child child' before after : Slot} {result : Slot × Outcome}

/-! ## Fields that no step leads to -/

/-- At a place stands an object with a field that no step leads to, which holds a slot or is not
there. -/
def Shields (schema : Schema) (place : Location) (field : Text) (held : Option Slot)
    (slot : Slot) : Prop :=
  ∃ typeName make fields, slot.at? place = some (make fields) ∧ IsObject typeName make ∧
    (∀ steps left, ¬GoesTo schema typeName steps field left) ∧ Entries.get? field fields = held

theorem at?_append (place place' : Location) (slot : Slot) :
    slot.at? (place ++ place') = (slot.at? place).bind (at? place') := by
  induction place generalizing slot with
  | nil => rfl
  | cons turn place ih =>
    rw [List.cons_append, at?, at?, Option.bind_assoc]
    exact Option.bind_congr fun child _ => ih child

theorem at?_field {make : Fields → Slot} {fields : Fields}
    (hat : slot.at? place = some (make fields)) (hobject : IsObject typeName make) (field : Text) :
    slot.at? (place ++ [.field field]) = Entries.get? field fields := by
  rw [at?_append, hat, Option.bind_some, at?, hobject.child?_field]
  cases Entries.get? field fields <;> rfl

theorem Shields.at?_eq (h : slot.Shields schema place field held) :
    slot.at? (place ++ [.field field]) = held := by
  obtain ⟨typeName, make, fields, hat, hobject, -, hheld⟩ := h
  rw [at?_field hat hobject, hheld]

/-- Nothing but its fields lies in an object. -/
theorem IsObject.turn_eq {make : Fields → Slot} (h : IsObject typeName make) {fields : Fields}
    (hthere : (make fields).childOrNew? schema turn = some child) : ∃ name, turn = .field name := by
  cases turn with
  | field name => exact ⟨name, rfl⟩
  | _ => cases h <;> exact absurd hthere (by simp [childOrNew?, child?, created?])

theorem IsObject.inj {typeName' : Text} {make make' : Fields → Slot} (h : IsObject typeName make)
    (h' : IsObject typeName' make') {fields fields' : Fields} (heq : make fields = make' fields') :
    typeName = typeName' ∧ make = make' ∧ fields = fields' := by
  cases h with
  | object =>
    cases h' with
    | object =>
      obtain ⟨rfl, rfl⟩ := object.inj heq
      exact ⟨rfl, rfl, rfl⟩
    | dynamic => exact absurd heq (by simp)
  | dynamic =>
    cases h' with
    | object => exact absurd heq (by simp)
    | dynamic =>
      obtain ⟨rfl, rfl, rfl⟩ := dynamic.inj heq
      exact ⟨rfl, rfl, rfl⟩

/-- What happens behind a turn leaves an object alone that lies behind another one, or that is left
alone there. -/
theorem Shields.step {turn' : Turn} {outcome : Outcome}
    (h : before.Shields schema (turn' :: place') field held)
    (hchange : Changed schema turn child child' before after)
    (hapart : WritesAt schema (turn :: place) before (after, outcome) →
      ¬Location.Encloses (turn :: place) (turn' :: place'))
    (hchild : ∀ {place'}, child.Shields schema place' field held →
      (WritesAt schema place child (child', outcome) → ¬place.Encloses place') →
      child'.Shields schema place' field held) :
    after.Shields schema (turn' :: place') field held := by
  obtain ⟨typeName, make, fields, hat, hobject⟩ := h
  rw [at?, Option.bind_eq_some_iff] at hat
  obtain ⟨middle, hmiddle, hplace⟩ := hat
  by_cases hsame : turn'.same turn = true
  · rw [Turn.child?_eq hsame] at hmiddle
    have hwas := hchange.was
    rw [childOrNew?_of_child? hmiddle] at hwas
    obtain rfl := Option.some.inj hwas
    obtain ⟨typeName', make', fields', hat', hobject'⟩ :=
      hchild ⟨typeName, make, fields, hplace, hobject⟩ fun hwrites hencloses =>
        hapart ((writesAt_cons_iff hchange).2 hwrites) ⟨hsame, hencloses⟩
    refine ⟨typeName', make', fields', ?_, hobject'⟩
    rw [at?, Turn.child?_eq hsame, hchange.now]
    exact hat'
  · refine ⟨typeName, make, fields, ?_, hobject⟩
    rw [at?, hchange.keeps turn' (by simpa using hsame) middle hmiddle]
    exact hplace

/-- Going on to what is no field cannot start at the object itself. -/
theorem Shields.inside {outcome : Outcome} (h : before.Shields schema place' field held)
    (hchange : Changed schema turn child child' before after) (hturn : ∀ name, turn ≠ .field name)
    (hapart : WritesAt schema (turn :: place) before (after, outcome) →
      ¬Location.Encloses (turn :: place) place')
    (hchild : ∀ {place'}, child.Shields schema place' field held →
      (WritesAt schema place child (child', outcome) → ¬place.Encloses place') →
      child'.Shields schema place' field held) :
    after.Shields schema place' field held := by
  cases place' with
  | nil =>
    obtain ⟨_, _, _, hat, hobject, -⟩ := h
    obtain rfl := Option.some.inj hat
    obtain ⟨name, hname⟩ := hobject.turn_eq hchange.was
    exact absurd hname (hturn name)
  | cons turn' place' => exact h.step hchange hapart hchild

/-- Going on to another field of an object leaves the field alone that no step leads to. -/
theorem Shields.put {other : Text} {make : Fields → Slot} {fields : Fields}
    (h : (make fields).Shields schema [] field held) (hobject : IsObject typeName make)
    (hgoes : GoesTo schema typeName steps other left) (child' : Slot) :
    (make (Fields.put other child' fields)).Shields schema [] field held := by
  obtain ⟨typeName', make', fields', hat, hobject', hshut, hheld⟩ := h
  obtain ⟨rfl, rfl, rfl⟩ := hobject.inj hobject' (Option.some.inj hat)
  refine ⟨typeName, make, _, rfl, hobject, hshut, ?_⟩
  have hne : field ≠ other := by
    rintro rfl
    exact hshut _ _ hgoes
  rw [Fields.get?_put_of_ne hne, hheld]

/-- Following a key leaves alone what no key leads into, unless something is written to a slot that
it lies in. -/
theorem Traced.shields (h : Traced schema converters key value steps place before result)
    (hshields : before.Shields schema place' field held)
    (hapart : WritesAt schema place before result → ¬place.Encloses place') :
    result.1.Shields schema place' field held := by
  induction h generalizing place' with
  | assigned => exact absurd trivial (hapart (.inl rfl))
  | spoiled slot slot' =>
    by_cases hsame : slot' = slot
    · exact hsame ▸ hshields
    · exact absurd trivial (hapart (.inr ⟨slot, slot', rfl, rfl, hsame⟩))
  | stops => exact hshields
  | content _ there _ ih => exact hshields.inside (changed_content there _) (by simp) hapart ih
  | position _ room _ ih => exact hshields.inside (changed_position room _) (by simp) hapart ih
  | key _ _ _ ih =>
    exact hshields.inside (changed_key schema _ _ _ _ _ _ _) (by simp) hapart ih
  | field isObject goes there _ ih =>
    cases place' with
    | nil => exact hshields.put isObject goes _
    | cons turn' place' =>
      exact hshields.step (changed_field schema isObject there _) hapart ih

/-! ## Places that keys lead to -/

theorem GoesTo.unique {field' : Text} {left' : List Step}
    (h : GoesTo schema typeName steps field left) (h' : GoesTo schema typeName steps field' left') :
    field = field' ∧ left = left' := by
  cases h with
  | member found _ =>
    cases h' with
    | member found' _ =>
      rw [found] at found'
      exact ⟨congrArg Member.field (Option.some.inj found'), rfl⟩
  | item noIndexer found _ =>
    cases h' with
    | item _ found' _ =>
      rw [found] at found'
      exact ⟨congrArg Member.field (Option.some.inj found'), rfl⟩
    | indexer found' _ => exact absurd found' (by simp [noIndexer])
  | indexer found _ =>
    cases h' with
    | item noIndexer _ _ => exact absurd found (by simp [noIndexer])
    | indexer found' _ =>
      rw [found] at found'
      exact ⟨congrArg Indexer.field (Option.some.inj found'), rfl⟩

theorem objectType?_of_content (h : slot.childOrNew? schema .content = some child) :
    slot.objectType? = none := by
  rcases content_cases h with ⟨_, rfl, _⟩ | rfl | rfl <;> rfl

/-- A key leads to one place at most. -/
theorem LeadsTo.unique (h : slot.LeadsTo schema steps place)
    (h' : slot.LeadsTo schema steps place') : place = place' := by
  induction h generalizing place' with
  | ends slot =>
    cases h' with
    | ends => rfl
    | content goesOn _ _ => exact absurd rfl goesOn
    | field _ goes _ _ => cases goes
  | content goesOn there _ ih =>
    cases h' with
    | ends => exact absurd rfl goesOn
    | content _ there' rest' =>
      rw [there] at there'
      obtain rfl := Option.some.inj there'
      rw [ih rest']
    | position => exact absurd there (by simp [childOrNew?, child?, created?])
    | key => exact absurd there (by simp [childOrNew?, child?, created?])
    | field isObject _ _ _ => exact absurd isObject (by simp [objectType?_of_content there])
  | position reads _ ih =>
    cases h' with
    | content _ there _ => exact absurd there (by simp [childOrNew?, child?, created?])
    | position reads' rest' =>
      rw [reads] at reads'
      obtain rfl := Option.some.inj reads'
      rw [ih rest']
    | field isObject _ _ _ => exact absurd isObject (by simp [objectType?])
  | key _ reads _ ih =>
    cases h' with
    | content _ there _ => exact absurd there (by simp [childOrNew?, child?, created?])
    | key _ reads' rest' =>
      rw [reads] at reads'
      obtain rfl := Except.ok.inj reads'
      rw [ih rest']
    | field isObject _ _ _ => exact absurd isObject (by simp [objectType?])
  | field isObject goes there _ ih =>
    cases h' with
    | ends => cases goes
    | content _ there' _ => exact absurd isObject (by simp [objectType?_of_content there'])
    | position => exact absurd isObject (by simp [objectType?])
    | key => exact absurd isObject (by simp [objectType?])
    | field isObject' goes' there' rest' =>
      rw [isObject] at isObject'
      obtain rfl := Option.some.inj isObject'
      obtain ⟨rfl, rfl⟩ := goes.unique goes'
      rw [there] at there'
      obtain rfl := Option.some.inj there'
      rw [ih rest']

end Slot

/-! ## Runs -/

/-- The pairs under a key with the steps that are left behind it. -/
def KeyPath.routes (under : KeyPath) (pairs : List Pair) : List (Pair × List Step) :=
  pairs.filterMap fun pair => (under.stripPrefix? pair.key).map fun parts => (pair, stepsOf parts)

namespace Object

/-- An object after some pairs, each of them at the end of its steps. -/
def bindEach (schema : Schema) (options : BindOptions) :
    List (Pair × List Step) → Object → Object × Option BindFault
  | [], target => (target, none)
  | (pair, steps) :: rest, target =>
    match target.bind schema options pair steps with
    | (target, .failed fault) => (target, some fault)
    | (target, _) => bindEach schema options rest target

/-- A run of pairs assigns a value at a place, or ends there with a converter that has written and
then failed. -/
inductive AssignsAt (schema : Schema) (options : BindOptions) (place : Location) :
    List (Pair × List Step) → Object → Prop
  | now {pair : Pair} {steps : List Step} {rest : List (Pair × List Step)} {target : Object}
      (writes : target.toSlot.WritesAt schema place
        ((target.bind schema options pair steps).1.toSlot,
          (target.bind schema options pair steps).2))
      (leads : target.toSlot.LeadsTo schema steps place) :
      AssignsAt schema options place ((pair, steps) :: rest) target
  | later {pair : Pair} {steps : List Step} {rest : List (Pair × List Step)} {target : Object}
      (goesOn : ∀ fault, (target.bind schema options pair steps).2 ≠ .failed fault)
      (later : AssignsAt schema options place rest (target.bind schema options pair steps).1) :
      AssignsAt schema options place ((pair, steps) :: rest) target

/-- An object after a run that assigned values at some places has kept what ignores writes: its own
members that do, and those of objects inside of it that no such place encloses. -/
structure KeepsIgnored (schema : Schema) (assigned : Location → Prop) (before after : Object) :
    Prop where
  own : ∀ member, (schema.find before.typeName).Ignores member →
    Entries.get? member.field after.fields = Entries.get? member.field before.fields
  inside : ∀ place typeName make fields member, before.toSlot.at? place = some (make fields) →
    Slot.IsObject typeName make → (schema.find typeName).Ignores member →
    (∀ other, assigned other → ¬other.Encloses place) →
    after.toSlot.at? (place ++ [.field member.field]) = Entries.get? member.field fields

variable {pairs : List Pair} {entries : List (Pair × List Step)} {target : Object}

theorem populate_eq_bindEach (schema : Schema) (options : BindOptions) (under : KeyPath)
    (pairs : List Pair) (target : Object) :
    target.populate schema options under pairs =
      target.bindEach schema options (under.routes pairs) := by
  induction pairs generalizing target with
  | nil => rfl
  | cons pair pairs ih =>
    rw [populate, KeyPath.routes]
    cases hparts : under.stripPrefix? pair.key with
    | none =>
      rw [List.filterMap_cons_none (by rw [hparts, Option.map_none])]
      exact ih target
    | some parts =>
      rw [List.filterMap_cons_some (by rw [hparts, Option.map_some]), bindEach]
      dsimp only
      rcases target.bind schema options pair (stepsOf parts) with ⟨after, _ | _ | fault⟩
      · exact ih after
      · exact ih after
      · rfl

theorem bindAll_eq_bindEach (schema : Schema) (options : BindOptions) (routed : List Routed)
    (target : Object) :
    Grouping.bindAll schema options routed target =
      match target.bindEach schema options (routed.map fun entry => (entry.pair, entry.steps)) with
      | (after, none) => .ok after
      | (_, some fault) => .error fault := by
  induction routed generalizing target with
  | nil => rfl
  | cons entry routed ih =>
    rw [Grouping.bindAll, List.map_cons, bindEach]
    rcases target.bind schema options entry.pair entry.steps with ⟨after, _ | _ | fault⟩
    · exact ih after
    · exact ih after
    · rfl

/-- A pair leaves alone what no key leads into, unless something is written to a slot that it lies
in. -/
theorem shields_bind {pair : Pair} (hshields : target.toSlot.Shields schema place field held)
    (hapart : ∀ other, target.toSlot.WritesAt schema other
        ((target.bind schema options pair steps).1.toSlot,
          (target.bind schema options pair steps).2) →
      target.toSlot.LeadsTo schema steps other → ¬other.Encloses place) :
    (target.bind schema options pair steps).1.toSlot.Shields schema place field held := by
  obtain ⟨other, htraced⟩ := target.walked_bind schema options pair steps
  exact htraced.shields hshields fun hwrites => hapart other hwrites (htraced.leadsTo hwrites)

/-- A run leaves alone what no key leads into, unless it assigns a value to a slot that this lies
in. -/
theorem shields_bindEach (hshields : target.toSlot.Shields schema place field held)
    (hapart : ∀ other, AssignsAt schema options other entries target → ¬other.Encloses place) :
    (target.bindEach schema options entries).1.toSlot.Shields schema place field held := by
  induction entries generalizing target with
  | nil => exact hshields
  | cons entry entries ih =>
    obtain ⟨pair, steps⟩ := entry
    have hbound :
        (target.bind schema options pair steps).1.toSlot.Shields schema place field held :=
      shields_bind hshields fun other hwrites hleads => hapart other (.now hwrites hleads)
    have hlater : (∀ fault, (target.bind schema options pair steps).2 ≠ .failed fault) →
        ((target.bind schema options pair steps).1.bindEach schema options
          entries).1.toSlot.Shields schema place field held :=
      fun hgoes => ih hbound fun other hother => hapart other (.later hgoes hother)
    rw [bindEach]
    rcases hbind : target.bind schema options pair steps with ⟨after, _ | _ | fault⟩
    · rw [hbind] at hlater
      exact hlater (by simp)
    · rw [hbind] at hlater
      exact hlater (by simp)
    · rw [hbind] at hbound
      exact hbound

/-- No value is assigned to the target itself. -/
theorem AssignsAt.not_encloses_root (h : AssignsAt schema options place entries target) :
    ¬place.Encloses [] := by
  induction h with
  | @now pair steps rest target writes leads =>
    cases leads with
    | ends => exact absurd writes (Slot.not_writesAt (by simp [bind]))
    | _ => exact id
  | later _ _ ih => exact ih

theorem keepsIgnored_bindEach (schema : Schema) (options : BindOptions)
    (entries : List (Pair × List Step)) (target : Object) :
    target.KeepsIgnored schema (fun place => AssignsAt schema options place entries target)
      (target.bindEach schema options entries).1 := by
  have hkeeps : ∀ place typeName make fields member,
      target.toSlot.at? place = some (make fields) → Slot.IsObject typeName make →
      (schema.find typeName).Ignores member →
      (∀ other, AssignsAt schema options other entries target → ¬other.Encloses place) →
      (target.bindEach schema options entries).1.toSlot.at? (place ++ [.field member.field]) =
        Entries.get? member.field fields := by
    intro place typeName make fields member hat hobject hignores hapart
    have hshields : target.toSlot.Shields schema place member.field
        (Entries.get? member.field fields) :=
      ⟨typeName, make, fields, hat, hobject, fun _ _ => hignores.not_goesTo, rfl⟩
    exact (shields_bindEach hshields hapart).at?_eq
  refine ⟨fun member hignores => ?_, hkeeps⟩
  have hroot := hkeeps [] target.typeName (.object target.typeName) target.fields member rfl
    (.object _) hignores fun other => AssignsAt.not_encloses_root
  have hafter : (target.bindEach schema options entries).1.toSlot.at?
      ([] ++ [.field member.field]) =
        Entries.get? member.field (target.bindEach schema options entries).1.fields :=
    Slot.at?_field rfl (.object _) member.field
  exact hafter.symm.trans hroot

/-- The object of a group is what its pairs made of the object that was made for it. -/
theorem bindEach_of_mem_groups {make : GroupKey → Object} {grouping : Grouping}
    {groups : List (GroupKey × Object)} {group : GroupKey × Object}
    (h : (Grouping.populate schema options make grouping).outcome = .ok groups)
    (hgroup : group ∈ groups) :
    ∃ routed, (group.1, routed) ∈ grouping ∧
      (make group.1).bindEach schema options (routed.map fun entry => (entry.pair, entry.steps)) =
        (group.2, none) := by
  induction grouping generalizing groups with
  | nil =>
    obtain rfl := Except.ok.inj h
    simp at hgroup
  | cons first grouping ih =>
    obtain ⟨key, routed⟩ := first
    rw [Grouping.populate, bindAll_eq_bindEach] at h
    rcases hbound : (make key).bindEach schema options
      (routed.map fun entry => (entry.pair, entry.steps)) with ⟨after, _ | fault⟩
    · rw [hbound] at h
      dsimp only at h
      cases hrest : (Grouping.populate schema options make grouping).outcome with
      | error fault =>
        rw [hrest] at h
        exact absurd h (by simp [Except.map])
      | ok others =>
        rw [hrest] at h
        obtain rfl := Except.ok.inj h
        rcases List.mem_cons.1 hgroup with rfl | hgroup
        · exact ⟨routed, List.mem_cons_self, hbound⟩
        · obtain ⟨found, hfound, hobject⟩ := ih hrest hgroup
          exact ⟨found, List.mem_cons_of_mem _ hfound, hobject⟩
    · rw [hbound] at h
      exact absurd h (by simp)

/-- **Nothing is written to what ignores writes.** However a run over the pairs under a key ends,
the members of the target that ignore writes hold what they held, and so do those of objects inside
of it, unless a pair assigned a value to a slot that the object lies in. The same holds of the
objects of groups and what was made for them. -/
theorem keepsIgnored_populate (schema : Schema) (options : BindOptions) (under : KeyPath)
    (pairs : List Pair) :
    (∀ target : Object, target.KeepsIgnored schema
      (fun place => AssignsAt schema options place (under.routes pairs) target)
      (target.populate schema options under pairs).1) ∧
    ∀ comparer make groups,
      ((Grouping.ofPairs comparer under pairs).populate schema options make).outcome = .ok groups →
      ∀ group ∈ groups, ∃ routed, (group.1, routed) ∈ Grouping.ofPairs comparer under pairs ∧
        (make group.1).KeepsIgnored schema
          (fun place => AssignsAt schema options place
            (routed.map fun entry => (entry.pair, entry.steps)) (make group.1))
          group.2 := by
  constructor
  · intro target
    rw [populate_eq_bindEach]
    exact keepsIgnored_bindEach schema options (under.routes pairs) target
  · intro comparer make groups houtcome group hgroup
    obtain ⟨routed, hrouted, hbound⟩ := bindEach_of_mem_groups houtcome hgroup
    have hkeeps := keepsIgnored_bindEach schema options
      (routed.map fun entry => (entry.pair, entry.steps)) (make group.1)
    rw [hbound] at hkeeps
    exact ⟨routed, hrouted, hkeeps⟩

end Object

/-- A lodge has guests and a number of stars that text does not change. Nor does it change the room
of a guest, which is also what an index on a guest would go to. -/
def lodgeSchema : Schema where
  types :=
    [{ typeName := "Lodge", label := "Lodge"
       members :=
         [{ name := "Guests", field := "guests" },
          { name := "Stars", field := "stars", aliases := ["Rating"], ignoreSet := true }]
       initial :=
         [("guests", .list (.object "Guest") []),
          ("stars", .scalar (.integer (.signed 32) 0))] },
     { typeName := "Guest", label := "Guest"
       members :=
         [{ name := "Name", field := "name" },
          { name := "Item", field := "room", aliases := ["Room"], ignoreSet := true }]
       initial :=
         [("name", .scalar (.text .plain [])),
          ("room", .list (.scalar (.integer (.signed 32))) [])] }]

/-- A lodge with one guest. -/
def lodge : Object where
  typeName := "Lodge"
  fields :=
    [("guests", .list (.object "Guest")
      [.object "Guest"
        [("name", .scalar (.text .plain "Anna")),
         ("room", .list (.scalar (.integer (.signed 32))) [.scalar (.integer (.signed 32) 7)])]]),
     ("stars", .scalar (.integer (.signed 32) 3))]

/-- The guest of a lodge gets another name, and nothing is changed by the keys that would lead to
the stars and the room. A lodge that is made for a group keeps its stars as well. -/
theorem lodge_keepsIgnored :
    let pairs := [Pair.ofText "rating" (some "5".toList),
      Pair.ofText "guests[0].name" (some "Bea".toList),
      Pair.ofText "guests[0][0]" (some "8".toList),
      Pair.ofText "guests[0].room[0]" (some "9".toList)]
    let after := (lodge.populate lodgeSchema {} (KeyPath.ofText []) pairs).1
    let grouped := [Pair.ofText "lodge[a].stars" (some "9".toList)]
    let result := Grouping.populate lodgeSchema {} (fun _ => lodge)
      (Grouping.ofPairs none (KeyPath.ofText "lodge") grouped)
    Entries.get? "stars" after.fields = some (.scalar (.integer (.signed 32) 3)) ∧
      after.toSlot.at? [.field "guests", .position 0, .field "room"] =
        some (.list (.scalar (.integer (.signed 32))) [.scalar (.integer (.signed 32) 7)]) ∧
      ∃ object, result.outcome = .ok [(some "a".toList, object)] ∧
        Entries.get? "stars" object.fields = some (.scalar (.integer (.signed 32) 3)) := by
  intro pairs after grouped result
  have hkept := (Object.keepsIgnored_populate lodgeSchema {} (KeyPath.ofText []) pairs).1 lodge
  have hstars : (lodgeSchema.find "Lodge").Ignores
      { name := "Stars", field := "stars", aliases := ["Rating"], ignoreSet := true } :=
    ⟨by decide, rfl, by decide, by simp [lodgeSchema, Schema.find]⟩
  have hroom : (lodgeSchema.find "Guest").Ignores
      { name := "Item", field := "room", aliases := ["Room"], ignoreSet := true } :=
    ⟨by decide, rfl, by decide, by simp [lodgeSchema, Schema.find]⟩
  have hroutes : (KeyPath.ofText []).routes pairs =
      [(Pair.ofText "rating" (some "5".toList), [.member "rating"]),
       (Pair.ofText "guests[0].name" (some "Bea".toList),
        [.member "guests", .index (Index.ofText "0"), .member "name"]),
       (Pair.ofText "guests[0][0]" (some "8".toList),
        [.member "guests", .index (Index.ofText "0"), .index (Index.ofText "0")]),
       (Pair.ofText "guests[0].room[0]" (some "9".toList),
        [.member "guests", .index (Index.ofText "0"), .member "room",
          .index (Index.ofText "0")])] := by decide
  have hresult : result.outcome = .ok [(some "a".toList, lodge)] := rfl
  obtain ⟨_, -, hgroup⟩ := (Object.keepsIgnored_populate lodgeSchema {} (KeyPath.ofText "lodge")
    grouped).2 none (fun _ => lodge) _ hresult (some "a".toList, lodge) List.mem_cons_self
  refine ⟨hkept.own _ hstars, ?_, lodge, hresult, hgroup.own _ hstars⟩
  refine hkept.inside [.field "guests", .position 0] "Guest" (.object "Guest") _ _ rfl (.object _)
    hroom fun other hother => ?_
  have hguests : (lodgeSchema.find "Lodge").findMember (Text.fold "guests") =
      some { name := "Guests", field := "guests" } := rfl
  have hname : (lodgeSchema.find "Guest").findMember (Text.fold "name") =
      some { name := "Name", field := "name" } := rfl
  -- of all pairs only the second one assigns its value, to the name of the guest
  rw [hroutes] at hother
  cases hother with
  | now writes _ => exact absurd writes (Slot.not_writesAt (by decide))
  | later _ hother =>
    cases hother with
    | now _ leads =>
      have hplace := leads.unique (.field rfl (.member hguests rfl) rfl
        (.position rfl (.field rfl (.member hname rfl) rfl (.ends _))))
      rw [hplace]
      simp [Location.Encloses]
    | later _ hother =>
      cases hother with
      | now writes _ => exact absurd writes (Slot.not_writesAt (by decide))
      | later _ hother =>
        cases hother with
        | now writes _ => exact absurd writes (Slot.not_writesAt (by decide))
        | later _ hother => cases hother

end KeyedText
