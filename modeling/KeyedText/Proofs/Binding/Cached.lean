import KeyedText.Binding.Cached
import KeyedText.Proofs.Binding.Items

/-!
# Members through a cache

A cache that starts out empty never remembers anything but what a look into the member tables would
find. So it makes no difference to what a name addresses whether the cache was asked for it before,
nor to a run over the pairs under a key what was bound before it, into whatever objects.

## Main definitions

- `Member.Found` — the member of a table that a folded name addresses
- `MemberCache.Sound` — a cache remembers nothing but what the member tables say
- `Cached.Gives` — what a run comes to with any sound cache
- `Cached.Task`, `Cached.afterAll` — what a cache is used for, and the cache afterwards

## Main statements

- `ObjectType.findMember_iff` — how a member is found without a cache
- `MemberCache.Sound.find` — looking up a member in a sound cache
- `Cached.gives_bind`, `Cached.gives_populate` — following a key, and all keys of a run
- `Cached.found_after_history` — after any history, all is found as without a cache
-/

namespace KeyedText

/-! ## Members of a table -/

/-- The member that a folded name addresses: the first one with that name, otherwise the first one
with such an alias, otherwise none. -/
inductive Member.Found (members : List Member) (folded : Text) : Option Member → Prop
  | named {front back : List Member} {member : Member}
      (hmembers : members = front ++ member :: back) (hname : Text.fold member.name = folded)
      (hfirst : ∀ other ∈ front, Text.fold other.name ≠ folded) :
      Found members folded (some member)
  | aliased {front back : List Member} {member : Member}
      (hunnamed : ∀ other ∈ members, Text.fold other.name ≠ folded)
      (hmembers : members = front ++ member :: back)
      (halias : ∃ name ∈ member.aliases, Text.fold name = folded)
      (hfirst : ∀ other ∈ front, ∀ name ∈ other.aliases, Text.fold name ≠ folded) :
      Found members folded (some member)
  | nowhere (hunnamed : ∀ other ∈ members, Text.fold other.name ≠ folded)
      (hunaliased : ∀ other ∈ members, ∀ name ∈ other.aliases, Text.fold name ≠ folded) :
      Found members folded none

namespace ObjectType

variable {type : ObjectType} {members : List Member} {member : Member} {folded : Text}
  {found : Option Member}

theorem find?_named_iff :
    (members.find? fun member => Text.fold member.name == folded) = some member ↔
      Text.fold member.name = folded ∧ ∃ front back, members = front ++ member :: back ∧
        ∀ other ∈ front, Text.fold other.name ≠ folded := by
  simp [List.find?_eq_some_iff_append]

theorem find?_named_eq_none_iff :
    (members.find? fun member => Text.fold member.name == folded) = none ↔
      ∀ other ∈ members, Text.fold other.name ≠ folded := by
  simp

theorem find?_aliased_iff :
    (members.find? fun member => member.hasAlias folded) = some member ↔
      (∃ name ∈ member.aliases, Text.fold name = folded) ∧
        ∃ front back, members = front ++ member :: back ∧
          ∀ other ∈ front, ∀ name ∈ other.aliases, Text.fold name ≠ folded := by
  simp [List.find?_eq_some_iff_append, Member.hasAlias]

theorem find?_aliased_eq_none_iff :
    (members.find? fun member => member.hasAlias folded) = none ↔
      ∀ other ∈ members, ∀ name ∈ other.aliases, Text.fold name ≠ folded := by
  simp [Member.hasAlias]

theorem findMember_eq_find? (type : ObjectType) (folded : Text) : type.findMember folded =
    (type.members.find? fun member => Text.fold member.name == folded).or
      (type.members.find? fun member => member.hasAlias folded) := by
  rw [findMember, memberPosition?, List.find?_eq_bind_findIdx?_getElem?,
    List.find?_eq_bind_findIdx?_getElem?]
  cases hname : type.members.findIdx? fun member => Text.fold member.name == folded with
  | none => rfl
  | some position =>
    -- the position is one of the table, so that there is no need to look for an alias
    obtain ⟨hposition, -⟩ := List.findIdx?_eq_some_iff_getElem.1 hname
    rw [Option.some_or, Option.bind_some, List.getElem?_eq_getElem hposition, Option.some_or]

theorem found_findMember (type : ObjectType) (folded : Text) :
    Member.Found type.members folded (type.findMember folded) := by
  rw [findMember_eq_find?]
  cases hname : type.members.find? fun member => Text.fold member.name == folded with
  | some member =>
    obtain ⟨hmember, front, back, hmembers, hfirst⟩ := find?_named_iff.1 hname
    exact .named hmembers hmember hfirst
  | none =>
    have hunnamed := find?_named_eq_none_iff.1 hname
    rw [Option.none_or]
    cases halias : type.members.find? fun member => member.hasAlias folded with
    | some member =>
      obtain ⟨hmember, front, back, hmembers, hfirst⟩ := find?_aliased_iff.1 halias
      exact .aliased hunnamed hmembers hmember hfirst
    | none => exact .nowhere hunnamed (find?_aliased_eq_none_iff.1 halias)

/-- There is one way to find a member. -/
theorem findMember_iff :
    type.findMember folded = found ↔ Member.Found type.members folded found := by
  constructor
  · rintro rfl
    exact found_findMember type folded
  · intro h
    rw [findMember_eq_find?]
    cases h with
    | named hmembers hname hfirst =>
      rw [find?_named_iff.2 ⟨hname, _, _, hmembers, hfirst⟩, Option.some_or]
    | aliased hunnamed hmembers halias hfirst =>
      rw [find?_named_eq_none_iff.2 hunnamed,
        find?_aliased_iff.2 ⟨halias, _, _, hmembers, hfirst⟩, Option.none_or]
    | nowhere hunnamed hunaliased =>
      rw [find?_named_eq_none_iff.2 hunnamed, find?_aliased_eq_none_iff.2 hunaliased,
        Option.none_or]

end ObjectType

/-! ## Sound caches -/

theorem Schema.typeName_find (schema : Schema) (typeName : Text) :
    (schema.find typeName).typeName = typeName := by
  rw [find]
  split
  · next type htype => simpa using List.find?_some htype
  · rfl

/-- A cache remembers nothing but what the member tables of a schema say. -/
def MemberCache.Sound (schema : Schema) (cache : MemberCache) : Prop :=
  ∀ typeName folded position, cache.position? typeName folded = some position →
    memberPosition? (schema.find typeName).members folded = some position

namespace MemberCache

variable {schema : Schema} {cache : MemberCache}

theorem sound_empty (schema : Schema) : empty.Sound schema := by
  intro typeName folded position h
  exact absurd h (by simp [position?, empty])

theorem position?_cons (typeName folded : Text) (entry : (Text × Text) × Nat)
    (entries : List ((Text × Text) × Nat)) :
    position? ⟨entry :: entries⟩ typeName folded =
      if entry.1 = (typeName, folded) then some entry.2
      else position? ⟨entries⟩ typeName folded := by
  rw [position?, List.find?_cons]
  by_cases h : entry.1 = (typeName, folded)
  · simp [h]
  · simp [h, beq_eq_false_iff_ne.2 h, position?]

/-- A sound cache finds what is in the table, and what it remembers anew is there as well. -/
theorem Sound.find (h : cache.Sound schema) (typeName folded : Text) :
    (cache.find (schema.find typeName) folded).1 = (schema.find typeName).findMember folded ∧
      (cache.find (schema.find typeName) folded).2.Sound schema := by
  rw [MemberCache.find, schema.typeName_find, ObjectType.findMember]
  cases hcached : cache.position? typeName folded with
  | some position =>
    rw [h typeName folded position hcached]
    exact ⟨rfl, h⟩
  | none =>
    cases hposition : memberPosition? (schema.find typeName).members folded with
    | none => exact ⟨rfl, h⟩
    | some position =>
      refine ⟨rfl, fun otherType other found hfound => ?_⟩
      simp only [position?_cons] at hfound
      split at hfound
      · next hsame =>
        obtain ⟨rfl, rfl⟩ := Prod.mk.inj hsame
        rw [hposition, ← hfound]
      · exact h otherType other found hfound

end MemberCache

/-! ## Runs with a sound cache -/

namespace Cached

/-- With any sound cache the run comes to the given result and leaves the cache sound. -/
def Gives (schema : Schema) {α : Type} (run : StateM MemberCache α) (result : α) : Prop :=
  ∀ cache, cache.Sound schema →
    (run.run cache).1 = result ∧ (run.run cache).2.Sound schema

namespace Gives

variable {schema : Schema} {α β : Type} {run : StateM MemberCache α} {result : α}

theorem pure (result : α) : Gives schema (Pure.pure result) result :=
  fun _ hcache => ⟨rfl, hcache⟩

theorem bind {next : α → StateM MemberCache β} {last : β} (hrun : Gives schema run result)
    (hnext : Gives schema (next result) last) : Gives schema (run >>= next) last := by
  intro cache hcache
  obtain ⟨rfl, hsound⟩ := hrun cache hcache
  exact hnext _ hsound

theorem map (f : α → β) (hrun : Gives schema run result) :
    Gives schema (f <$> run) (f result) := by
  intro cache hcache
  obtain ⟨rfl, hsound⟩ := hrun cache hcache
  exact ⟨rfl, hsound⟩

end Gives

variable {schema : Schema} {site : Site} {value : Option Text} {index : Index}
  {act within : Act} {plain plainWithin : KeyedText.Act}

theorem gives_findMember (schema : Schema) (typeName folded : Text) :
    Gives schema (findMember (schema.find typeName) folded)
      ((schema.find typeName).findMember folded) :=
  fun _ hcache => hcache.find typeName folded

/-- A step through the cache that comes to what another step comes to without one. -/
def Act.Matches (schema : Schema) (act : Act) (plain : KeyedText.Act) : Prop :=
  ∀ slot, Gives schema (act slot) (plain slot)

theorem gives_enterNew (h : act.Matches schema plain) (type : SlotType) :
    Gives schema (enterNew schema act type) (type.enterNew schema plain) := by
  induction type with
  | option content ih => exact ih.map _
  | boxed content ih => exact ih.map _
  | _ => exact h _

theorem matches_enter (h : act.Matches schema plain) :
    Act.Matches schema (enter schema act) (Slot.enter schema plain)
  | .vacant content => (gives_enterNew h content).map _
  | .filled content => (matches_enter h content).map _
  | .boxed content => (matches_enter h content).map _
  | .scalar _ | .list _ _ | .map _ _ _ _ _ | .object _ _ | .reference _ | .unset
  | .dynamic _ _ _ => h _

theorem gives_actAt (h : act.Matches schema plain) (position : Nat) (items : List Slot) :
    Gives schema (actAt act position items) (KeyedText.actAt plain position items) := by
  induction items generalizing position with
  | nil =>
    rw [actAt, KeyedText.actAt]
    exact .pure _
  | cons item items ih =>
    cases position with
    | zero => exact (h item).map _
    | succ position => exact (ih position).map _

theorem handing_eq (act : Act) (cache : MemberCache) (slot : Slot) :
    handing act cache slot =
      (((act slot).run cache).1.1, ((act slot).run cache).1.2, ((act slot).run cache).2) :=
  rfl

theorem gives_upsert (h : act.Matches schema plain) (kind : MapKind) (key : MapKey) (start : Slot)
    (entries : List (MapKey × Slot)) :
    Gives schema (upsert kind key start act entries) (kind.upsert key start plain entries) := by
  intro cache hcache
  obtain ⟨hresult, hsound⟩ := h ((MapKind.get? key entries).getD start) cache hcache
  simp only [StateT.run, upsert]
  rw [MapKind.upsert_eq_put, MapKind.upsert_eq_put kind key start plain, ← hresult, handing_eq]
  exact ⟨rfl, hsound⟩

theorem gives_update (h : act.Matches schema plain) (field : Text) (fields : Fields) :
    Gives schema (update field act fields) (fields.update field .skipped plain) := by
  intro cache hcache
  simp only [StateT.run, update]
  cases hfield : Entries.get? field fields with
  | none =>
    rw [Fields.update_of_missing _ _ hfield, Fields.update_of_missing _ _ hfield]
    exact ⟨rfl, hcache⟩
  | some slot =>
    obtain ⟨hresult, hsound⟩ := h slot cache hcache
    rw [Fields.update_eq_put _ _ hfield, Fields.update_eq_put _ _ hfield, ← hresult, handing_eq]
    exact ⟨rfl, hsound⟩

/-! ## Following a key -/

theorem matches_item (h : act.Matches schema plain) :
    Act.Matches schema (item schema site value index act)
      (Slot.item schema site value index plain) := by
  intro slot
  cases slot with
  | list element items =>
    rw [item, Slot.item]
    cases readPosition? index.text with
    | none => exact .pure _
    | some position =>
      dsimp only
      cases padded? (schema.initial element) items position with
      | none => exact .pure _
      | some padded => exact (gives_actAt h position padded).map _
  | map typeName kind keyType element entries =>
    rw [item, Slot.item]
    split
    · exact .pure _
    · cases keyType.read index with
      | error cause => exact .pure _
      | ok key => exact (gives_upsert h kind key (schema.initial element) entries).map _
  | _ => exact .pure _

/-- What is done in the slot of the member that a look into the member table finds. -/
theorem gives_intoMember {memberAct : Member → Act} {plainAct : Member → KeyedText.Act}
    (h : ∀ member, (memberAct member).Matches schema (plainAct member)) (fields : Fields)
    (found : Option Member) :
    Gives schema (intoMember fields memberAct found)
      (match found with
      | none => (fields, .skipped)
      | some member =>
        if member.ignoreSet || !member.writable then (fields, .skipped)
        else fields.update member.field .skipped (plainAct member)) := by
  cases found with
  | none => exact .pure _
  | some member =>
    rw [intoMember]
    dsimp only
    split
    · exact .pure _
    · exact gives_update (h member) member.field fields

theorem gives_fieldsMember {memberAct : ObjectType → Member → Act}
    {plainAct : ObjectType → Member → KeyedText.Act}
    (h : ∀ type member, (memberAct type member).Matches schema (plainAct type member))
    (name typeName : Text) (fields : Fields) :
    Gives schema (fieldsMember schema name memberAct typeName fields)
      (Fields.member schema name plainAct typeName fields) :=
  (gives_findMember schema typeName _).bind (gives_intoMember (h _) fields _)

theorem gives_fieldsItem (h : act.Matches schema plain)
    (hwithin : within.Matches schema plainWithin) (typeName : Text) (fields : Fields) :
    Gives schema (fieldsItem schema site value index act within typeName fields)
      (Fields.item schema site value index plain plainWithin typeName fields) := by
  rw [fieldsItem, Fields.item]
  cases (schema.find typeName).indexer with
  | none =>
    exact (gives_findMember schema typeName _).bind
      (gives_intoMember (fun _ => hwithin) fields _)
  | some indexer =>
    dsimp only
    split
    · exact .pure _
    · exact gives_update (matches_item h) indexer.field fields

theorem matches_inFields {go : Text → Fields → StateM MemberCache (Fields × Outcome)}
    {plainGo : Text → Fields → Fields × Outcome} {other : Act} {plainOther : KeyedText.Act}
    (hgo : ∀ typeName fields, Gives schema (go typeName fields) (plainGo typeName fields))
    (hother : other.Matches schema plainOther) :
    Act.Matches schema (inFields go other) (Slot.inFields plainGo plainOther) := by
  intro slot
  cases slot with
  | object typeName fields => exact (hgo typeName fields).map _
  | dynamic name typeName fields => exact (hgo typeName fields).map _
  | _ => exact hother _

theorem matches_indexedWith (h : act.Matches schema plain)
    (hwithin : within.Matches schema plainWithin) :
    Act.Matches schema (indexedWith schema site value index act within)
      (Slot.indexedWith schema site value index plain plainWithin) := by
  rw [Slot.indexedWith_eq]
  exact matches_enter (matches_inFields (gives_fieldsItem h hwithin) (matches_item h))

theorem matches_indexedWithin (h : act.Matches schema plain) (hops : Nat) :
    Act.Matches schema (indexedWithin schema site value index act hops)
      (Slot.indexedWithin schema site value index plain hops) := by
  induction hops with
  | zero => exact matches_indexedWith h fun _ => .pure _
  | succ hops ih => exact matches_indexedWith h ih

theorem matches_indexed (h : act.Matches schema plain) :
    Act.Matches schema (indexed schema site value index act)
      (Slot.indexed schema site value index plain) :=
  fun slot => matches_indexedWithin h (schema.hopLimit slot) slot

theorem matches_bind (schema : Schema) (converters : ConverterRegistry) (value : Option Text)
    (site : Site) (steps : List Step) :
    Act.Matches schema (bind schema converters value site steps)
      (Slot.bind schema converters value site steps) := by
  induction steps generalizing site with
  | nil => exact fun _ => .pure _
  | cons step steps ih =>
    cases step with
    | index index => exact matches_indexed (ih site)
    | member name =>
      rw [Slot.bind_member_eq]
      refine matches_enter (matches_inFields ?_ fun _ => .pure _)
      exact gives_fieldsMember (fun type member => ih (site.into type member)) name

theorem gives_bindObject (schema : Schema) (options : BindOptions) (pair : Pair)
    (steps : List Step) (target : Object) :
    Gives schema (bindObject schema options pair steps target)
      (target.bind schema options pair steps) := by
  cases steps with
  | nil => exact .pure _
  | cons step steps =>
    cases step with
    | member name =>
      exact (gives_fieldsMember (fun type member => matches_bind schema _ _ _ steps) name _ _).map _
    | index index =>
      have hact := matches_bind schema options.converters pair.value
        (Site.ofPair options pair (schema.find target.typeName).label) steps
      exact (gives_fieldsItem hact (matches_indexed hact) _ _).map _

/-! ## Runs over pairs -/

theorem gives_populate (schema : Schema) (options : BindOptions) (under : KeyPath)
    (pairs : List Pair) (target : Object) :
    Gives schema (populate schema options under pairs target)
      (target.populate schema options under pairs) := by
  induction pairs generalizing target with
  | nil => exact .pure _
  | cons pair pairs ih =>
    rw [populate, Object.populate]
    cases under.stripPrefix? pair.key with
    | none => exact ih target
    | some parts =>
      refine (gives_bindObject schema options pair (stepsOf parts) target).bind ?_
      dsimp only
      rcases target.bind schema options pair (stepsOf parts) with ⟨next, outcome⟩
      cases outcome with
      | failed fault => exact .pure _
      | assigned | skipped => exact ih next

theorem gives_bindAll (schema : Schema) (options : BindOptions) (routed : List Routed)
    (target : Object) :
    Gives schema (bindAll schema options routed target)
      (Grouping.bindAll schema options routed target) := by
  induction routed generalizing target with
  | nil => exact .pure _
  | cons entry routed ih =>
    rw [bindAll, Grouping.bindAll]
    refine (gives_bindObject schema options entry.pair entry.steps target).bind ?_
    rcases target.bind schema options entry.pair entry.steps with ⟨next, outcome⟩
    cases outcome with
    | failed fault => exact .pure _
    | assigned | skipped => exact ih next

theorem gives_populateGroups (schema : Schema) (options : BindOptions) (make : GroupKey → Object)
    (grouping : Grouping) :
    Gives schema (populateGroups schema options make grouping)
      (Grouping.populate schema options make grouping) := by
  induction grouping with
  | nil => exact .pure _
  | cons group grouping ih =>
    obtain ⟨key, routed⟩ := group
    rw [populateGroups, Grouping.populate]
    refine (gives_bindAll schema options routed (make key)).bind ?_
    cases Grouping.bindAll schema options routed (make key) with
    | error fault => exact .pure _
    | ok target => exact ih.bind (.pure _)

/-! ## Histories -/

/-- What a cache is used for: to find a member by a part of a key or by its name, or to populate an
object or the objects of groups. -/
inductive Task where
  | part (typeName : Text) (part : KeyPart)
  | name (typeName name : Text)
  | populate (options : BindOptions) (under : KeyPath) (pairs : List Pair) (target : Object)
  | groups (options : BindOptions) (make : GroupKey → Object) (grouping : Grouping)

/-- The cache after a task. -/
def after (schema : Schema) (cache : MemberCache) : Task → MemberCache
  | .part typeName part => (cache.find (schema.find typeName) part.folded).2
  | .name typeName name => (cache.findNamed (schema.find typeName) name).2
  | .populate options under pairs target =>
    ((Cached.populate schema options under pairs target).run cache).2
  | .groups options make grouping =>
    ((populateGroups schema options make grouping).run cache).2

/-- The cache after some tasks, empty before the first. -/
def afterAll (schema : Schema) (history : List Task) : MemberCache :=
  history.foldl (after schema) .empty

theorem sound_after {cache : MemberCache} (h : cache.Sound schema) (task : Task) :
    (after schema cache task).Sound schema := by
  cases task with
  | part typeName part => exact (h.find typeName _).2
  | name typeName name => exact (h.find typeName _).2
  | populate options under pairs target =>
    exact (gives_populate schema options under pairs target cache h).2
  | groups options make grouping =>
    exact (gives_populateGroups schema options make grouping cache h).2

theorem sound_afterAll (schema : Schema) (history : List Task) :
    (afterAll schema history).Sound schema :=
  List.foldlRecOn history (after schema) (MemberCache.sound_empty schema)
    fun _ hcache task _ => sound_after hcache task

/-- **The cache makes no difference.** Let one cache serve any object types for any history of looks
for members, by parts of keys and by names, and of runs over pairs and groups of pairs. Then a part
of a key, or a name, addresses the first member that folds alike, otherwise the first one with an
alias that does, otherwise none, and every run comes to what it comes to without a cache. -/
theorem found_after_history (schema : Schema) (history : List Task) :
    (∀ typeName (part : KeyPart) found,
      ((afterAll schema history).find (schema.find typeName) part.folded).1 = found ↔
        Member.Found (schema.find typeName).members (Text.fold part.name) found) ∧
    (∀ typeName name found,
      ((afterAll schema history).findNamed (schema.find typeName) name).1 = found ↔
        Member.Found (schema.find typeName).members (Text.fold name) found) ∧
    (∀ options under pairs target,
      ((populate schema options under pairs target).run (afterAll schema history)).1 =
        Object.populate schema options under pairs target) ∧
    ∀ options make grouping,
      ((populateGroups schema options make grouping).run (afterAll schema history)).1 =
        Grouping.populate schema options make grouping := by
  have hsound := sound_afterAll schema history
  refine ⟨fun typeName part found => ?_, fun typeName name found => ?_,
    fun options under pairs target => ?_, fun options make grouping => ?_⟩
  · rw [(hsound.find typeName _).1]
    exact ObjectType.findMember_iff
  · rw [MemberCache.findNamed, (hsound.find typeName _).1]
    exact ObjectType.findMember_iff
  · exact (gives_populate schema options under pairs target _ hsound).1
  · exact (gives_populateGroups schema options make grouping _ hsound).1

/-- The name of one member stands before an alias of another, in whatever order the two are looked
for. What addresses no member is not remembered. -/
example :
    let pet : ObjectType :=
      { typeName := "Pet"
        label := "Pet"
        members :=
          [{ name := "Kind", field := "kind", aliases := ["Name"] },
           { name := "Name", field := "name", aliases := ["Call name"] }]
        initial := [("kind", .scalar (.text .plain [])), ("name", .scalar (.text .plain []))] }
    let schema : Schema := ⟨[pet]⟩
    let cache := afterAll schema
      [.name "Pet" "KIND", .name "Pet" "Nick", .name "Pet" "call NAME", .name "Pet" " kind "]
    cache = ⟨[(("Pet", "call name"), 1), (("Pet", "kind"), 0)]⟩ ∧
      (cache.findNamed pet "name").1.map Member.field = some "name".toList := by
  decide +kernel

end Cached

end KeyedText
