import KeyedText.Binding.Populate
import KeyedText.Schema.MemberCache

/-!
# Following keys with a member cache

Keys are followed as before, but the members that names address are looked up in a cache. All types
share one cache, and it goes along from step to step, from pair to pair and from run to run. What is
found for one key is there for the next one, whatever object that is bound into.

## Main definitions

- `Cached.findMember` — looks a member up, and remembers it
- `Cached.bind`, `Cached.bindObject` — a slot and an object after the value at the end of a key
- `Cached.populate` — an object after the pairs under a key
- `Cached.populateGroups` — one object for each group
-/

namespace KeyedText.Cached

/-- What is done to a slot on the way, where members are looked up in the cache. -/
abbrev Act := Slot → StateM MemberCache (Slot × Outcome)

/-- The member of a type that a folded name addresses. -/
def findMember (type : ObjectType) (folded : Text) : StateM MemberCache (Option Member) :=
  fun cache => cache.find type folded

/-- The way into a new optional slot: its content is created and the step goes on in it. -/
def enterNew (schema : Schema) (act : Act) : SlotType → StateM MemberCache (Slot × Outcome)
  | .option content => Prod.map .filled id <$> enterNew schema act content
  | .boxed content => Prod.map .boxed id <$> enterNew schema act content
  | type => act (schema.initial type)

/-- The way into a slot: through boxes and optional slots, where a vacant one is filled. -/
def enter (schema : Schema) (act : Act) : Act
  | .vacant content => Prod.map .filled id <$> enterNew schema act content
  | .filled content => Prod.map .filled id <$> enter schema act content
  | .boxed content => Prod.map .boxed id <$> enter schema act content
  | slot => act slot

/-- Applies a step to the item at a position of a list. -/
def actAt (act : Act) : Nat → List Slot → StateM MemberCache (List Slot × Outcome)
  | _, [] => pure ([], .skipped)
  | 0, item :: items => Prod.map (· :: items) id <$> act item
  | position + 1, item :: items => Prod.map (item :: ·) id <$> actAt act position items

/-- The step with the cache afterwards as a part of its outcome. -/
def handing (act : Act) (cache : MemberCache) (slot : Slot) : Slot × (Outcome × MemberCache) :=
  let ((slot, outcome), cache) := (act slot).run cache
  (slot, outcome, cache)

/-- Applies a step to the value of a key, which starts out as the given one when the key is new. -/
def upsert (kind : MapKind) (key : MapKey) (start : Slot) (act : Act)
    (entries : List (MapKey × Slot)) : StateM MemberCache (List (MapKey × Slot) × Outcome) :=
  fun cache =>
    let (entries, outcome, cache) := kind.upsert key start (handing act cache) entries
    ((entries, outcome), cache)

/-- Applies a step to the slot of a field, if it is there. -/
def update (field : Text) (act : Act) (fields : Fields) : StateM MemberCache (Fields × Outcome) :=
  fun cache =>
    let (fields, outcome, cache) := fields.update field (.skipped, cache) (handing act cache)
    ((fields, outcome), cache)

/-- Goes on in the item of a list or a map that an index addresses. Other slots have no items. -/
def item (schema : Schema) (site : Site) (value : Option Text) (index : Index) (act : Act) : Act
  | .list element items =>
    match readPosition? index.text with
    | none => pure (.list element items, site.fault value (.invalidPosition index.text))
    | some position =>
      match padded? (schema.initial element) items position with
      | none =>
        pure (.list element items, site.fault value (.positionOutOfRange position items.length))
      | some padded => Prod.map (.list element) id <$> actAt act position padded
  | .map typeName kind keyType element entries =>
    if kind = .gated index.text then pure (.map typeName kind keyType element entries, .skipped)
    else
      match keyType.read index with
      | .error cause => pure (.map typeName kind keyType element entries, site.fault value cause)
      | .ok key =>
        Prod.map (.map typeName kind keyType element) id <$>
          upsert kind key (schema.initial element) act entries
  | slot => pure (slot, .skipped)

/-- Goes on in the slot of a member, unless there is none or it ignores writes. -/
def intoMember (fields : Fields) (act : Member → Act) :
    Option Member → StateM MemberCache (Fields × Outcome)
  | none => pure (fields, .skipped)
  | some member =>
    if member.ignoreSet || !member.writable then pure (fields, .skipped)
    else update member.field (act member) fields

/-- Goes on in what an index on an object addresses: an item of its indexer, or else whatever the
given step finds in its member `Item`. -/
def fieldsItem (schema : Schema) (site : Site) (value : Option Text) (index : Index)
    (act within : Act) (typeName : Text) (fields : Fields) :
    StateM MemberCache (Fields × Outcome) :=
  let type := schema.find typeName
  match type.indexer with
  | some indexer =>
    if indexer.closed = some index.text then pure (fields, .skipped)
    else update indexer.field (item schema site value index act) fields
  | none => findMember type (Text.fold itemName) >>= intoMember fields fun _ => within

/-- Goes on in the fields of an object, or else in the slot itself. -/
def inFields (act : Text → Fields → StateM MemberCache (Fields × Outcome)) (other : Act) : Act
  | .object typeName fields => Prod.map (.object typeName) id <$> act typeName fields
  | .dynamic name typeName fields => Prod.map (.dynamic name typeName) id <$> act typeName fields
  | slot => other slot

/-- Goes on in what an index addresses, where `within` says how to find it in a member `Item`. -/
def indexedWith (schema : Schema) (site : Site) (value : Option Text) (index : Index)
    (act within : Act) : Act :=
  enter schema
    (inFields (fieldsItem schema site value index act within) (item schema site value index act))

/-- Goes on in what an index addresses in a slot, passing through the members `Item` of at most the
given number of objects. -/
def indexedWithin (schema : Schema) (site : Site) (value : Option Text) (index : Index)
    (act : Act) : Nat → Act
  | 0 => indexedWith schema site value index act fun slot => pure (slot, .failed .endless)
  | hops + 1 =>
    indexedWith schema site value index act (indexedWithin schema site value index act hops)

/-- Goes on in what an index addresses in a slot. -/
def indexed (schema : Schema) (site : Site) (value : Option Text) (index : Index) (act : Act) :
    Act :=
  fun slot => indexedWithin schema site value index act (schema.hopLimit slot) slot

/-- Goes on in the member of an object that a name addresses, unless there is none or it ignores
writes. -/
def fieldsMember (schema : Schema) (name : Text) (act : ObjectType → Member → Act)
    (typeName : Text) (fields : Fields) : StateM MemberCache (Fields × Outcome) :=
  let type := schema.find typeName
  findMember type (Text.fold name) >>= intoMember fields (act type)

/-- A slot after the value at the end of some steps. -/
def bind (schema : Schema) (converters : ConverterRegistry) (value : Option Text) :
    Site → List Step → Act
  | site, [] => fun slot => pure (slot.assignLeaf site converters value)
  | site, .index index :: rest =>
    indexed schema site value index (bind schema converters value site rest)
  | site, .member name :: rest =>
    enter schema
      (inFields
        (fieldsMember schema name fun type member =>
          bind schema converters value (site.into type member) rest)
        fun slot => pure (slot, .skipped))

/-- An object after the value of a pair at the end of some steps. -/
def bindObject (schema : Schema) (options : BindOptions) (pair : Pair) (steps : List Step)
    (target : Object) : StateM MemberCache (Object × Outcome) :=
  let site := Site.ofPair options pair (schema.find target.typeName).label
  match steps with
  | [] => pure (target, .skipped)
  | .member name :: rest =>
    Prod.map (Object.mk target.typeName) id <$>
      fieldsMember schema name
        (fun type member =>
          bind schema options.converters pair.value (site.into type member) rest)
        target.typeName target.fields
  | .index index :: rest =>
    let act := bind schema options.converters pair.value site rest
    Prod.map (Object.mk target.typeName) id <$>
      fieldsItem schema site pair.value index act (indexed schema site pair.value index act)
        target.typeName target.fields

/-- An object after the pairs under a key, and the fault that ended the run, if any. -/
def populate (schema : Schema) (options : BindOptions) (under : KeyPath) :
    List Pair → Object → StateM MemberCache (Object × Option BindFault)
  | [], target => pure (target, none)
  | pair :: rest, target =>
    match under.stripPrefix? pair.key with
    | none => populate schema options under rest target
    | some parts => do
      match ← bindObject schema options pair (stepsOf parts) target with
      | (target, .failed fault) => pure (target, some fault)
      | (target, _) => populate schema options under rest target

/-- An object after the pairs of a group. -/
def bindAll (schema : Schema) (options : BindOptions) :
    List Routed → Object → StateM MemberCache (Except BindFault Object)
  | [], target => pure (.ok target)
  | entry :: rest, target => do
    match ← bindObject schema options entry.pair entry.steps target with
    | (_, .failed fault) => pure (.error fault)
    | (target, _) => bindAll schema options rest target

/-- One object for each group, made from its label and populated with its pairs. -/
def populateGroups (schema : Schema) (options : BindOptions) (make : GroupKey → Object) :
    Grouping → StateM MemberCache Grouping.Result
  | [] => pure ⟨[], .ok []⟩
  | (key, routed) :: rest => do
    match ← bindAll schema options routed (make key) with
    | .error fault => pure ⟨[key], .error fault⟩
    | .ok target =>
      let result ← populateGroups schema options make rest
      pure ⟨key :: result.made, result.outcome.map ((key, target) :: ·)⟩

end KeyedText.Cached
