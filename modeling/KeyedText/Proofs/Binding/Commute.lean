import KeyedText.Proofs.Binding.Places

/-!
# Pairs that commute

Two keys part ways at an object, a list or a map, when the next step of one leads to another member,
position or key than that of the other. Up to there both make the same room, whichever comes first;
behind it they write to different slots. So the two pairs can be bound in either order: new items
fill up a list to the same length, and new entries take the same places in a map that is kept in the
order of its keys.

Keys of one place need not be written alike, as an instant can be told in two time zones. Which of
the two spellings a new entry is kept under depends on the pair that comes first, and nothing else
does.

## Main definitions

- `Slot.BothOrders` — what becomes of a slot when two keys are followed in either order
- `Slot.Parts` — two keys part ways somewhere in a slot
- `Slot.Alike` — slots that differ at most in how a key of a map is spelled

## Main statements

- `Slot.BothOrders.otherPositions`, `Slot.BothOrders.otherEntries`, `Slot.BothOrders.otherMembers` —
  two keys that part ways at once
- `Slot.Parts.alike` — two keys that part ways somewhere
- `Object.populate_comm` — populating with two pairs in either order
-/

namespace KeyedText

/-! ## Two keys in either order -/

namespace Slot

variable {schema : Schema} {converters : ConverterRegistry} {agree : MapKey → MapKey → Prop}
  {slot child both both' : Slot} {steps steps' left left' : List Step} {site site' : Site}
  {value value' : Option Text} {index index' : Index} {element : SlotType}

theorem childOrNew?_withContent (h : slot.childOrNew? schema .content = some child)
    (child' : Slot) :
    (slot.withContent child').childOrNew? schema .content = some child' := by
  rcases content_cases h with ⟨content, rfl, rfl⟩ | rfl | rfl
  · rfl
  · rfl
  · rfl

theorem withContent_withContent (slot child child' : Slot) :
    (slot.withContent child).withContent child' = slot.withContent child' := by
  cases slot <;> rfl

/-- What becomes of a slot when two keys are followed in it without a fault, in one order and in the
other. -/
def BothOrders (schema : Schema) (converters : ConverterRegistry) (value value' : Option Text)
    (site site' : Site) (steps steps' : List Step) (slot both both' : Slot) : Prop :=
  ∃ middle middle', Follows schema converters value site steps slot middle ∧
    Follows schema converters value' site' steps' middle both ∧
    Follows schema converters value' site' steps' slot middle' ∧
    Follows schema converters value site steps middle' both'

namespace BothOrders

/-! ### Contents -/

theorem content (hne : steps ≠ []) (hne' : steps' ≠ [])
    (hthere : slot.childOrNew? schema .content = some child)
    (h : BothOrders schema converters value value' site site' steps steps' slot both both') :
    ∃ last last', BothOrders schema converters value value' site site' steps steps' child last
      last' ∧ both = slot.withContent last ∧ both' = slot.withContent last' := by
  obtain ⟨middle, middle', hfirst, hsecond, hfirst', hsecond'⟩ := h
  obtain ⟨child₁, hinto, rfl⟩ := hfirst.content hne hthere
  obtain ⟨child₂, hinto', rfl⟩ := hfirst'.content hne' hthere
  obtain ⟨last, hthen, rfl⟩ := hsecond.content hne' (childOrNew?_withContent hthere child₁)
  obtain ⟨last', hthen', rfl⟩ := hsecond'.content hne (childOrNew?_withContent hthere child₂)
  rw [withContent_withContent, withContent_withContent]
  exact ⟨last, last', ⟨child₁, child₂, hinto, hthen, hinto', hthen'⟩, rfl, rfl⟩

/-! ### Lists -/

section

variable {items : List Slot} {n n' : Nat}

theorem position (hreads : readPosition? index.text = some n)
    (hreads' : readPosition? index'.text = some n)
    (h : BothOrders schema converters value value' site site' (.index index :: steps)
      (.index index' :: steps') (.list element items) both both') :
    ∃ (padded : List Slot) (last last' : Slot),
      BothOrders schema converters value value' site site' steps steps'
        ((items[n]?).getD (schema.initial element)) last last' ∧
        both = .list element (padded.set n last) ∧ both' = .list element (padded.set n last') := by
  obtain ⟨middle, middle', hfirst, hsecond, hfirst', hsecond'⟩ := h
  obtain ⟨padded, child₁, hroom, hinto, rfl⟩ := hfirst.position hreads
  obtain ⟨padded', child₂, hroom', hinto', rfl⟩ := hfirst'.position hreads'
  obtain rfl : padded = padded' := Option.some.inj (hroom.symm.trans hroom')
  obtain ⟨again, last, hagain, hthen, rfl⟩ := hsecond.position hreads'
  obtain ⟨again', last', hagain', hthen', rfl⟩ := hsecond'.position hreads
  -- the second key finds the room, and what the first left there
  rw [getD_set_padded? hroom, if_pos rfl] at hthen hthen'
  rw [padded?_set hroom] at hagain hagain'
  obtain rfl := Option.some.inj hagain
  obtain rfl := Option.some.inj hagain'
  rw [List.set_set, List.set_set]
  exact ⟨padded, last, last', ⟨child₁, child₂, hinto, hthen, hinto', hthen'⟩, rfl, rfl⟩

theorem otherPositions (hreads : readPosition? index.text = some n)
    (hreads' : readPosition? index'.text = some n') (hother : n ≠ n')
    (h : BothOrders schema converters value value' site site' (.index index :: steps)
      (.index index' :: steps') (.list element items) both both') : both = both' := by
  obtain ⟨middle, middle', hfirst, hsecond, hfirst', hsecond'⟩ := h
  obtain ⟨padded, child₁, hroom, hinto, rfl⟩ := hfirst.position hreads
  obtain ⟨padded', child₂, hroom', hinto', rfl⟩ := hfirst'.position hreads'
  obtain ⟨again, last, hagain, hthen, rfl⟩ := hsecond.position hreads'
  obtain ⟨again', last', hagain', hthen', rfl⟩ := hsecond'.position hreads
  -- each key finds what it would find without the other
  rw [getD_set_padded? hroom, if_neg (Ne.symm hother)] at hthen
  rw [getD_set_padded? hroom', if_neg hother] at hthen'
  obtain rfl := hinto.unique hthen'
  obtain rfl := hinto'.unique hthen
  rw [set_padded?_comm hother hroom hagain hroom' hagain']

end

/-! ### Maps -/

section

variable {typeName : Text} {kind : MapKind} {keyType : KeyType} {entries : List (MapKey × Slot)}
  {key key' : MapKey}

theorem entry (hopen : kind ≠ .gated index.text) (hopen' : kind ≠ .gated index'.text)
    (hreads : keyType.read index = .ok key) (hreads' : keyType.read index' = .ok key')
    (hsame : key.same key' = true)
    (h : BothOrders schema converters value value' site site' (.index index :: steps)
      (.index index' :: steps') (.map typeName kind keyType element entries) both both') :
    ∃ last last', BothOrders schema converters value value' site site' steps steps'
      ((MapKind.get? key entries).getD (schema.initial element)) last last' ∧
        both = .map typeName kind keyType element (kind.put key last entries) ∧
        both' = .map typeName kind keyType element (kind.put key' last' entries) := by
  obtain ⟨middle, middle', hfirst, hsecond, hfirst', hsecond'⟩ := h
  have hsame' : key'.same key = true := by rwa [MapKey.same_comm]
  obtain ⟨child₁, hinto, rfl⟩ := hfirst.key hopen hreads
  obtain ⟨child₂, hinto', rfl⟩ := hfirst'.key hopen' hreads'
  obtain ⟨last, hthen, rfl⟩ := hsecond.key hopen' hreads'
  obtain ⟨last', hthen', rfl⟩ := hsecond'.key hopen hreads
  -- the second key finds what the first left, under the spelling of the first
  rw [MapKind.get?_of_same hsame'] at hinto'
  rw [MapKind.get?_put_eq, if_pos hsame', Option.getD_some] at hthen
  rw [MapKind.get?_put_eq, if_pos hsame, Option.getD_some] at hthen'
  rw [MapKind.put_put kind hsame, MapKind.put_put kind hsame']
  exact ⟨last, last', ⟨child₁, child₂, hinto, hthen, hinto', hthen'⟩, rfl, rfl⟩

theorem otherEntries (hranked : kind.isRanked = true) (hreads : keyType.read index = .ok key)
    (hreads' : keyType.read index' = .ok key') (hother : key.same key' = false)
    (h : BothOrders schema converters value value' site site' (.index index :: steps)
      (.index index' :: steps') (.map typeName kind keyType element entries) both both') :
    both = both' := by
  obtain ⟨middle, middle', hfirst, hsecond, hfirst', hsecond'⟩ := h
  have hopen : ∀ closed, kind ≠ .gated closed := by
    rintro closed rfl
    exact absurd hranked (by simp [MapKind.isRanked])
  have hother' : key'.same key = false := by rwa [MapKey.same_comm]
  obtain ⟨child₁, hinto, rfl⟩ := hfirst.key (hopen _) hreads
  obtain ⟨child₂, hinto', rfl⟩ := hfirst'.key (hopen _) hreads'
  obtain ⟨last, hthen, rfl⟩ := hsecond.key (hopen _) hreads'
  obtain ⟨last', hthen', rfl⟩ := hsecond'.key (hopen _) hreads
  -- each key finds what it would find without the other
  rw [(MapKind.get?_put kind key child₁ entries).2 key' hother'] at hthen
  rw [(MapKind.get?_put kind key' child₂ entries).2 key hother] at hthen'
  obtain rfl := hinto.unique hthen'
  obtain rfl := hinto'.unique hthen
  rw [MapKind.put_comm hranked hother]

end

/-! ### Objects -/

section

variable {typeName : Text} {fields : Fields} {member member' : Member}

theorem field (hleads : Addresses schema typeName steps member left)
    (hleads' : Addresses schema typeName steps' member left')
    (hbinds : (member.ignoreSet || !member.writable) = false)
    (hthere : Entries.get? member.field fields = some child)
    (h : BothOrders schema converters value value' site site' steps steps'
      (.object typeName fields) both both') :
    ∃ last last', BothOrders schema converters value value'
      (site.along (schema.find typeName) member steps)
      (site'.along (schema.find typeName) member steps') left left' child last last' ∧
        both = .object typeName (Fields.put member.field last fields) ∧
        both' = .object typeName (Fields.put member.field last' fields) := by
  obtain ⟨middle, middle', hfirst, hsecond, hfirst', hsecond'⟩ := h
  have hbinds : ¬(member.ignoreSet || !member.writable) = true := by simp [hbinds]
  obtain ⟨_, rfl, hstepped⟩ := hfirst.fields hleads
  obtain ⟨_, rfl, hstepped'⟩ := hfirst'.fields hleads'
  obtain ⟨child₁, hinto, rfl⟩ := hstepped.exists_taken hthere
  obtain ⟨child₂, hinto', rfl⟩ := hstepped'.exists_taken hthere
  obtain ⟨_, rfl, hagain⟩ := hsecond.fields hleads'
  obtain ⟨_, rfl, hagain'⟩ := hsecond'.fields hleads
  obtain ⟨last, hthen, rfl⟩ := hagain.exists_taken (Fields.get?_put_self hthere)
  obtain ⟨last', hthen', rfl⟩ := hagain'.exists_taken (Fields.get?_put_self hthere)
  rw [StepsInto, if_neg hbinds] at hinto hinto' hthen hthen'
  rw [Fields.put_put, Fields.put_put]
  exact ⟨last, last', ⟨child₁, child₂, hinto, hthen, hinto', hthen'⟩, rfl, rfl⟩

theorem otherMembers (hleads : Addresses schema typeName steps member left)
    (hleads' : Addresses schema typeName steps' member' left')
    (hother : member.field ≠ member'.field)
    (h : BothOrders schema converters value value' site site' steps steps'
      (.object typeName fields) both both') : both = both' := by
  obtain ⟨middle, middle', hfirst, hsecond, hfirst', hsecond'⟩ := h
  obtain ⟨_, rfl, hstepped⟩ := hfirst.fields hleads
  obtain ⟨_, rfl, hstepped'⟩ := hfirst'.fields hleads'
  obtain ⟨_, rfl, hagain⟩ := hsecond.fields hleads'
  obtain ⟨_, rfl, hagain'⟩ := hsecond'.fields hleads
  rw [hstepped.comm hother hagain hstepped' hagain' (fun _ _ _ => StepsInto.unique)
    (fun _ _ _ => StepsInto.unique)]

end

end BothOrders

/-! ## Keys that part ways -/

/-- Two keys part ways in a slot: at members of an object with different fields, at different
positions of a list, or at different keys of a map that is kept in the order of its keys. Up to
there they lead the same way, through contents, members and positions that are the same, and keys of
maps that agree. -/
inductive Parts (schema : Schema) (agree : MapKey → MapKey → Prop) :
    Slot → List Step → List Step → Prop
  | content {slot child : Slot} {steps steps' : List Step}
      (there : slot.childOrNew? schema .content = some child)
      (rest : Parts schema agree child steps steps') : Parts schema agree slot steps steps'
  | position {element : SlotType} {items : List Slot} {index index' : Index} {n : Nat}
      {steps steps' : List Step} (reads : readPosition? index.text = some n)
      (reads' : readPosition? index'.text = some n)
      (rest : Parts schema agree ((items[n]?).getD (schema.initial element)) steps steps') :
      Parts schema agree (.list element items) (.index index :: steps) (.index index' :: steps')
  | positions {element : SlotType} {items : List Slot} {index index' : Index} {n n' : Nat}
      {steps steps' : List Step} (reads : readPosition? index.text = some n)
      (reads' : readPosition? index'.text = some n') (other : n ≠ n') :
      Parts schema agree (.list element items) (.index index :: steps) (.index index' :: steps')
  | key {typeName : Text} {kind : MapKind} {keyType : KeyType} {element : SlotType}
      {entries : List (MapKey × Slot)} {index index' : Index} {key key' : MapKey}
      {steps steps' : List Step} (isOpen : kind ≠ .gated index.text)
      (isOpen' : kind ≠ .gated index'.text) (reads : keyType.read index = .ok key)
      (reads' : keyType.read index' = .ok key') (agrees : agree key key')
      (rest : Parts schema agree ((MapKind.get? key entries).getD (schema.initial element)) steps
        steps') :
      Parts schema agree (.map typeName kind keyType element entries) (.index index :: steps)
        (.index index' :: steps')
  | keys {typeName : Text} {kind : MapKind} {keyType : KeyType} {element : SlotType}
      {entries : List (MapKey × Slot)} {index index' : Index} {key key' : MapKey}
      {steps steps' : List Step} (ranked : kind.isRanked = true)
      (reads : keyType.read index = .ok key) (reads' : keyType.read index' = .ok key')
      (other : key.same key' = false) :
      Parts schema agree (.map typeName kind keyType element entries) (.index index :: steps)
        (.index index' :: steps')
  | field {typeName : Text} {fields : Fields} {member : Member}
      {steps steps' left left' : List Step} {child : Slot}
      (leads : Addresses schema typeName steps member left)
      (leads' : Addresses schema typeName steps' member left')
      (binds : (member.ignoreSet || !member.writable) = false)
      (there : Entries.get? member.field fields = some child)
      (rest : Parts schema agree child left left') :
      Parts schema agree (.object typeName fields) steps steps'
  | members {typeName : Text} {fields : Fields} {member member' : Member}
      {steps steps' left left' : List Step} (leads : Addresses schema typeName steps member left)
      (leads' : Addresses schema typeName steps' member' left')
      (other : member.field ≠ member'.field) :
      Parts schema agree (.object typeName fields) steps steps'

/-- Slots that are the same, but for the keys of maps on the way to some place, which agree. -/
inductive Alike (agree : MapKey → MapKey → Prop) : Slot → Slot → Prop
  | same (slot : Slot) : Alike agree slot slot
  | content {child child' : Slot} (slot : Slot) (alike : Alike agree child child') :
      Alike agree (slot.withContent child) (slot.withContent child')
  | position {child child' : Slot} (element : SlotType) (items : List Slot) (n : Nat)
      (alike : Alike agree child child') :
      Alike agree (.list element (items.set n child)) (.list element (items.set n child'))
  | key {key key' : MapKey} {child child' : Slot} (typeName : Text) (kind : MapKind)
      (keyType : KeyType) (element : SlotType) (entries : List (MapKey × Slot))
      (agrees : agree key key') (alike : Alike agree child child') :
      Alike agree (.map typeName kind keyType element (kind.put key child entries))
        (.map typeName kind keyType element (kind.put key' child' entries))
  | field {child child' : Slot} (typeName field : Text) (fields : Fields)
      (alike : Alike agree child child') :
      Alike agree (.object typeName (Fields.put field child fields))
        (.object typeName (Fields.put field child' fields))

/-- If keys agree only when they are spelled alike, nothing else can differ. -/
theorem Alike.eq (h : Alike Eq both both') : both = both' := by
  induction h with
  | same => rfl
  | content _ _ ih | position _ _ _ _ ih | field _ _ _ _ ih => rw [ih]
  | key _ _ _ _ _ agrees _ ih => rw [agrees, ih]

theorem Addresses.ne_nil {typeName : Text} {member : Member}
    (h : Addresses schema typeName steps member left) : steps ≠ [] := by
  cases h <;> simp

namespace Parts

/-- Neither key ends before they part. -/
theorem ne_nil (h : Parts schema agree slot steps steps') : steps ≠ [] ∧ steps' ≠ [] := by
  induction h with
  | content _ _ ih => exact ih
  | field leads leads' | members leads leads' => exact ⟨leads.ne_nil, leads'.ne_nil⟩
  | _ => simp

/-- Two keys that part ways in a slot are followed in either order. By induction on the way that
they have in common. -/
theorem alike (hsame : ∀ key key', agree key key' → key.same key' = true)
    (hparts : Parts schema agree slot steps steps')
    (h : BothOrders schema converters value value' site site' steps steps' slot both both') :
    Alike agree both both' := by
  induction hparts generalizing site site' both both' with
  | @content slot child steps steps' there rest ih =>
    obtain ⟨last, last', hrest, rfl, rfl⟩ := h.content rest.ne_nil.1 rest.ne_nil.2 there
    exact .content slot (ih hrest)
  | @position element items index index' n steps steps' reads reads' rest ih =>
    obtain ⟨padded, last, last', hrest, rfl, rfl⟩ := h.position reads reads'
    exact .position element padded n (ih hrest)
  | positions reads reads' other =>
    rw [h.otherPositions reads reads' other]
    exact .same _
  | @key typeName kind keyType element entries _ _ key key' _ _ isOpen isOpen' reads reads' agrees
      rest ih =>
    obtain ⟨last, last', hrest, rfl, rfl⟩ := h.entry isOpen isOpen' reads reads' (hsame _ _ agrees)
    exact .key typeName kind keyType element entries agrees (ih hrest)
  | keys ranked reads reads' other =>
    rw [h.otherEntries ranked reads reads' other]
    exact .same _
  | @field typeName fields member steps steps' left left' child leads leads' binds there rest ih =>
    obtain ⟨last, last', hrest, rfl, rfl⟩ := h.field leads leads' binds there
    exact .field typeName member.field fields (ih hrest)
  | members leads leads' other =>
    rw [h.otherMembers leads leads' other]
    exact .same _

end Parts

end Slot

/-! ## Pairs -/

namespace Object

variable {schema : Schema} {options : BindOptions} {under : KeyPath} {first second pair : Pair}
  {rest : List Pair} {target after after' : Object} {parts parts' : List KeyPart}

/-- A run that does not fail follows its first key, and goes on. -/
theorem follows_of_populate (hparts : under.stripPrefix? pair.key = some parts)
    (hne : stepsOf parts ≠ [])
    (h : target.populate schema options under (pair :: rest) = (after, none)) :
    ∃ next : Object, next.typeName = target.typeName ∧
      Slot.Follows schema options.converters pair.value
        (Site.ofPair options pair (schema.find target.typeName).label) (stepsOf parts)
        target.toSlot next.toSlot ∧
      next.populate schema options under rest = (after, none) := by
  have hname := typeName_bind schema options pair (stepsOf parts) target
  rw [populate, hparts] at h
  dsimp only at h
  rcases hbind : target.bind schema options pair (stepsOf parts) with ⟨next, outcome⟩
  rw [hbind] at h hname
  cases outcome with
  | failed fault => exact absurd (congrArg Prod.snd h) (by simp)
  | assigned | skipped => exact ⟨next, hname, follows_bind hne hbind (by simp), h⟩

/-- Two pairs whose keys part ways are followed in either order. -/
theorem alike_populate {agree : MapKey → MapKey → Prop}
    (hsame : ∀ key key', agree key key' → key.same key' = true)
    (hparts : Slot.Parts schema agree target.toSlot (stepsOf parts) (stepsOf parts'))
    (hfirst : under.stripPrefix? first.key = some parts)
    (hsecond : under.stripPrefix? second.key = some parts')
    (h : target.populate schema options under [first, second] = (after, none))
    (h' : target.populate schema options under [second, first] = (after', none)) :
    Slot.Alike agree after.toSlot after'.toSlot := by
  obtain ⟨hne, hne'⟩ := hparts.ne_nil
  obtain ⟨middle, hname, hmiddle, h⟩ := follows_of_populate hfirst hne h
  obtain ⟨both, -, hboth, h⟩ := follows_of_populate hsecond hne' h
  obtain ⟨middle', hname', hmiddle', h'⟩ := follows_of_populate hsecond hne' h'
  obtain ⟨both', -, hboth', h'⟩ := follows_of_populate hfirst hne h'
  obtain rfl : both = after := congrArg Prod.fst h
  obtain rfl : both' = after' := congrArg Prod.fst h'
  rw [hname] at hboth
  rw [hname'] at hboth'
  exact hparts.alike hsame ⟨_, _, hmiddle, hboth, hmiddle', hboth'⟩

/-- **Writes that have nothing to do with one another commute.** When two pairs can be bound in
either order, and their keys part ways in the target, both orders end with the same object, and
whatever pairs follow, they go on the same way. If keys of maps on the common way are the same but
spelled differently, the objects can differ in which of the spellings was kept, and in nothing
else. -/
theorem populate_comm (hfirst : under.stripPrefix? first.key = some parts)
    (hsecond : under.stripPrefix? second.key = some parts')
    (h : target.populate schema options under [first, second] = (after, none))
    (h' : target.populate schema options under [second, first] = (after', none)) :
    (Slot.Parts schema (· = ·) target.toSlot (stepsOf parts) (stepsOf parts') →
      after = after' ∧ ∀ later, target.populate schema options under (first :: second :: later) =
        target.populate schema options under (second :: first :: later)) ∧
      (Slot.Parts schema (fun key key' => key.same key' = true) target.toSlot (stepsOf parts)
          (stepsOf parts') →
        Slot.Alike (fun key key' => key.same key' = true) after.toSlot after'.toSlot) := by
  constructor
  · intro hparts
    have hsame : ∀ key key' : MapKey, key = key' → key.same key' = true := by
      rintro key _ rfl
      exact MapKey.same_iff.2 rfl
    obtain rfl : after = after' :=
      toSlot_injective (alike_populate hsame hparts hfirst hsecond h h').eq
    refine ⟨rfl, fun later => ?_⟩
    exact (populate_append h later).trans (populate_append h' later).symm
  · intro hparts
    exact alike_populate (fun _ _ hkeys => hkeys) hparts hfirst hsecond h h'

end Object

/-- Two new cars, the farther one first or last: the list is filled up to the same length. -/
theorem garage_populate_comm :
    let first := Pair.ofText "cars[2].name" (some "Otto".toList)
    let second := Pair.ofText "cars[1].doors" (some "4".toList)
    let run := garage.populate garageSchema {} (KeyPath.ofText []) [first, second]
    let run' := garage.populate garageSchema {} (KeyPath.ofText []) [second, first]
    run.2 = none ∧ run'.2 = none ∧
      Slot.Parts garageSchema (· = ·) garage.toSlot (stepsOf first.key.parts)
        (stepsOf second.key.parts) ∧ run.1 = run'.1 := by
  intro first second run run'
  have hok : run.2 = none := by decide
  have hok' : run'.2 = none := by decide
  have hrun : run = (run.1, none) := by rw [← hok]
  have hrun' : run' = (run'.1, none) := by rw [← hok']
  have hcars : (garageSchema.find "Garage").findMember (Text.fold "cars") =
      some { name := "Cars", field := "cars" } := rfl
  have hparts : Slot.Parts garageSchema (· = ·) garage.toSlot (stepsOf first.key.parts)
      (stepsOf second.key.parts) :=
    .field (.member hcars) (.member hcars) rfl rfl
      (.positions rfl rfl (by decide))
  exact ⟨hok, hok', hparts, ((Object.populate_comm rfl rfl hrun hrun').1 hparts).1⟩

/-- A diary has pages by the times at which they were begun. -/
def diarySchema : Schema where
  types :=
    [{ typeName := "Diary", label := "Diary"
       members := [{ name := "Pages", field := "pages" }]
       initial := [("pages", .map "Pages" .sorted (.single .stamp) (.object "Page") [])] },
     { typeName := "Page", label := "Page"
       members := [{ name := "Title", field := "title" }, { name := "Mood", field := "mood" }]
       initial :=
         [("title", .scalar (.text .plain [])), ("mood", .scalar (.text .plain []))] }]

/-- Two time zones tell one page in two ways, and the page keeps the one that comes first. -/
example :
    let title := Pair.ofText "pages[2020-01-01T00:30:00Z].title" (some "Snow".toList)
    let mood := Pair.ofText "pages[2020-01-01T02:30:00+02:00].mood" (some "calm".toList)
    let written := fun pairs => (((diarySchema.newObject "Diary").populate diarySchema {}
      (KeyPath.ofText []) pairs).1.encode diarySchema {}).toOption
    written [title, mood] = some ("Pages[2020-01-01T00:30:00+00:00].Title = Snow\n" ++
        "Pages[2020-01-01T00:30:00+00:00].Mood = calm\n").toList ∧
      written [mood, title] = some ("Pages[2020-01-01T02:30:00+02:00].Title = Snow\n" ++
        "Pages[2020-01-01T02:30:00+02:00].Mood = calm\n").toList := by
  intro title mood written
  exact ⟨by decide +kernel, by decide +kernel⟩

end KeyedText
