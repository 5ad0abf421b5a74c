import KeyedText.Proofs.Encoding.Arranged

/-!
# What the text of an object tells

The text of an object tells nothing about the fields that none of its members shows. Left out of the
object, and of all objects in its lists, maps, optional values and dynamic objects, such fields
leave the text as it is, and the fault as well when there is one. So objects that are equal without
these fields are written alike, whatever the fields hold: they may be as deep as they like, and need
not be such that they could be written.

## Main definitions

- `ObjectType.shows` — the fields of an object that are written
- `Slot.redact`, `Object.redact` — a slot and an object without the other fields, at every depth

## Main statements

- `Slot.writtenAs_redact` — a slot is written as what is left of it
- `Object.encode_eq_of_redact` — objects that differ only in fields that are not shown
-/

namespace KeyedText

/-- Whether a field of an object is written: some member shows it, or a listed indexer keeps its
entries there. -/
def ObjectType.shows (type : ObjectType) (field : Text) : Bool :=
  type.members.any (fun member => member.field == field && !member.ignoreGet && member.readable) ||
    type.indexer.any fun indexer => indexer.listed && indexer.field == field

mutual

/-- The slot without the fields that are not shown, at every depth. -/
def Slot.redact (schema : Schema) : Slot → Slot
  | .scalar value => .scalar value
  | .vacant content => .vacant content
  | .filled content => .filled (content.redact schema)
  | .boxed content => .boxed (content.redact schema)
  | .list element items => .list element (redactItems schema items)
  | .map typeName kind key element entries =>
    .map typeName kind key element (redactEntries schema entries)
  | .object typeName fields =>
    .object typeName (redactFields schema (schema.find typeName) fields)
  | .reference name => .reference name
  | .unset => .unset
  | .dynamic name typeName fields =>
    .dynamic name typeName (redactFields schema (schema.find typeName) fields)

/-- The items of a list without the fields that are not shown. -/
def redactItems (schema : Schema) : List Slot → List Slot
  | [] => []
  | slot :: rest => slot.redact schema :: redactItems schema rest

/-- The entries of a map without the fields that are not shown. -/
def redactEntries (schema : Schema) : List (MapKey × Slot) → List (MapKey × Slot)
  | [] => []
  | (key, slot) :: rest => (key, slot.redact schema) :: redactEntries schema rest

/-- The fields of an object of some type that are shown, each without those in it that are not. -/
def redactFields (schema : Schema) (type : ObjectType) : List (Text × Slot) → List (Text × Slot)
  | [] => []
  | (field, slot) :: rest =>
    if type.shows field then (field, slot.redact schema) :: redactFields schema type rest
    else redactFields schema type rest

end

/-- The object without the fields that are not shown, at every depth. -/
def Object.redact (schema : Schema) (object : Object) : Object :=
  ⟨object.typeName, redactFields schema (schema.find object.typeName) object.fields⟩

/-! ## Parts of what is left -/

section

variable (schema : Schema)

theorem redactItems_eq (items : List Slot) :
    redactItems schema items = items.map (Slot.redact schema) := by
  induction items with
  | nil => rfl
  | cons item items ih => rw [redactItems, ih, List.map_cons]

theorem redactEntries_eq (entries : List (MapKey × Slot)) :
    redactEntries schema entries = entries.map fun entry => (entry.1, entry.2.redact schema) := by
  induction entries with
  | nil => rfl
  | cons entry entries ih => rw [redactEntries, ih, List.map_cons]

theorem redactFields_eq (type : ObjectType) (fields : Fields) :
    redactFields schema type fields = (fields.filter fun entry => type.shows entry.1).map
      fun entry => (entry.1, entry.2.redact schema) := by
  induction fields with
  | nil => rfl
  | cons entry fields ih =>
    by_cases hshown : type.shows entry.1 = true
    · rw [redactFields, if_pos hshown, List.filter_cons, if_pos hshown, ih, List.map_cons]
    · rw [redactFields, if_neg hshown, List.filter_cons, if_neg hshown, ih]

end

/-! ## Written as what is left -/

variable {schema : Schema} {options : EncodeOptions} {fields : Fields}

/-- A member that is written shows its field. -/
theorem ObjectType.shows_member {type : ObjectType} {member : Member}
    (hmember : member ∈ type.members) (h : (member.ignoreGet || !member.readable) = false) :
    type.shows member.field = true := by
  rw [ObjectType.shows, Bool.or_eq_true, List.any_eq_true]
  exact .inl ⟨member, hmember, by simpa using h⟩

/-- An indexer that lists its entries shows its field. -/
theorem ObjectType.shows_indexer {type : ObjectType} {held : Text} {closed : Option Text}
    (h : type.indexer = some ⟨held, closed, true⟩) : type.shows held = true := by
  simp [ObjectType.shows, h]

theorem encodersOfItems_redact {items : List Slot}
    (h : ∀ item ∈ items, (item.redact schema).WrittenAs schema options item) :
    encodersOfItems schema options (redactItems schema items) =
      encodersOfItems schema options items := by
  rw [redactItems_eq, encodersOfItems_eq, encodersOfItems_eq, List.map_map]
  exact List.map_congr_left fun item hitem => (h item hitem).encode_eq

theorem encodersOfEntries_redact {entries : List (MapKey × Slot)}
    (h : ∀ entry ∈ entries, (entry.2.redact schema).WrittenAs schema options entry.2) :
    encodersOfEntries schema options (redactEntries schema entries) =
      encodersOfEntries schema options entries := by
  rw [redactEntries_eq, encodersOfEntries_eq, encodersOfEntries_eq, List.map_map]
  exact List.map_congr_left fun entry hentry =>
    congrArg (Prod.mk entry.1) (h entry hentry).encode_eq

/-- What is left of a field that is shown is written as the field. -/
theorem get?_redactFields {β : Type} {type : ObjectType} {field : Text}
    (hshown : type.shows field = true) (view : Slot → β)
    (h : ∀ entry ∈ fields, view (entry.2.redact schema) = view entry.2) :
    (Entries.get? field (redactFields schema type fields)).map view =
      (Entries.get? field fields).map view := by
  rw [redactFields_eq, Entries.get?_map (Slot.redact schema), Entries.get?_filter hshown,
    Entries.get?, Option.map_map, Option.map_map, Option.map_map]
  exact Option.map_congr fun entry hentry => h entry (List.mem_of_find?_eq_some hentry)

theorem encodersOfIndexer_redact (type : ObjectType)
    (h : ∀ entry ∈ fields, (entry.2.redact schema).WrittenAs schema options entry.2) :
    encodersOfIndexer schema options type.indexer (redactFields schema type fields) =
      encodersOfIndexer schema options type.indexer fields := by
  by_cases hlisted : ∃ held closed, type.indexer = some ⟨held, closed, true⟩
  · obtain ⟨held, closed, hindexer⟩ := hlisted
    rw [hindexer, encodersOfIndexer_eq, encodersOfIndexer_eq,
      get?_redactFields (type.shows_indexer hindexer) _
        fun entry hentry => (h entry hentry).entries_eq]
  · have hnone : ∀ held closed, type.indexer ≠ some ⟨held, closed, true⟩ :=
      fun held closed hindexer => hlisted ⟨held, closed, hindexer⟩
    rw [encodersOfIndexer_eq_nil hnone, encodersOfIndexer_eq_nil hnone]

theorem encodeMember_redact {type : ObjectType} {member : Member} (hmember : member ∈ type.members)
    (key : Text) (h : ∀ entry ∈ fields, (entry.2.redact schema).WrittenAs schema options entry.2) :
    encodeMember (encodersOfFields schema options (redactFields schema type fields)) key member =
      encodeMember (encodersOfFields schema options fields) key member := by
  rw [encodeMember, encodeMember]
  split
  next => rfl
  next hread =>
    have hshown := type.shows_member hmember (Bool.eq_false_iff.2 hread)
    rw [encodersOfFields_eq, encodersOfFields_eq, Entries.get?_map (Slot.encode schema options),
      Entries.get?_map (Slot.encode schema options),
      get?_redactFields hshown _ fun entry hentry => (h entry hentry).encode_eq]

/-- An object is written from the fields that its members and its indexer show. -/
theorem encodeObject_redact (type : ObjectType)
    (h : ∀ entry ∈ fields, (entry.2.redact schema).WrittenAs schema options entry.2) :
    encodeObject type (encodersOfFields schema options (redactFields schema type fields))
        (encodersOfIndexer schema options type.indexer (redactFields schema type fields)) =
      encodeObject type (encodersOfFields schema options fields)
        (encodersOfIndexer schema options type.indexer fields) := by
  funext key
  rw [encodeObject, encodeObject, encodersOfIndexer_redact type h,
    concatTexts_congr fun member hmember => encodeMember_redact hmember key h]

/-- A slot is written as what is left of it without the fields that are not shown. -/
theorem Slot.writtenAs_redact (slot : Slot) :
    (slot.redact schema).WrittenAs schema options slot := by
  induction slot using Slot.induction with
  | scalar | vacant | reference | unset => exact ⟨rfl, rfl⟩
  | filled content ih => exact ⟨ih.encode_eq, rfl⟩
  | boxed content ih => exact ⟨ih.encode_eq, rfl⟩
  | list element items ih =>
    refine ⟨?_, rfl⟩
    rw [Slot.redact, Slot.encode, Slot.encode, encodersOfItems_redact ih, redactItems_eq,
      List.isEmpty_map]
  | map typeName kind key element entries ih =>
    constructor
    · rw [Slot.redact, Slot.encode, Slot.encode, encodersOfEntries_redact ih]
    · rw [Slot.redact, entryEncoders, entryEncoders, encodersOfEntries_redact ih]
  | object typeName fields ih =>
    refine ⟨?_, rfl⟩
    simp only [Slot.redact, Slot.encode, encodeObject_redact _ ih]
  | dynamic name typeName fields ih =>
    refine ⟨?_, rfl⟩
    simp only [Slot.redact, Slot.encode, encodeObject_redact _ ih]

/-! ## Hashed maps in what is left -/

theorem arrangeItems_redact {items : List Slot}
    (h : ∀ item ∈ items, ∀ order, (item.redact schema).arrange order =
      (item.arrange order).redact schema) (order : HashOrder) (position : Nat) :
    arrangeItems order position (redactItems schema items) =
      redactItems schema (arrangeItems order position items) := by
  induction items generalizing position with
  | nil => rfl
  | cons item items ih =>
    rw [List.forall_mem_cons] at h
    rw [redactItems, arrangeItems, arrangeItems, redactItems, h.1, ih h.2]

theorem arrangeFields_redact (type : ObjectType)
    (h : ∀ entry ∈ fields, ∀ order, (entry.2.redact schema).arrange order =
      (entry.2.arrange order).redact schema) (order : HashOrder) :
    arrangeFields order (redactFields schema type fields) =
      redactFields schema type (arrangeFields order fields) := by
  rw [arrangeFields_eq, redactFields_eq, redactFields_eq, arrangeFields_eq, List.map_map,
    List.filter_map, List.map_map]
  exact List.map_congr_left fun entry hentry =>
    congrArg (Prod.mk entry.1) (h entry (List.mem_filter.1 hentry).1 _)

/-- The hashed maps that are left hand out their entries as they did before. -/
theorem Slot.arrange_redact (order : HashOrder) (slot : Slot) :
    (slot.redact schema).arrange order = (slot.arrange order).redact schema := by
  induction slot using Slot.induction generalizing order with
  | scalar | vacant | reference | unset => rfl
  | filled content ih => exact congrArg Slot.filled (ih _)
  | boxed content ih => exact congrArg Slot.boxed (ih _)
  | list element items ih => exact congrArg (Slot.list element) (arrangeItems_redact ih order 0)
  | map typeName kind key element entries ih =>
    have hentries : arrangeEntries order (redactEntries schema entries) =
        redactEntries schema (arrangeEntries order entries) := by
      rw [arrangeEntries_eq, redactEntries_eq, redactEntries_eq, arrangeEntries_eq, List.map_map,
        List.map_map]
      exact List.map_congr_left fun entry hentry =>
        congrArg (Prod.mk entry.1) (ih entry hentry _)
    rw [redact, arrange, arrange, redact, hentries, redactEntries_eq, redactEntries_eq,
      MapKind.handOut_map kind _ fun _ => Slot.redact schema]
  | object typeName fields ih => exact congrArg (Slot.object typeName) (arrangeFields_redact _ ih _)
  | dynamic name typeName fields ih =>
    exact congrArg (Slot.dynamic name typeName) (arrangeFields_redact _ ih _)

theorem Object.redact_toSlot (object : Object) :
    (object.redact schema).toSlot = object.toSlot.redact schema := rfl

theorem Object.encode_redact (options : EncodeOptions) (object : Object) (order : HashOrder) :
    (object.redact schema).encode schema options order = object.encode schema options order := by
  have hwritten : ((object.redact schema).toSlot.arrange order).WrittenAs schema options
      (object.toSlot.arrange order) := by
    rw [Object.redact_toSlot, Slot.arrange_redact]
    exact (object.toSlot.arrange order).writtenAs_redact
  exact congrFun hwritten.encode_eq []

/-- **The text of an object tells only what its members show.** Objects that are equal without the
fields that are not shown, here and in all objects that they hold in lists, maps, optional values
and dynamic objects, are written to the same text, or refused with the same fault. Where no two keys
of a hashed map have one text that is shown, it does not matter either in which order such maps hand
out their entries. Otherwise the text may tell the order. -/
theorem Object.encode_eq_of_redact (schema : Schema) {first second : Object}
    (h : first.redact schema = second.redact schema) (options : EncodeOptions) :
    (∀ order, first.encode schema options order = second.encode schema options order) ∧
      ((first.redact schema).toSlot.KeysApart → ∀ order order',
        first.encode schema options order = second.encode schema options order') := by
  refine ⟨fun order => ?_, fun hkeys order order' => ?_⟩
  · rw [← first.encode_redact, h, second.encode_redact]
  · rw [← first.encode_redact, Object.encode_of_keysApart hkeys, ← second.encode_redact, ← h,
      Object.encode_of_keysApart hkeys]

/-- Houses with doors, of which the codes are not shown. -/
def houseSchema : Schema where
  types := [
    { typeName := "Door", label := "Door", initial := []
      members := [{ name := "name", field := "name" },
        { name := "code", field := "code", ignoreGet := true }] },
    { typeName := "House", label := "House", initial := []
      members := [{ name := "code", field := "code", ignoreGet := true },
        { name := "front", field := "front" }, { name := "doors", field := "doors" },
        { name := "rooms", field := "rooms" }, { name := "sheds", field := "sheds" },
        { name := "spare", field := "spare" }, { name := "gate", field := "gate" }] }]

/-- A door with a name and a code, which may be that of other doors. -/
def doorOf (name : Text) (code : Slot) : Fields :=
  [("name", .scalar (.text .plain name)), ("code", code)]

/-- A house in which every code holds the given slot. -/
def houseOf (code : Slot) : Object :=
  let fields := doorOf "oak" code
  let door := Slot.object "Door" fields
  ⟨"House", [("code", code), ("front", .boxed door),
    ("doors", .list (.object "Door") [door, door]),
    ("rooms", .map "BTreeMap" .sorted (.single (.text .plain)) (.object "Door")
      [(.single (.text .plain "attic"), door)]),
    ("sheds", .map "HashMap" .hashed (.single .bool) (.object "Door")
      [(.single (.bool false), door), (.single (.bool true), door)]),
    ("spare", .filled door), ("gate", .dynamic "gate" "Door" fields)]⟩

/-- Codes are told apart by nothing in the text, even when one of them could not be written, and
neither are the orders in which the sheds are handed out. -/
theorem Object.encode_houseOf :
    let absent := Slot.vacant (.list (.object "Door"))
    let blank := Slot.filled (.list (.object "Door") [.object "Door" (doorOf " " absent)])
    let first := houseOf absent
    let second := houseOf blank
    first ≠ second ∧ first.redact houseSchema = second.redact houseSchema ∧
      (∀ order, first.encode houseSchema {} order = second.encode houseSchema {} order) ∧
      (first.redact houseSchema).toSlot.KeysApart ∧
      (∀ order order', first.encode houseSchema {} order =
        second.encode houseSchema {} order') ∧
      first.encode houseSchema {} = .ok ("front.name = oak\ndoors[0].name = oak\n".toList ++
        "doors[1].name = oak\nrooms[attic].name = oak\nsheds[false].name = oak\n".toList ++
        "sheds[true].name = oak\nspare.name = oak\ngate = gate\ngate.name = oak\n".toList) := by
  intro absent blank first second
  have hne : first ≠ second := by
    intro h
    simp [first, second, absent, blank, houseOf] at h
  have hredact : first.redact houseSchema = second.redact houseSchema := rfl
  have hname : ∀ entry ∈ [("name".toList, Slot.scalar (.text .plain "oak"))],
      entry.2.KeysApart := by simpa using .scalar _
  have hdoor : Slot.KeysApart (.object "Door" _) := .object hname
  have hkeys : (first.redact houseSchema).toSlot.KeysApart := by
    have hone {α : Type} (first : α) :
        ∀ entry ∈ [(first, Slot.object "Door" [("name", .scalar (.text .plain "oak"))])],
          entry.2.KeysApart := by simpa using hdoor
    refine .object ?_
    show ∀ entry ∈ [_, _, _, _, _, _], _
    simp only [List.forall_mem_cons]
    exact ⟨.boxed hdoor, .list (List.forall_mem_cons.2
        ⟨hdoor, List.forall_mem_cons.2 ⟨hdoor, nofun⟩⟩),
      .map nofun (hone _), .map (fun _ => by decide) (List.forall_mem_cons.2 ⟨hdoor, hone _⟩),
      .filled hdoor, .dynamic hname, nofun⟩
  obtain ⟨hsame, hstable⟩ := Object.encode_eq_of_redact houseSchema hredact {}
  refine ⟨hne, hredact, hsame, hkeys, hstable hkeys, ?_⟩
  rw [← first.encode_redact, Object.encode_of_keysApart hkeys]
  show encodeObject _ (encodersOfFields houseSchema {} [_, _, _, _, _, _]) _ [] = _
  simp only [encodersOfFields, Slot.redact, redactEntries]
  rw [Slot.encode_of_ordered]
  · decide +kernel
  · exact List.pairwise_pair.2 (by decide)

/-- A ledger has a sum for each pair of texts. -/
def ledgerSchema : Schema where
  types := [
    { typeName := "Ledger", label := "Ledger", initial := []
      members := [{ name := "sums", field := "sums" }] }]

/-- A ledger with the given sums, kept in a map of some kind. -/
def ledgerOf (kind : MapKind) (sums : List (MapKey × Slot)) : Object :=
  ⟨"Ledger", [("sums", .map "Sums" kind (.tuple [.text .plain, .text .plain])
    (.scalar (.integer (.signed 32))) sums)]⟩

/-- The sum of a text and one with a comma. -/
def firstSum : MapKey × Slot :=
  (.tuple [.text .plain "a", .text .plain "b,c"], .scalar (.integer (.signed 32) 1))

/-- A sum whose key has the same text, with the comma in the other component. -/
def secondSum : MapKey × Slot :=
  (.tuple [.text .plain "a,b", .text .plain "c"], .scalar (.integer (.signed 32) 2))

/-- Nothing of a ledger is hidden, and yet its text may be one or the other. -/
theorem ledger_encode_of_order :
    let ledger := ledgerOf .hashed [firstSum, secondSum]
    let order : HashOrder := fun _ _ => 0
    let order' : HashOrder := fun _ key => if key = firstSum.1 then 1 else 0
    ledger.encode ledgerSchema {} order = .ok "sums[a,b,c] = 1\nsums[a,b,c] = 2\n".toList ∧
      ledger.encode ledgerSchema {} order' = .ok "sums[a,b,c] = 2\nsums[a,b,c] = 1\n".toList ∧
      ¬∀ first second : Object, first.redact ledgerSchema = second.redact ledgerSchema →
        ∀ options order order', first.encode ledgerSchema options order =
          second.encode ledgerSchema options order' := by
  intro ledger order order'
  have harranged : ∀ order : HashOrder, ledger.toSlot.arrange order =
      (ledgerOf .hashed
        (if order [.field "sums"] firstSum.1 ≤ order [.field "sums"] secondSum.1
          then [firstSum, secondSum] else [secondSum, firstSum])).toSlot := by
    intro order
    show Slot.object _ [(_, .map _ _ _ _ (MapKind.handOut .hashed _ [_, _]))] = _
    rw [MapKind.handOut_pair]
    rfl
  -- the texts are in order both ways, so the sums are written like those of a sorted map
  have hwritten : ∀ left right : MapKey × Slot, left.1.render = right.1.render →
      (ledgerOf .hashed [left, right]).toSlot.encode ledgerSchema {} [] =
        (ledgerOf .sorted [left, right]).toSlot.encode ledgerSchema {} [] := by
    intro left right htexts
    have hordered : [left, right].Pairwise fun left right => ¬right.1.render < left.1.render :=
      List.pairwise_pair.2 (htexts ▸ List.lt_irrefl _)
    show encodeObject _ [(_, Slot.encode ledgerSchema {} _)] _ [] = _
    rw [Slot.encode_of_ordered _ _ _ hordered]
    rfl
  have hfirst : ledger.encode ledgerSchema {} order =
      .ok "sums[a,b,c] = 1\nsums[a,b,c] = 2\n".toList := by
    rw [Object.encode, harranged, if_pos (Nat.le_refl 0), hwritten firstSum secondSum rfl]
    decide +kernel
  have hsecond : ledger.encode ledgerSchema {} order' =
      .ok "sums[a,b,c] = 2\nsums[a,b,c] = 1\n".toList := by
    rw [Object.encode, harranged, if_neg (by decide), hwritten secondSum firstSum rfl]
    decide +kernel
  refine ⟨hfirst, hsecond, fun h => ?_⟩
  have hsame := h ledger ledger rfl {} order order'
  rw [hfirst, hsecond] at hsame
  exact absurd hsame (by decide)

end KeyedText
