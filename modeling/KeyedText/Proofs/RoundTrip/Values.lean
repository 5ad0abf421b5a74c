import KeyedText.Proofs.Encoding.Leaves
import KeyedText.Proofs.RoundTrip.Types

/-!
# Values that come back

The leaves of a value are written when the value is, and a slot that takes them in their order holds
the value afterwards: lists grow item by item, the entries of maps come into being by the texts of
their keys, and optional values with the first text in them.

## Main definitions

- `Leaf.heard` — the steps and the text that a written leaf is read as
- `Slot.KeepsReturns` — no text of a slot loses a carriage return at its end

## Main statements

- `Scalar.read_scanned` — a scalar reads back
- `Slot.Fits.writes` — a value is written as its leaves
- `Slot.Fits.takes` — an empty slot that takes the leaves of a value holds the value
-/

namespace KeyedText

variable {values : EnumValues} {writing admitted : Text → Prop} {schema : Schema}
  {options : EncodeOptions}

/-! ## Scalars -/

/-- A written value is read as it was but for its outer blanks. -/
theorem trim_scanned (options : EncodeOptions) (value : Text) :
    Text.trim (scanned options value) = Text.trim value := by
  by_cases hlast : options.crlf = true ∨ value.getLast? ≠ some '\r'
  · rw [scanned_eq hlast]
  · obtain ⟨hcrlf, hlast⟩ := not_or.1 hlast
    obtain ⟨front, rfl⟩ := List.getLast?_eq_some_iff.1 (not_not.1 hlast)
    rw [scanned]
    split
    · -- the carriage return that a block loses is a blank
      rw [EncodeOptions.lineEnd, if_neg hcrlf, List.append_assoc, List.singleton_append,
        Text.dropTerminator_crlf, Text.trim_append_of_blank (by decide)]
    · rfl

theorem EnumTable.read_congr {table : EnumTable} {raw other : Text}
    (h : Text.trim raw = Text.trim other) : table.read raw = table.read other := by
  rw [read, read, h]

/-- A scalar reads back, if it is no text with a carriage return to lose. -/
theorem Scalar.read_scanned {value : Scalar} (hfits : value.Fits values)
    (hreads : value.type.ReadsBack values)
    (hreturn : options.crlf = true ∨ ∀ kind text, value = .text kind text →
      text.getLast? ≠ some '\r') :
    value.type.read (scanned options value.render) = .ok value := by
  have htrim := trim_scanned options value.render
  cases value with
  | text kind text =>
    have htext := scanned_eq (hreturn.imp_right fun h => h kind text rfl)
    rw [Scalar.render, htext]
    rfl
  | integer kind n =>
    rw [Scalar.render, Text.trim_ofInt] at htrim
    rw [Scalar.type, ScalarType.read, ScalarType.readInteger, Scalar.render, htrim,
      IntegerKind.read_ofInt hfits]
    rfl
  | bool b =>
    rw [Scalar.render] at htrim
    rw [Scalar.type, ScalarType.read, ScalarType.readBool, Scalar.render, htrim]
    cases b <;> rfl
  | enum table value =>
    rw [Scalar.render] at htrim
    rw [Scalar.type, ScalarType.read, Scalar.render, EnumTable.read_congr htrim, hreads value hfits]
    rfl
  | _ => exact absurd hreads id

/-- A key that has no outer blanks reads back from an index. -/
theorem MapKey.read_render {type : KeyType} {key : MapKey} (hfits : key.Fits values type)
    (hplain : type.Plain) (htrim : Text.trim key.render = key.render) :
    type.read (Index.ofText key.render) = .ok key := by
  cases key with
  | single value =>
    obtain ⟨rfl, hvalue⟩ := hfits
    rw [MapKey.render] at htrim
    rw [KeyType.read, Index.ofText, MapKey.render, htrim]
    cases value with
    | text kind text => rfl
    | integer kind n =>
      rw [Scalar.type, ScalarType.read, ScalarType.readInteger, htrim, Scalar.render,
        IntegerKind.read_ofInt hvalue]
      rfl
    | _ => exact absurd hplain id
  | tuple parts =>
    obtain ⟨rfl, -⟩ := hfits
    exact absurd hplain id

/-! ## What is heard of a leaf -/

/-- The steps and the text that a written leaf is read as. -/
def Leaf.heard (options : EncodeOptions) (leaf : Leaf) : List Step × Text :=
  (leaf.1.map Segment.toStep, scanned options leaf.2)

/-- No text of a slot loses a carriage return at its end, be it that lines end in carriage returns
themselves or that no text does. -/
def Slot.KeepsReturns (options : EncodeOptions) (slot : Slot) : Prop :=
  options.crlf = true ∨ ∀ place kind text, slot.leaf? place = some (.text kind text) →
    text.getLast? ≠ some '\r'

theorem Slot.KeepsReturns.child {slot child : Slot} (h : slot.KeepsReturns options) (turn : Turn)
    (hchild : slot.child? turn = some child) : child.KeepsReturns options := by
  refine h.imp_right fun h place kind text hleaf => h (turn :: place) kind text ?_
  rw [Slot.leaf?, Slot.at?, hchild]
  exact hleaf

theorem Slot.KeepsReturns.item {element : SlotType} {items : List Slot} {item : Slot}
    (h : (Slot.list element items).KeepsReturns options) (hitem : item ∈ items) :
    item.KeepsReturns options := by
  obtain ⟨n, hn⟩ := List.getElem?_of_mem hitem
  exact h.child (.position n) hn

theorem MapKind.Ordered.get?_eq {α : Type} {kind : MapKind} {entries : List (MapKey × α)}
    (h : kind.Ordered entries) {entry : MapKey × α} (hentry : entry ∈ entries) :
    MapKind.get? entry.1 entries = some entry.2 := by
  induction entries with
  | nil => exact absurd hentry (by simp)
  | cons first entries ih =>
    obtain ⟨hfirst, hrest⟩ := List.pairwise_cons.1 h
    rw [MapKind.get?_cons]
    rcases List.mem_cons.1 hentry with rfl | hmem
    · rw [if_pos (MapKey.same_iff.2 rfl)]
    · rw [(hfirst entry hmem).1, if_neg (by simp)]
      exact ih hrest hmem

theorem Slot.KeepsReturns.entry {typeName : Text} {kind : MapKind} {key : KeyType}
    {element : SlotType} {entries : List (MapKey × Slot)} {entry : MapKey × Slot}
    (h : (Slot.map typeName kind key element entries).KeepsReturns options)
    (hordered : kind.Ordered entries) (hentry : entry ∈ entries) : entry.2.KeepsReturns options :=
  h.child (.key entry.1) (hordered.get?_eq hentry)

theorem heard_leavesOfIndexed (items : List (Text × List Leaf)) :
    (leavesOfIndexed items).map (Leaf.heard options) =
      items.flatMap fun item => (item.2.map (Leaf.heard options)).map fun pair =>
        (.index (Index.ofText item.1) :: pair.1, pair.2) := by
  simp only [leavesOfIndexed, List.map_flatMap, List.map_map]
  rfl

/-- What is heard of the leaves of a field. -/
def heardOfField (schema : Schema) (options : EncodeOptions) (fields : Fields) (field : Text) :
    List (List Step × Text) :=
  (((Entries.get? field fields).map (Slot.leaves schema)).getD []).map (Leaf.heard options)

/-- The leaves of an object are heard behind the steps to its members. -/
theorem heard_leavesOfObject {typeName : Text}
    (hread : ∀ member ∈ (schema.find typeName).members,
      (member.ignoreGet || !member.readable) = false) (fields : Fields) :
    ((Slot.object typeName fields).leaves schema).map (Leaf.heard options) =
      (schema.find typeName).members.flatMap fun member =>
        (heardOfField schema options fields member.field).map fun pair =>
          (.member member.name :: pair.1, pair.2) := by
  rw [Slot.leaves, List.map_flatMap]
  refine List.flatMap_congr fun member hmember => ?_
  rw [Member.leaves, hread member hmember, leavesOfFields_eq,
    Entries.get?_map (Slot.leaves schema), if_neg (by simp), heardOfField, List.map_map,
    List.map_map]
  rfl

/-! ## Writing -/

/-- Every field of an object that fits is a member of its type. -/
theorem ObjectType.Admissible.field {type : ObjectType}
    (h : type.Admissible schema values writing admitted) {fields : Fields}
    (hnames : fields.map Prod.fst = type.initial.map Prod.fst) {field : Text} {slot : Slot}
    (hslot : Entries.get? field fields = some slot) :
    ∃ fresh, Entries.get? field type.initial = some fresh ∧
      fresh.type.Admissible values writing admitted := by
  obtain ⟨fresh, hfresh⟩ := Entries.exists_get? hnames.symm hslot
  have hmem : field ∈ type.initial.map Prod.fst := Entries.mem_names_of_get? hfresh
  obtain ⟨member, hmember, rfl⟩ := List.mem_map.1 (h.covered field hmem)
  obtain ⟨slot', hslot', hadmissible⟩ := h.member member hmember
  obtain rfl : slot' = fresh := Option.some.inj (hslot'.symm.trans hfresh)
  exact ⟨slot', hslot', hadmissible⟩

namespace Slot.Fits

/-- A value of an admissible type is written as its leaves. -/
theorem writes (hclass : schema.Classified values writing admitted) {type : SlotType} {slot : Slot}
    (h : slot.Fits schema values type) (hadmissible : type.Admissible values writing admitted) :
    Encoder.Writes options (slot.encode schema options) (slot.leaves schema) := by
  induction h with
  | scalar value fits => exact fun key _ text htext => .leaf htext
  | vacant content =>
    intro key _ text htext
    obtain rfl := Except.ok.inj htext
    exact .nil options key
  | filled fits ih => exact ih (SlotType.AlwaysWrites.admissible hclass hadmissible)
  | @list element items fits length ih =>
    have helement : element.Admissible values writing admitted :=
      SlotType.AlwaysWrites.admissible hclass hadmissible
    -- a list without items is a leaf of its own
    cases items with
    | nil => exact fun key _ text htext => .leaf htext
    | cons item items =>
      have hitems : ∀ entry ∈ numbered 0 (item :: items),
          Encoder.Writes options (entry.2.encode schema options) (entry.2.leaves schema) :=
        fun entry hentry => ih entry.2 (mem_of_mem_numbered hentry) helement
      replace hitems := writes_items hitems
      rw [← numbered_map, ← numbered_map, ← encodersOfItems_eq, ← leavesOfItems_eq] at hitems
      exact hitems
  | @map typeName kind key element entries keys fits ordered ih =>
    obtain ⟨hkind, hplain, hwrites⟩ := hadmissible
    have helement := SlotType.AlwaysWrites.admissible hclass hwrites
    have hentries : ∀ entry ∈ entries.map fun entry => (entry.1.render, entry.2),
        Encoder.Writes options (entry.2.encode schema options) (entry.2.leaves schema) := by
      intro entry hentry
      obtain ⟨entry, hmem, rfl⟩ := List.mem_map.1 hentry
      exact ih entry hmem helement
    replace hentries := writes_items hentries
    simp only [Slot.encode, Slot.leaves, MapKind.shown_eq hkind, encodersOfEntries_eq,
      leavesOfEntries_eq, List.map_map] at hentries ⊢
    exact hentries
  | @object typeName fields names fits ih =>
    have htype := hclass.of_admitted typeName hadmissible
    intro key hkey text htext
    refine writes_object (.inr hkey) htype.noIndexer (fun field slot hslot => ?_) htext
    obtain ⟨fresh, hfresh, hadmissible⟩ := htype.field names hslot
    exact ih field fresh slot hfresh hslot hadmissible

/-- A value of a type that always writes has a leaf. -/
theorem leaves_ne_nil (hclass : schema.Classified values writing admitted) {type : SlotType}
    {slot : Slot} (h : slot.Fits schema values type) (hwrites : type.AlwaysWrites values writing) :
    slot.leaves schema ≠ [] := by
  induction h with
  | scalar value fits => simp [Slot.leaves]
  | vacant | filled | map => exact absurd hwrites id
  | @list element items fits length ih =>
    cases items with
    | nil => simp [Slot.leaves]
    | cons item items =>
      have hitem := ih item (by simp) hwrites
      simp [Slot.leaves, leavesOfItems, numbered, leavesOfIndexed, hitem]
  | @object typeName fields names fits ih =>
    obtain ⟨hadmitted, member, hmember, fresh, hfresh, hmemberWrites⟩ :=
      hclass.of_writing typeName hwrites
    have htype := hclass.of_admitted typeName hadmitted
    obtain ⟨slot, hslot⟩ := Entries.exists_get? names hfresh
    have hleaves := ih member.field fresh slot hfresh hslot hmemberWrites
    -- the leaves of the member that always writes are among those of the object
    intro hnil
    rw [Slot.leaves, List.flatMap_eq_nil_iff] at hnil
    have hmemberNil := hnil member hmember
    rw [Member.leaves, htype.readable member hmember, leavesOfFields_eq,
      Entries.get?_map (Slot.leaves schema), hslot] at hmemberNil
    exact hleaves (by simpa using hmemberNil)

end Slot.Fits

/-! ## Reading -/

/-- A slot that takes the leaves of a value holds the value afterwards, whether it was empty or held
the value already. -/
def Slot.ComesBack (schema : Schema) (options : EncodeOptions) (converters : ConverterRegistry)
    (type : SlotType) (slot : Slot) : Prop :=
  ∀ before : Slot, before.Empty schema type ∨ before = slot →
    Takes schema converters ((slot.leaves schema).map (Leaf.heard options)) before slot

namespace Slot.ComesBack

variable {converters : ConverterRegistry} {type element : SlotType} {slot : Slot}

/-- Where a new slot is empty, a value with leaves is rebuilt by what is heard of them. -/
theorem rebuilt (h : slot.ComesBack schema options converters type)
    (hempty : (schema.initial type).Empty schema type) (hne : slot.leaves schema ≠ []) :
    Rebuilt schema converters ((slot.leaves schema).map (Leaf.heard options)) type slot :=
  ⟨mt List.map_eq_nil_iff.1 hne, h _ (.inl hempty), h _ (.inr rfl)⟩

theorem scalar {value : Scalar} (h : value.type.read (scanned options value.render) = .ok value) :
    (Slot.scalar value).ComesBack schema options converters (.scalar value.type) := by
  intro before hbefore
  obtain ⟨old, rfl, hold⟩ : ∃ old, before = .scalar old ∧ old.type = value.type := by
    rcases hbefore with hempty | rfl
    · exact hempty.of_scalar
    · exact ⟨value, rfl, rfl⟩
  refine Takes.single (Binds.leaf fun site => ?_)
  rw [Slot.type, hold, SlotType.read, h]
  rfl

theorem vacant (content : SlotType) :
    (Slot.vacant content).ComesBack schema options converters (.option content) := by
  rintro before (hempty | rfl)
  · cases hempty
    exact .nil _
  · exact .nil _

theorem filled (h : Rebuilt schema converters ((slot.leaves schema).map (Leaf.heard options)) type
    slot) : (Slot.filled slot).ComesBack schema options converters (.option type) := by
  rintro before (hempty | rfl)
  · cases hempty
    exact h.anew.vacant h.ne_nil
  · exact h.again.filled

/-- A list comes back when its items are rebuilt. -/
theorem list {items : List Slot} (h : ∀ item ∈ items,
      Rebuilt schema converters ((item.leaves schema).map (Leaf.heard options)) element item)
    (hlength : items.length < 2 ^ 64) :
    (Slot.list element items).ComesBack schema options converters (.list element) := by
  intro before hbefore
  cases items with
  | nil =>
    obtain rfl : before = .list element [] := by
      rcases hbefore with hempty | rfl
      · cases hempty
        rfl
      · rfl
    exact Takes.single (Binds.leaf fun _ => rfl)
  | cons item items =>
    have hitems := fun there => Takes.items
      (fun item => (item.leaves schema).map (Leaf.heard options)) [] (item :: items) there h
      (by simpa using hlength)
    rw [leaves_list_cons, heard_leavesOfIndexed, List.flatMap_map]
    rcases hbefore with hempty | rfl
    · cases hempty
      exact hitems 0
    · have hall := hitems (item :: items).length
      rwa [List.take_length] at hall

/-- A map comes back when its values are rebuilt and its keys are read back. -/
theorem map {typeName : Text} {kind : MapKind} {key : KeyType} {entries : List (MapKey × Slot)}
    (hkind : kind = .sorted ∨ kind = .inserted)
    (h : ∀ entry ∈ entries,
      Rebuilt schema converters ((entry.2.leaves schema).map (Leaf.heard options)) element entry.2)
    (hread : ∀ entry ∈ entries, key.read (Index.ofText entry.1.render) = .ok entry.1)
    (hordered : kind.Ordered entries) :
    (Slot.map typeName kind key element entries).ComesBack schema options converters
      (.map typeName kind key element) := by
  intro before hbefore
  have hopen : ∀ closed, kind ≠ .gated closed := by
    rcases hkind with rfl | rfl <;> simp
  have hentries := fun there => Takes.entries typeName hopen
    (fun slot => (slot.leaves schema).map (Leaf.heard options)) [] entries there h hread hordered
  rw [leaves_map schema hkind, heard_leavesOfIndexed, List.flatMap_map, List.flatMap_map]
  rcases hbefore with hempty | rfl
  · cases hempty
    exact hentries 0
  · have hall := hentries entries.length
    rwa [List.take_length] at hall

/-- What a field holds in an object of a type that is still empty there. -/
def Pending (schema : Schema) (typeName field : Text) (slot : Slot) : Prop :=
  ∀ fresh, Entries.get? field (schema.find typeName).initial = some fresh →
    slot.Empty schema fresh.type

/-- An object that is empty or finished is an object whose fields are. -/
theorem pending_of_empty {typeName : Text} {fields : Fields} {before : Slot}
    (hnames : fields.map Prod.fst = (schema.find typeName).initial.map Prod.fst)
    (h : before.Empty schema (.object typeName) ∨ before = .object typeName fields) :
    ∃ start : Fields, before = .object typeName start ∧
      start.map Prod.fst = fields.map Prod.fst ∧
      ∀ field slot, Entries.get? field fields = some slot → ∃ before,
        Entries.get? field start = some before ∧
          (Pending schema typeName field before ∨ before = slot) := by
  rcases h with hempty | rfl
  · cases hempty with
    | @object _ start hstart hempty =>
      refine ⟨start, rfl, hstart.trans hnames.symm, fun field slot hslot => ?_⟩
      obtain ⟨before, hbefore⟩ := Entries.exists_get? (hstart.trans hnames.symm) hslot
      exact ⟨before, hbefore, .inl fun fresh hfresh => hempty field fresh before hfresh hbefore⟩
  · exact ⟨fields, rfl, rfl, fun field slot hslot => ⟨slot, hslot, .inr rfl⟩⟩

/-- An object comes back when its fields do. -/
theorem object {typeName : Text} {fields : Fields}
    (htype : (schema.find typeName).Admissible schema values writing admitted)
    (hnames : fields.map Prod.fst = (schema.find typeName).initial.map Prod.fst)
    (h : ∀ field fresh slot, Entries.get? field (schema.find typeName).initial = some fresh →
      Entries.get? field fields = some slot →
      slot.ComesBack schema options converters fresh.type) :
    (Slot.object typeName fields).ComesBack schema options converters (.object typeName) := by
  intro before hbefore
  obtain ⟨start, rfl, hstartNames, hpending⟩ := pending_of_empty hnames hbefore
  have hmembers : ∀ member ∈ (schema.find typeName).members, ∃ slot,
      Entries.get? member.field fields = some slot ∧ ∀ before,
        Pending schema typeName member.field before ∨ before = slot →
        Takes schema converters (heardOfField schema options fields member.field) before slot := by
    intro member hmember
    obtain ⟨fresh, hfresh, -⟩ := htype.member member hmember
    obtain ⟨slot, hslot⟩ := Entries.exists_get? hnames hfresh
    refine ⟨slot, hslot, fun before hbefore => ?_⟩
    rw [heardOfField, hslot]
    exact h _ _ _ hfresh hslot before (hbefore.imp_left fun hempty => hempty fresh hfresh)
  obtain ⟨fields', htakes, hnames', hfinished⟩ := Takes.members (Pending schema typeName)
    (fun member => heardOfField schema options fields member.field) (schema.find typeName).members
    (fun member => htype.findMember_eq) htype.writable htype.noConverter hmembers hpending
  -- the members finish every field, and no fields are added
  have hall : fields' = fields := by
    refine Fields.eq_of_get? (hnames'.trans hstartNames) (hnames ▸ htype.fieldNames)
      fun field hfield => ?_
    obtain ⟨slot, hslot⟩ := Entries.exists_get?_of_mem hfield
    rw [hnames] at hfield
    rw [hslot, hfinished field slot hslot (.inl (htype.covered field hfield))]
  rw [heard_leavesOfObject htype.readable]
  rwa [hall] at htakes

end Slot.ComesBack

namespace Slot.Fits

/-- An empty slot that takes the leaves of a value holds the value, and a slot that holds the value
already goes on holding it. -/
theorem comesBack (hclass : schema.Classified values writing admitted)
    (converters : ConverterRegistry) {type : SlotType} {slot : Slot}
    (h : slot.Fits schema values type) (hadmissible : type.Admissible values writing admitted)
    (haccepted : ∀ leaf ∈ slot.leaves schema, leaf.Accepted)
    (hreturns : slot.KeepsReturns options) :
    slot.ComesBack schema options converters type := by
  induction h with
  | scalar value fits =>
    exact .scalar (Scalar.read_scanned fits hadmissible
      (hreturns.imp_right fun h kind text heq => h [] kind text (by rw [heq]; rfl)))
  | vacant content => exact .vacant content
  | filled fits ih =>
    -- a content without leaves would be lost, but its type always writes
    have hcontent := SlotType.AlwaysWrites.admissible hclass hadmissible
    have hback := ih hcontent haccepted (hreturns.child .content rfl)
    exact .filled (hback.rebuilt (hclass.empty_initial hcontent)
      (fits.leaves_ne_nil hclass hadmissible))
  | @list element items fits length ih =>
    have helement : element.Admissible values writing admitted :=
      SlotType.AlwaysWrites.admissible hclass hadmissible
    refine .list (fun item hitem => ?_) length
    have hback := ih item hitem helement (accepted_item haccepted hitem) (hreturns.item hitem)
    exact hback.rebuilt (hclass.empty_initial helement)
      ((fits item hitem).leaves_ne_nil hclass hadmissible)
  | @map typeName kind key element entries keys fits ordered ih =>
    obtain ⟨hkind, hplain, hwrites⟩ := hadmissible
    have helement := SlotType.AlwaysWrites.admissible hclass hwrites
    have hne := fun entry hentry => (fits entry hentry).leaves_ne_nil hclass hwrites
    refine .map hkind (fun entry hentry => ?_) (fun entry hentry => ?_) ordered
    · have hback := ih entry hentry helement
        (fun leaf hleaf => (accepted_entry hkind haccepted hentry hleaf).2)
        (hreturns.entry ordered hentry)
      exact hback.rebuilt (hclass.empty_initial helement) (hne entry hentry)
    · -- the key was checked when the first leaf behind it was written
      obtain ⟨leaf, hleaf⟩ := List.exists_mem_of_ne_nil _ (hne entry hentry)
      have hindex := (accepted_entry hkind haccepted hentry hleaf).1
      exact MapKey.read_render (keys entry hentry) hplain (checkIndex_eq_ok_iff.1 hindex).1
  | @object typeName fields names fits ih =>
    have htype := hclass.of_admitted typeName hadmissible
    refine .object htype names fun field fresh slot hfresh hslot => ?_
    obtain ⟨member, hmember, rfl⟩ :=
      List.mem_map.1 (htype.covered field (Entries.mem_names_of_get? hfresh))
    obtain ⟨fresh', hfresh', hmemberAdmissible⟩ := htype.member member hmember
    obtain rfl := Option.some.inj (hfresh.symm.trans hfresh')
    exact ih member.field fresh slot hfresh hslot hmemberAdmissible
      (accepted_member haccepted hmember (htype.readable member hmember) hslot)
      (hreturns.child (.field member.field) hslot)

end Slot.Fits

end KeyedText
