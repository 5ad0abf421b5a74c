import KeyedText.Binding.Populate
import KeyedText.Encoding.Object
import KeyedText.Proofs.Binding.Along
import KeyedText.Proofs.Number.Decimal

/-!
# Slots that take values

A slot takes texts one after the other, each at the end of its own steps. What a part of a slot
takes, the slot takes with one more step in front, also when the part comes into being with the
first text. So a list is filled item by item and a map entry by entry.

## Main definitions

- `Slot.Binds` — a text is assigned at the end of some steps
- `Slot.Takes` — texts are assigned one after the other
- `Slot.Rebuilt` — what builds a slot anew and changes nothing when it is taken again
- `MapKind.Ordered` — the entries of a map are in the order of the map

## Main statements

- `Slot.Takes.items`, `Slot.Takes.entries` — what rebuilds the items of a list or the entries of a
  map rebuilds the list or the map
- `Slot.Takes.members` — what finishes one field after the other finishes the object
-/

namespace KeyedText

/-! ## Fields -/

namespace Fields

variable {field : Text} {slot : Slot} {fields : Fields}

theorem put_put (later : Slot) :
    put field later (put field slot fields) = put field later fields := by
  induction fields with
  | nil => rfl
  | cons entry fields ih =>
    rw [put_cons, put_cons]
    split
    · next h => rw [put_cons, if_pos h]
    · next h => rw [put_cons, if_neg h, ih]

theorem names_put : (put field slot fields).map Prod.fst = fields.map Prod.fst := by
  induction fields with
  | nil => rfl
  | cons entry fields ih =>
    rw [put_cons]
    split
    · rfl
    · rw [List.map_cons, ih, List.map_cons]

theorem eq_of_get? {fields fields' : Fields} (hnames : fields'.map Prod.fst = fields.map Prod.fst)
    (hnodup : (fields.map Prod.fst).Nodup)
    (h : ∀ field ∈ fields.map Prod.fst, Entries.get? field fields' = Entries.get? field fields) :
    fields' = fields := by
  induction fields generalizing fields' with
  | nil => exact List.map_eq_nil_iff.1 hnames
  | cons entry fields ih =>
    obtain ⟨entry', rest, rfl, hname, hrest⟩ := List.map_eq_cons_iff.1 hnames
    obtain ⟨hnot, hnodup⟩ := List.nodup_cons.1 hnodup
    have hfirst := h entry.1 (by simp)
    rw [get?_cons, get?_cons, hname, if_pos (by simp), if_pos (by simp)] at hfirst
    have hentry : entry' = entry := Prod.ext hname (Option.some.inj hfirst)
    refine congrArg₂ List.cons hentry (ih hrest hnodup fun field hfield => ?_)
    have hne : ¬(entry.1 == field) = true := by
      rw [beq_iff_eq]
      rintro rfl
      exact hnot hfield
    have hlater := h field (List.mem_cons_of_mem _ hfield)
    rwa [get?_cons, get?_cons, hentry, if_neg hne, if_neg hne] at hlater

end Fields

/-! ## Entries of maps -/

namespace MapKind

variable {α β : Type} {kind : MapKind} {key : MapKey} {done : List (MapKey × α)}

/-- The entries are in the order of the map: no key twice, and keys in their order where the map
keeps it. -/
def Ordered (kind : MapKind) (entries : List (MapKey × α)) : Prop :=
  entries.Pairwise fun left right =>
    left.1.same right.1 = false ∧ (kind.isRanked = true → left.1.rank < right.1.rank)

theorem upsert_append (hdone : ∀ entry ∈ done, entry.1.same key = false) (value start : α)
    (step : α → α × β) (rest : List (MapKey × α)) :
    kind.upsert key start step (done ++ (key, value) :: rest) =
      (done ++ (key, (step value).1) :: rest, (step value).2) := by
  have hupdate : updateExisting? key step (done ++ (key, value) :: rest) =
      some (done ++ (key, (step value).1) :: rest, (step value).2) := by
    induction done with
    | nil => simp [updateExisting?, MapKey.same]
    | cons entry done ih =>
      rw [List.cons_append, updateExisting?, hdone entry (by simp),
        ih fun other hother => hdone other (by simp [hother])]
      rfl
  rw [upsert, hupdate]

/-- A key that is not there and belongs behind the others is added at the end. -/
theorem upsert_new (hdone : ∀ entry ∈ done, entry.1.same key = false ∧
      (kind.isRanked = true → entry.1.rank < key.rank)) (start : α) (step : α → α × β) :
    kind.upsert key start step done = (done ++ [(key, (step start).1)], (step start).2) := by
  have hupdate : updateExisting? key step done = none := by
    induction done with
    | nil => rfl
    | cons entry done ih =>
      rw [updateExisting?, (hdone entry (by simp)).1,
        ih fun other hother => hdone other (by simp [hother])]
      rfl
  have hinsert : kind.insert key (step start).1 done = done ++ [(key, (step start).1)] := by
    clear hupdate
    induction done with
    | nil => rfl
    | cons entry done ih =>
      have hbehind : (kind.isRanked && decide (key.rank < entry.1.rank)) = false := by
        rw [Bool.and_eq_false_imp, decide_eq_false_iff_not]
        exact fun hranked => List.lt_asymm ((hdone entry (by simp)).2 hranked)
      rw [insert, hbehind, ih fun other hother => hdone other (by simp [hother])]
      rfl
  rw [upsert, hupdate]
  dsimp only
  rw [hinsert]

end MapKind

/-! ## Taking one text and several -/

namespace Slot

/-- A text is assigned at the end of some steps, wherever the slot stands. -/
def Binds (schema : Schema) (converters : ConverterRegistry) (steps : List Step) (text : Text)
    (before after : Slot) : Prop :=
  ∀ (hops : Nat) (site : Site), site.member.converter = none →
    bindWithin schema converters (some text) hops site steps before = (after, .assigned)

/-- Texts are assigned one after the other, each at the end of its steps. -/
inductive Takes (schema : Schema) (converters : ConverterRegistry) :
    List (List Step × Text) → Slot → Slot → Prop
  | nil (slot : Slot) : Takes schema converters [] slot slot
  | cons {steps : List Step} {text : Text} {pairs : List (List Step × Text)}
      {before middle after : Slot} (binds : Binds schema converters steps text before middle)
      (rest : Takes schema converters pairs middle after) :
      Takes schema converters ((steps, text) :: pairs) before after

/-- Texts that build a slot anew, and change nothing in it when they are taken again. -/
structure Rebuilt (schema : Schema) (converters : ConverterRegistry)
    (pairs : List (List Step × Text)) (type : SlotType) (slot : Slot) : Prop where
  ne_nil : pairs ≠ []
  anew : Takes schema converters pairs (schema.initial type) slot
  again : Takes schema converters pairs slot slot

variable {schema : Schema} {converters : ConverterRegistry} {steps : List Step} {text : Text}
  {pairs more : List (List Step × Text)} {before middle after slot child : Slot}
  {element : SlotType}

/-! ## One text -/

namespace Binds

theorem bind (h : Binds schema converters steps text before after) {site : Site}
    (hplain : site.member.converter = none) :
    Slot.bind schema converters (some text) site steps before = (after, .assigned) := by
  rw [bind_eq_bindWithin]
  exact h _ site hplain

theorem leaf (h : ∀ site, before.type.read site text = .ok after) :
    Binds schema converters [] text before after := by
  intro hops site hplain
  rw [bindWithin, Slot.bind, assignLeaf_eq hplain, h site]
  exact fun _ _ hvalue => absurd hvalue (by simp)

theorem content (hthere : slot.childOrNew? schema .content = some child)
    (h : Binds schema converters steps text child after) :
    Binds schema converters steps text slot (slot.withContent after) := by
  intro hops site hplain
  obtain ⟨houtcome, hcontent⟩ := bindWithin_content hplain hthere steps hops
  rw [h hops site hplain] at houtcome hcontent
  exact Prod.ext (hcontent rfl) houtcome

theorem readPosition?_index {n : Nat} (h : n < 2 ^ 64) :
    readPosition? (Index.ofText (Text.ofNat n)).text = some n := by
  rw [Index.ofText, Text.trim_ofNat, readPosition?_ofNat h]

theorem position (done rest : List Slot) (hlength : done.length < 2 ^ 64)
    (h : Binds schema converters steps text before after) :
    Binds schema converters (.index (Index.ofText (Text.ofNat done.length)) :: steps) text
      (.list element (done ++ before :: rest)) (.list element (done ++ after :: rest)) := by
  intro hops site hplain
  have hpadded : padded? (schema.initial element) (done ++ before :: rest) done.length =
      some (done ++ before :: rest) := if_pos (by simp)
  have hitem : (done ++ before :: rest)[done.length]? = some before := by simp
  rw [bindWithin_position (readPosition?_index hlength) hpadded, hitem, Option.getD_some,
    h.bind hplain]
  simp

theorem newPosition (done : List Slot) (hlength : done.length + 1 < 2 ^ 64)
    (h : Binds schema converters steps text (schema.initial element) after) :
    Binds schema converters (.index (Index.ofText (Text.ofNat done.length)) :: steps) text
      (.list element done) (.list element (done ++ [after])) := by
  intro hops site hplain
  have hitem : done[done.length]? = none := by simp
  rw [bindWithin_position (readPosition?_index (Nat.lt_of_succ_lt hlength))
    (padded?_atEnd hlength), hitem, Option.getD_none, h.bind hplain]
  simp

variable {typeName : Text} {kind : MapKind} {keyType : KeyType} {index : Index} {key : MapKey}

theorem entry {done : List (MapKey × Slot)} (hopen : kind ≠ .gated index.text)
    (hreads : keyType.read index = .ok key) (hdone : ∀ entry ∈ done, entry.1.same key = false)
    (rest : List (MapKey × Slot)) (h : Binds schema converters steps text before after) :
    Binds schema converters (.index index :: steps) text
      (.map typeName kind keyType element (done ++ (key, before) :: rest))
      (.map typeName kind keyType element (done ++ (key, after) :: rest)) := by
  intro hops site hplain
  rw [bindWithin_key hopen hreads, MapKind.upsert_append hdone, h.bind hplain]

theorem newEntry {done : List (MapKey × Slot)} (hopen : kind ≠ .gated index.text)
    (hreads : keyType.read index = .ok key)
    (hdone : ∀ entry ∈ done, entry.1.same key = false ∧
      (kind.isRanked = true → entry.1.rank < key.rank))
    (h : Binds schema converters steps text (schema.initial element) after) :
    Binds schema converters (.index index :: steps) text
      (.map typeName kind keyType element done)
      (.map typeName kind keyType element (done ++ [(key, after)])) := by
  intro hops site hplain
  rw [bindWithin_key hopen hreads, MapKind.upsert_new hdone, h.bind hplain]

theorem member {name : Text} {fields : Fields} {member : Member}
    (hfound : (schema.find typeName).findMember (Text.fold name) = some member)
    (hbinds : (member.ignoreSet || !member.writable) = false) (hplain : member.converter = none)
    (hthere : Entries.get? member.field fields = some before)
    (h : Binds schema converters steps text before after) :
    Binds schema converters (.member name :: steps) text (.object typeName fields)
      (.object typeName (Fields.put member.field after fields)) := by
  intro hops site _
  rw [bindWithin_member hfound hbinds hthere, h.bind hplain]

end Binds

/-! ## Several texts -/

namespace Takes

theorem single (h : Binds schema converters steps text before after) :
    Takes schema converters [(steps, text)] before after :=
  .cons h (.nil after)

theorem append (h : Takes schema converters pairs before middle)
    (hmore : Takes schema converters more middle after) :
    Takes schema converters (pairs ++ more) before after := by
  induction h with
  | nil => exact hmore
  | cons binds _ ih => exact .cons binds (ih hmore)

/-- What a part takes, the whole takes at the end of longer steps. -/
theorem through (into : List Step → List Step) (whole : Slot → Slot)
    (hbinds : ∀ steps text before after, Binds schema converters steps text before after →
      Binds schema converters (into steps) text (whole before) (whole after))
    (h : Takes schema converters pairs before after) :
    Takes schema converters (pairs.map fun pair => (into pair.1, pair.2)) (whole before)
      (whole after) := by
  induction h with
  | nil slot => exact .nil _
  | cons binds _ ih => exact .cons (hbinds _ _ _ _ binds) ih

/-- What a new part takes, a whole without that part takes, if its first text creates the part. -/
theorem throughNew (into : List Step → List Step) (whole : Slot → Slot) (hne : pairs ≠ [])
    (hnew : ∀ steps text after, Binds schema converters steps text before after →
      Binds schema converters (into steps) text slot (whole after))
    (hbinds : ∀ steps text before after, Binds schema converters steps text before after →
      Binds schema converters (into steps) text (whole before) (whole after))
    (h : Takes schema converters pairs before after) :
    Takes schema converters (pairs.map fun pair => (into pair.1, pair.2)) slot (whole after) := by
  cases h with
  | nil => exact absurd rfl hne
  | cons binds rest => exact .cons (hnew _ _ _ binds) (rest.through into whole hbinds)

theorem filled (h : Takes schema converters pairs before after) :
    Takes schema converters pairs (.filled before) (.filled after) := by
  induction h with
  | nil slot => exact .nil _
  | cons binds _ ih => exact .cons (binds.content rfl) ih

theorem vacant {content : SlotType} (hne : pairs ≠ [])
    (h : Takes schema converters pairs (schema.initial content) after) :
    Takes schema converters pairs (.vacant content) (.filled after) := by
  cases h with
  | nil => exact absurd rfl hne
  | cons binds rest =>
    -- the first text brings the content into being, the others find it there
    exact .cons (binds.content rfl) rest.filled

/-- What rebuilds the items of a list, one after the other, rebuilds the list. Some of the items may
be there already. -/
theorem items (taken : Slot → List (List Step × Text)) (done ahead : List Slot) (there : Nat)
    (hahead : ∀ item ∈ ahead, Rebuilt schema converters (taken item) element item)
    (hlength : done.length + ahead.length < 2 ^ 64) :
    Takes schema converters
      ((numbered done.length ahead).flatMap fun entry =>
        (taken entry.2).map fun pair => (.index (Index.ofText entry.1) :: pair.1, pair.2))
      (.list element (done ++ ahead.take there)) (.list element (done ++ ahead)) := by
  -- the items that are done stand in the list, and so do some of those ahead if they were there
  induction ahead generalizing done there with
  | nil =>
    rw [List.take_nil]
    exact .nil _
  | cons item ahead ih =>
    obtain ⟨hne, hanew, hagain⟩ := hahead item (by simp)
    rw [List.length_cons] at hlength
    have hrest := fun there => ih (done ++ [item]) there
      (fun other hother => hahead other (by simp [hother])) (by simp; omega)
    rw [List.length_append, List.length_singleton] at hrest
    rw [numbered, List.flatMap_cons]
    have hposition : ∀ rest steps text before after,
        Binds schema converters steps text before after →
        Binds schema converters (.index (Index.ofText (Text.ofNat done.length)) :: steps) text
          (.list element (done ++ before :: rest)) (.list element (done ++ after :: rest)) :=
      fun rest _ _ _ _ => Binds.position done rest (by omega)
    cases there with
    | zero =>
      refine Takes.append ?_ (by simpa using hrest 0)
      simpa using hanew.throughNew _ (fun slot => .list element (done ++ [slot])) hne
        (fun _ _ _ => Binds.newPosition done (by omega)) (hposition [])
    | succ there =>
      refine Takes.append ?_ (by simpa using hrest there)
      simpa using hagain.through _ (fun slot => .list element (done ++ slot :: ahead.take there))
        (hposition _)

variable {typeName : Text}

/-- What rebuilds the values of a map, one after the other, rebuilds the map. Some of the entries
may be there already. -/
theorem entries (typeName : Text) {kind : MapKind} {keyType : KeyType}
    (hopen : ∀ closed, kind ≠ .gated closed)
    (taken : Slot → List (List Step × Text)) (done ahead : List (MapKey × Slot)) (there : Nat)
    (hahead : ∀ entry ∈ ahead, Rebuilt schema converters (taken entry.2) element entry.2)
    (hkeys : ∀ entry ∈ ahead, keyType.read (Index.ofText entry.1.render) = .ok entry.1)
    (hordered : kind.Ordered (done ++ ahead)) :
    Takes schema converters
      (ahead.flatMap fun entry => (taken entry.2).map fun pair =>
        (.index (Index.ofText entry.1.render) :: pair.1, pair.2))
      (.map typeName kind keyType element (done ++ ahead.take there))
      (.map typeName kind keyType element (done ++ ahead)) := by
  induction ahead generalizing done there with
  | nil =>
    rw [List.take_nil]
    exact .nil _
  | cons entry ahead ih =>
    obtain ⟨hne, hanew, hagain⟩ := hahead entry (by simp)
    have hread := hkeys entry (by simp)
    -- the key of the entry comes behind those of all the entries that are done
    have hbehind := fun other hother =>
      (List.pairwise_append.1 hordered).2.2 other hother entry (by simp)
    have hrest := fun there => ih (done ++ [entry]) there
      (fun other hother => hahead other (by simp [hother]))
      (fun other hother => hkeys other (by simp [hother])) (by simpa using hordered)
    rw [List.flatMap_cons]
    have hentry : ∀ rest steps text before after,
        Binds schema converters steps text before after →
        Binds schema converters (.index (Index.ofText entry.1.render) :: steps) text
          (.map typeName kind keyType element (done ++ (entry.1, before) :: rest))
          (.map typeName kind keyType element (done ++ (entry.1, after) :: rest)) :=
      fun rest _ _ _ _ =>
        Binds.entry (hopen _) hread (fun other hother => (hbehind other hother).1) rest
    cases there with
    | zero =>
      refine Takes.append ?_ (by simpa using hrest 0)
      simpa using hanew.throughNew _
        (fun slot => .map typeName kind keyType element (done ++ [(entry.1, slot)])) hne
        (fun _ _ _ => Binds.newEntry (hopen _) hread hbehind) (hentry [])
    | succ there =>
      refine Takes.append ?_ (by simpa using hrest there)
      simpa using hagain.through _
        (fun slot => .map typeName kind keyType element
          (done ++ (entry.1, slot) :: ahead.take there)) (hentry _)

theorem member {name : Text} {fields : Fields} {member : Member}
    (hfound : (schema.find typeName).findMember (Text.fold name) = some member)
    (hbinds : (member.ignoreSet || !member.writable) = false) (hplain : member.converter = none)
    (hthere : Entries.get? member.field fields = some before)
    (h : Takes schema converters pairs before after) :
    Takes schema converters (pairs.map fun pair => (.member name :: pair.1, pair.2))
      (.object typeName fields) (.object typeName (Fields.put member.field after fields)) := by
  have hthrough := h.through (.member name :: ·)
    (fun slot => .object typeName (Fields.put member.field slot fields))
    fun steps text before after hstep => by
      have hput := Binds.member hfound hbinds hplain (Fields.get?_put_self hthere) hstep
      rwa [Fields.put_put] at hput
  rwa [Fields.put_of_get? hthere] at hthrough

/-- What finishes one field after the other, each through its member, finishes the object. A field
may be finished already. -/
theorem members {final : Fields} (pending : Text → Slot → Prop)
    (taken : Member → List (List Step × Text)) (members : List Member) {fields : Fields}
    (hfound : ∀ member ∈ members,
      (schema.find typeName).findMember (Text.fold member.name) = some member)
    (hbinds : ∀ member ∈ members, (member.ignoreSet || !member.writable) = false)
    (hplain : ∀ member ∈ members, member.converter = none)
    (hthere : ∀ member ∈ members, ∃ slot, Entries.get? member.field final = some slot ∧
      ∀ before, pending member.field before ∨ before = slot →
        Takes schema converters (taken member) before slot)
    (hfields : ∀ field slot, Entries.get? field final = some slot →
      ∃ before, Entries.get? field fields = some before ∧ (pending field before ∨ before = slot)) :
    ∃ fields', Takes schema converters
        (members.flatMap fun member =>
          (taken member).map fun pair => (.member member.name :: pair.1, pair.2))
        (.object typeName fields) (.object typeName fields') ∧
      fields'.map Prod.fst = fields.map Prod.fst ∧
      ∀ field slot, Entries.get? field final = some slot →
        (field ∈ members.map Member.field ∨ Entries.get? field fields = some slot) →
        Entries.get? field fields' = some slot := by
  induction members generalizing fields with
  | nil => exact ⟨fields, .nil _, rfl, fun field slot _ h => h.resolve_left (by simp)⟩
  | cons member members ih =>
    obtain ⟨slot, hslot, htakes⟩ := hthere member (by simp)
    obtain ⟨before, hbefore, hpending⟩ := hfields member.field slot hslot
    -- two members may share a field: the second one finds it finished
    have hfirst := Takes.member (hfound member (by simp)) (hbinds member (by simp))
      (hplain member (by simp)) hbefore (htakes before hpending)
    have hput : ∀ field final', Entries.get? field final = some final' →
        field = member.field ∨ Entries.get? field fields = some final' →
        Entries.get? field (Fields.put member.field slot fields) = some final' := by
      intro field final' hfinal hcase
      rcases eq_or_ne field member.field with rfl | hne
      · rw [Fields.get?_put_self hbefore, ← hslot, hfinal]
      · rw [Fields.get?_put_of_ne hne]
        exact hcase.resolve_left hne
    have hpending' : ∀ field final', Entries.get? field final = some final' →
        ∃ before, Entries.get? field (Fields.put member.field slot fields) = some before ∧
          (pending field before ∨ before = final') := by
      intro field final' hfinal
      rcases eq_or_ne field member.field with rfl | hne
      · exact ⟨final', hput _ _ hfinal (.inl rfl), .inr rfl⟩
      · rw [Fields.get?_put_of_ne hne]
        exact hfields field final' hfinal
    obtain ⟨fields', hrest, hnames, hfinished⟩ := ih
      (fun other hother => hfound other (by simp [hother]))
      (fun other hother => hbinds other (by simp [hother]))
      (fun other hother => hplain other (by simp [hother]))
      (fun other hother => hthere other (by simp [hother])) hpending'
    refine ⟨fields', ?_, hnames.trans Fields.names_put, fun field final' hfinal hcase => ?_⟩
    · rw [List.flatMap_cons]
      exact hfirst.append hrest
    · refine hfinished field final' hfinal ?_
      rw [List.map_cons, List.mem_cons, or_assoc] at hcase
      rcases hcase with heq | hmem | hdone
      · exact .inr (hput _ _ hfinal (.inl heq))
      · exact .inl hmem
      · exact .inr (hput _ _ hfinal (.inr hdone))

end Takes

end Slot

end KeyedText
