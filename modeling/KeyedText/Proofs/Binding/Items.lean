import KeyedText.Binding.Walk
import KeyedText.Proofs.Binding.Location

/-!
# Going on in a part of a slot

Fields, list positions and map entries are changed one at a time: what happens to the one that is
gone on in decides how the write ends, and the others stay as they were.

## Main definitions

- `Slot.inFields` — a step that goes on in the fields of an object

## Main statements

- `Slot.changed_field`, `Slot.changed_position`, `Slot.changed_key`, `Slot.changed_content` — each
  way of going on changes nothing but what is behind its turn
- `padded?_eq_some` — what a list is filled up with
-/

namespace KeyedText

/-! ## Fields -/

namespace Fields

variable {β : Type} {field other : Text} {slot old : Slot} {fields : Fields}

theorem get?_cons (name : Text) (entry : Text × Slot) (rest : Fields) :
    Entries.get? name (entry :: rest) =
      if entry.1 == name then some entry.2 else Entries.get? name rest := by
  rw [Entries.get?, List.find?_cons]
  split
  · next h => rw [if_pos h, Option.map_some]
  · next h => rw [if_neg (by simp [h]), Entries.get?]

/-- The fields with one of them replaced. -/
def put (field : Text) (slot : Slot) (fields : Fields) : Fields :=
  (update field () (fun _ => (slot, ())) fields).1

theorem put_cons (entry : Text × Slot) :
    put field slot (entry :: fields) =
      if entry.1 == field then (entry.1, slot) :: fields else entry :: put field slot fields := by
  rw [put, update]
  split <;> rfl

theorem update_eq_put (missing : β) (step : Slot → Slot × β)
    (h : Entries.get? field fields = some old) :
    update field missing step fields = (put field (step old).1 fields, (step old).2) := by
  induction fields with
  | nil => simp [Entries.get?] at h
  | cons entry fields ih =>
    rw [get?_cons] at h
    rw [update, put_cons]
    split
    · next heq =>
      rw [if_pos heq] at h
      rw [← Option.some.inj h]
    · next heq =>
      rw [if_neg heq] at h
      rw [ih h]

theorem update_of_missing (missing : β) (step : Slot → Slot × β)
    (h : Entries.get? field fields = none) :
    update field missing step fields = (fields, missing) := by
  induction fields with
  | nil => rfl
  | cons entry fields ih =>
    rw [get?_cons] at h
    rw [update]
    split
    · next heq => exact absurd h (by simp [heq])
    · next heq =>
      rw [if_neg heq] at h
      rw [ih h]

theorem get?_put_self (h : Entries.get? field fields = some old) :
    Entries.get? field (put field slot fields) = some slot := by
  induction fields with
  | nil => simp [Entries.get?] at h
  | cons entry fields ih =>
    rw [get?_cons] at h
    rw [put_cons]
    split
    · next heq => rw [get?_cons, if_pos heq]
    · next heq =>
      rw [if_neg heq] at h
      rw [get?_cons, if_neg heq, ih h]

theorem put_of_get? (h : Entries.get? field fields = some slot) :
    put field slot fields = fields := by
  induction fields with
  | nil => rfl
  | cons entry fields ih =>
    rw [get?_cons] at h
    rw [put_cons]
    split
    · next heq =>
      rw [if_pos heq] at h
      rw [← Option.some.inj h]
    · next heq =>
      rw [if_neg heq] at h
      rw [ih h]

theorem get?_put_of_ne (h : other ≠ field) :
    Entries.get? other (put field slot fields) = Entries.get? other fields := by
  induction fields with
  | nil => rfl
  | cons entry fields ih =>
    rw [put_cons]
    split
    · next heq =>
      have hne : ¬(entry.1 == other) = true := by
        rw [beq_iff_eq] at heq ⊢
        rw [heq]
        exact Ne.symm h
      rw [get?_cons, get?_cons, if_neg hne, if_neg hne]
    · rw [get?_cons, get?_cons, ih]

end Fields

/-! ## List positions -/

/-- A list is filled up with new items, and keeps those that it has. -/
theorem padded?_eq_some {fresh : Slot} {items padded : List Slot} {position : Nat}
    (h : padded? fresh items position = some padded) :
    position < padded.length ∧ ∀ n : Nat, padded[n]? = items[n]? ∨
      items[n]? = none ∧ (padded[n]? = some fresh ∨ padded[n]? = none) := by
  rw [padded?] at h
  split at h
  · next hlt =>
    obtain rfl := Option.some.inj h
    exact ⟨hlt, fun n => .inl rfl⟩
  · next hlt =>
    split at h
    · obtain rfl := Option.some.inj h
      refine ⟨by simp; omega, fun n => ?_⟩
      rcases Nat.lt_or_ge n items.length with hn | hn
      · exact .inl (List.getElem?_append_left hn)
      · right
        refine ⟨List.getElem?_eq_none hn, ?_⟩
        rw [List.getElem?_append_right hn, List.getElem?_replicate]
        split
        · exact .inl rfl
        · exact .inr rfl
    · exact absurd h (by simp)

theorem getElem?_padded? {fresh : Slot} {items padded : List Slot} {position : Nat}
    (h : padded? fresh items position = some padded) :
    padded[position]? = some ((items[position]?).getD fresh) := by
  obtain ⟨hlt, hpadded⟩ := padded?_eq_some h
  rcases hpadded position with heq | ⟨hnone, heq | heq⟩
  · rw [heq]
    rw [List.getElem?_eq_getElem hlt] at heq
    rw [← heq, Option.getD_some]
  · rw [heq, hnone, Option.getD_none]
  · rw [List.getElem?_eq_getElem hlt] at heq
    exact absurd heq (by simp)

/-- The position behind the last item needs one new item. -/
theorem padded?_atEnd {fresh : Slot} {items : List Slot} (h : items.length + 1 < 2 ^ 64) :
    padded? fresh items items.length = some (items ++ [fresh]) := by
  rw [padded?, if_neg (Nat.lt_irrefl _), if_pos ⟨by simp [positionGap], h⟩,
    Nat.add_sub_cancel_left]
  rfl

theorem actAt_eq {act : Act} {position : Nat} {items : List Slot} {item : Slot}
    (h : items[position]? = some item) :
    actAt act position items = (items.set position (act item).1, (act item).2) := by
  induction items generalizing position with
  | nil => simp at h
  | cons first items ih =>
    cases position with
    | zero =>
      obtain rfl : first = item := by simpa using h
      rfl
    | succ position =>
      rw [actAt, ih (by simpa using h)]
      rfl

/-! ## Map entries -/

namespace MapKind

variable {α β : Type} {key : MapKey} {entries : List (MapKey × α)}

/-- The value of a key in a map. -/
def get? (key : MapKey) (entries : List (MapKey × α)) : Option α :=
  (entries.find? fun entry => entry.1.same key).map (·.2)

theorem get?_cons (key : MapKey) (entry : MapKey × α) (entries : List (MapKey × α)) :
    get? key (entry :: entries) = if entry.1.same key then some entry.2 else get? key entries := by
  rw [get?, List.find?_cons]
  split
  · next h => rw [if_pos h, Option.map_some]
  · next h => rw [if_neg (by simp [h]), get?]

/-- An entry that is there is changed in its place. -/
theorem updateExisting?_eq (key : MapKey) (step : α → α × β) (entries : List (MapKey × α)) :
    updateExisting? key step entries = none ∧ get? key entries = none ∨
      ∃ value entries', get? key entries = some value ∧
        updateExisting? key step entries = some (entries', (step value).2) ∧
        get? key entries' = some (step value).1 ∧
        ∀ other, other.same key = false → get? other entries' = get? other entries := by
  induction entries with
  | nil => exact .inl ⟨rfl, rfl⟩
  | cons entry rest ih =>
    -- the first entry of the key is the one that is changed and the one that is found
    by_cases hentry : entry.1.same key = true
    · refine .inr ⟨entry.2, (entry.1, (step entry.2).1) :: rest, ?_, ?_, ?_, fun other hother => ?_⟩
      · rw [get?_cons, if_pos hentry]
      · rw [updateExisting?, if_pos hentry]
      · rw [get?_cons, if_pos hentry]
      · have hne : ¬entry.1.same other = true := by
          rw [MapKey.same_comm, MapKey.same_congr hentry, hother]
          simp
        rw [get?_cons, get?_cons, if_neg hne, if_neg hne]
    · rw [updateExisting?, if_neg hentry, get?_cons, if_neg hentry]
      rcases ih with ⟨hnone, hget⟩ | ⟨value, rest', hget, hupdate, hnow, hothers⟩
      · exact .inl ⟨by rw [hnone, Option.map_none], hget⟩
      · refine .inr ⟨value, entry :: rest', hget, by rw [hupdate, Option.map_some], ?_, ?_⟩
        · rw [get?_cons, if_neg hentry, hnow]
        · intro other hother
          rw [get?_cons, get?_cons, hothers other hother]

/-- A new entry takes its place among the others. -/
theorem get?_insert (kind : MapKind) (value : α) (h : get? key entries = none) :
    get? key (kind.insert key value entries) = some value ∧
      ∀ other, other.same key = false →
        get? other (kind.insert key value entries) = get? other entries := by
  have hself : key.same key = true := MapKey.same_iff.2 rfl
  have hnew : ∀ other : MapKey, other.same key = false → ¬key.same other = true := by
    intro other hother
    rw [MapKey.same_comm, hother]
    simp
  induction entries with
  | nil =>
    refine ⟨by rw [insert, get?_cons, if_pos hself], fun other hother => ?_⟩
    rw [insert, get?_cons, if_neg (hnew other hother)]
  | cons entry rest ih =>
    rw [insert]
    split
    · refine ⟨by rw [get?_cons, if_pos hself], fun other hother => ?_⟩
      rw [get?_cons, if_neg (hnew other hother)]
    · rw [get?_cons] at h
      split at h
      · exact absurd h (by simp)
      · next hentry =>
        obtain ⟨hnow, hothers⟩ := ih h
        refine ⟨by rw [get?_cons, if_neg hentry, hnow], fun other hother => ?_⟩
        rw [get?_cons, get?_cons, hothers other hother]

/-- The entries with the value of a key replaced, or added. -/
def put (kind : MapKind) (key : MapKey) (value : α) (entries : List (MapKey × α)) :
    List (MapKey × α) :=
  (kind.upsert key value (fun _ => (value, ())) entries).1

/-- What a step does to the entries, it does by what it makes of one value. -/
theorem upsert_eq_put (kind : MapKind) (key : MapKey) (start : α) (step : α → α × β)
    (entries : List (MapKey × α)) :
    kind.upsert key start step entries =
      (kind.put key (step ((get? key entries).getD start)).1 entries,
        (step ((get? key entries).getD start)).2) := by
  cases hget : get? key entries with
  | none =>
    have hmissing : ∀ {γ : Type} (step : α → α × γ), updateExisting? key step entries = none := by
      intro γ step
      rcases updateExisting?_eq key step entries with ⟨hnone, -⟩ | ⟨value, entries', hsome, -⟩
      · exact hnone
      · exact absurd hsome (by simp [hget])
    rw [put, upsert, upsert, hmissing, hmissing]
    rfl
  | some old =>
    obtain ⟨entries', hstep, hput⟩ : ∃ entries',
        updateExisting? key step entries = some (entries', (step old).2) ∧
          updateExisting? key (fun _ => ((step old).1, ())) entries = some (entries', ()) := by
      induction entries with
      | nil => simp [get?] at hget
      | cons entry rest ih =>
        rw [get?_cons] at hget
        by_cases hentry : entry.1.same key = true
        · rw [if_pos hentry] at hget
          obtain rfl := Option.some.inj hget
          exact ⟨(entry.1, (step entry.2).1) :: rest, by rw [updateExisting?, if_pos hentry],
            by rw [updateExisting?, if_pos hentry]⟩
        · rw [if_neg hentry] at hget
          obtain ⟨entries', hstep, hput⟩ := ih hget
          exact ⟨entry :: entries', by rw [updateExisting?, if_neg hentry, hstep]; rfl,
            by rw [updateExisting?, if_neg hentry, hput]; rfl⟩
    rw [Option.getD_some, put, upsert, upsert, hstep, hput]

theorem get?_put (kind : MapKind) (key : MapKey) (value : α) (entries : List (MapKey × α)) :
    get? key (kind.put key value entries) = some value ∧
      ∀ other, other.same key = false →
        get? other (kind.put key value entries) = get? other entries := by
  rw [put, upsert]
  rcases updateExisting?_eq key (fun _ => (value, ())) entries with
    ⟨hnone, hget⟩ | ⟨-, entries', -, hupdate, hnow, hothers⟩
  · rw [hnone]
    exact get?_insert kind value hget
  · rw [hupdate]
    exact ⟨hnow, hothers⟩

/-- A value that is put back leaves the entries as they were. -/
theorem put_of_get? {value : α} (h : get? key entries = some value) (kind : MapKind) :
    kind.put key value entries = entries := by
  have hupdate : updateExisting? key (fun _ => (value, ())) entries = some (entries, ()) := by
    induction entries with
    | nil => simp [get?] at h
    | cons entry rest ih =>
      rw [get?_cons] at h
      rw [updateExisting?]
      split
      · next hentry =>
        rw [if_pos hentry] at h
        rw [← Option.some.inj h]
      · next hentry =>
        rw [if_neg hentry] at h
        rw [ih h]
        rfl
  rw [put, upsert, hupdate]

end MapKind

/-! ## Changes behind one turn -/

namespace Slot

variable {schema : Schema} {child : Slot}

/-- Objects of a type, made from their fields: those that are known to be of the type, and those
whose type was chosen by a text. -/
inductive IsObject : Text → (Fields → Slot) → Prop
  | object (typeName : Text) : IsObject typeName (.object typeName)
  | dynamic (name typeName : Text) : IsObject typeName (.dynamic name typeName)

theorem IsObject.child?_field {typeName : Text} {make : Fields → Slot}
    (h : IsObject typeName make) (field : Text) (fields : Fields) :
    (make fields).child? (.field field) = Entries.get? field fields := by
  cases h <;> rfl

theorem changed_field (schema : Schema) {typeName field : Text} {make : Fields → Slot}
    (h : IsObject typeName make) {fields : Fields}
    (hwas : Entries.get? field fields = some child) (child' : Slot) :
    Changed schema (.field field) child child' (make fields)
      (make (Fields.put field child' fields)) := by
  have hother : ∀ other : Turn, other.same (.field field) = false →
      (make (Fields.put field child' fields)).child? other = (make fields).child? other := by
    intro other hne
    cases other with
    | field name =>
      rw [h.child?_field, h.child?_field]
      exact Fields.get?_put_of_ne (by simpa [Turn.same] using hne)
    | _ => cases h <;> rfl
  have hthere : (make fields).child? (.field field) = some child := by
    rw [h.child?_field, hwas]
  have hnow : (make (Fields.put field child' fields)).child? (.field field) = some child' := by
    rw [h.child?_field, Fields.get?_put_self hwas]
  refine ⟨childOrNew?_of_child? hthere, hnow, fun other hne slot h => ?_,
    fun other hne h slot h' => ?_⟩
  · rw [hother other hne, h]
  · rw [hother other hne, h] at h'
    exact absurd h' (by simp)

/-- Going on at a position changes the item there; other items are kept or new. -/
theorem changed_position {element : SlotType} {items padded : List Slot} {position : Nat}
    (h : padded? (schema.initial element) items position = some padded) (child' : Slot) :
    Changed schema (.position position) ((items[position]?).getD (schema.initial element)) child'
      (.list element items) (.list element (padded.set position child')) := by
  obtain ⟨hlt, hpadded⟩ := padded?_eq_some h
  have hne : ∀ n, (Turn.position n).same (.position position) = false → n ≠ position := by
    intro n hn
    simpa [Turn.same] using hn
  refine ⟨?_, ?_, fun other hother slot hslot => ?_, fun other hother hnone slot hslot => ?_⟩
  · rw [childOrNew?, child?, created?]
    cases items[position]? <;> rfl
  · rw [child?, List.getElem?_set_self hlt]
  · cases other with
    | position n =>
      rw [child?] at hslot ⊢
      rw [List.getElem?_set_ne (Ne.symm (hne n hother))]
      rcases hpadded n with heq | ⟨hnone, -⟩
      · rw [heq, hslot]
      · exact absurd hslot (by simp [hnone])
    | _ => exact absurd hslot (by simp [child?])
  · cases other with
    | position n =>
      rw [child?] at hnone hslot
      rw [List.getElem?_set_ne (Ne.symm (hne n hother))] at hslot
      rw [created?]
      rcases hpadded n with heq | ⟨-, heq | heq⟩
      · exact absurd hslot (by simp [heq, hnone])
      · rw [← heq, hslot]
      · exact absurd hslot (by simp [heq])
    | _ => exact absurd hslot (by simp [child?])

theorem changed_key (schema : Schema) (typeName : Text) (kind : MapKind) (keyType : KeyType)
    (element : SlotType) (key : MapKey) (entries : List (MapKey × Slot)) (child' : Slot) :
    Changed schema (.key key) ((MapKind.get? key entries).getD (schema.initial element)) child'
      (.map typeName kind keyType element entries)
      (.map typeName kind keyType element (kind.put key child' entries)) := by
  obtain ⟨hnow, hothers⟩ := MapKind.get?_put kind key child' entries
  have hother : ∀ other : Turn, other.same (.key key) = false →
      (Slot.map typeName kind keyType element (kind.put key child' entries)).child? other =
        (Slot.map typeName kind keyType element entries).child? other := by
    intro other hne
    cases other with
    | key other => exact hothers other hne
    | _ => rfl
  refine ⟨?_, hnow, fun other hne slot h => ?_, fun other hne h slot h' => ?_⟩
  · change (MapKind.get? key entries).or _ = _
    rw [created?]
    cases MapKind.get? key entries <;> rfl
  · rw [hother other hne, h]
  · rw [hother other hne, h] at h'
    exact absurd h' (by simp)

/-- The slot with another content. -/
def withContent (slot content : Slot) : Slot :=
  match slot with
  | .boxed _ => .boxed content
  | _ => .filled content

/-- The only way into an optional value or a box is to its content. -/
theorem changed_content {before : Slot} (hwas : before.childOrNew? schema .content = some child)
    (child' : Slot) : Changed schema .content child child' before (before.withContent child') := by
  have hnone : ∀ other : Turn, other.same .content = false →
      before.child? other = none ∧ (before.withContent child').child? other = none := by
    intro other hother
    rcases content_cases hwas with ⟨content, rfl, -⟩ | rfl | rfl
    all_goals
      cases other with
      | content => exact absurd hother (by simp)
      | _ => exact ⟨rfl, rfl⟩
  refine ⟨hwas, ?_, fun other hother slot h => ?_, fun other hother _ slot h => ?_⟩
  · rcases content_cases hwas with ⟨content, rfl, -⟩ | rfl | rfl <;> rfl
  · exact absurd h (by simp [(hnone other hother).1])
  · exact absurd h (by simp [(hnone other hother).2])

end Slot

/-! ## Ways through a slot -/

namespace Slot

variable {schema : Schema} {slot : Slot} {site : Site} {value : Option Text} {index : Index}
  {act : Act}

theorem enter_eq (hoption : ∀ content, slot.type ≠ .option content)
    (hboxed : ∀ content, slot.type ≠ .boxed content) (act : Act) :
    slot.enter schema act = act slot := by
  cases slot with
  | vacant content => exact absurd rfl (hoption content)
  | filled content => exact absurd rfl (hoption content.type)
  | boxed content => exact absurd rfl (hboxed content.type)
  | _ => rfl

theorem item_eq (hlist : ∀ element, slot.type ≠ .list element)
    (hmap : ∀ typeName kind keyType element, slot.type ≠ .map typeName kind keyType element) :
    slot.item schema site value index act = (slot, .skipped) := by
  cases slot with
  | list element items => exact absurd rfl (hlist element)
  | map typeName kind keyType element entries =>
    exact absurd rfl (hmap typeName kind keyType element)
  | _ => rfl

/-- A step that goes on in the fields of an object, and takes another way in other slots. -/
def inFields (go : Text → Fields → Fields × Outcome) (otherwise : Act) : Act
  | .object typeName fields => (.object typeName (go typeName fields).1, (go typeName fields).2)
  | .dynamic name typeName fields =>
    (.dynamic name typeName (go typeName fields).1, (go typeName fields).2)
  | slot => otherwise slot

theorem inFields_eq (hobject : ∀ typeName, slot.type ≠ .object typeName)
    (hdynamic : slot.type ≠ .dynamic) (go : Text → Fields → Fields × Outcome) (otherwise : Act) :
    slot.inFields go otherwise = otherwise slot := by
  cases slot with
  | object typeName fields => exact absurd rfl (hobject typeName)
  | dynamic name typeName fields => exact absurd rfl hdynamic
  | _ => rfl

theorem indexedWith_eq (act within : Act) :
    indexedWith schema site value index act within =
      enter schema (inFields (Fields.item schema site value index act within)
        (item schema site value index act)) := rfl

theorem bind_member_eq (converters : ConverterRegistry) (name : Text) (steps : List Step) :
    Slot.bind schema converters value site (.member name :: steps) =
      Slot.enter schema (Slot.inFields
        (Fields.member schema name fun type member =>
          Slot.bind schema converters value (site.into type member) steps)
        fun slot => (slot, .skipped)) := rfl

end Slot

end KeyedText
