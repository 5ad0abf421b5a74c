import KeyedText.Proofs.Binding.Typed
import Mathlib.Data.List.Perm.Subperm

/-!
# Two runs side by side

A run over a new slot makes it what it is step by step. A second run over what came of it starts
with everything in its place: optional values are filled that the first run found vacant, lists are
long that it found short. At every moment the second run has what the first one has, and where the
first one has nothing yet, what it has at the end. Where the first run takes something back, a list
by a blank text or an optional value by an absent one, the second takes it back as well, and from
then on both have the same there.

## Main definitions

- `Slot.Replayed` — what a second run has in place of what the first one has

## Main statements

- `Slot.Hollow.replayed` — how the two runs start
- `Slot.Replayed.eq` — how they end
- `Slot.Replayed.content`, `Slot.Replayed.position`, `Slot.Replayed.key`, `Slot.Replayed.field` —
  what they have behind a turn
- `Slot.Replayed.objectDepth_le` — the second run has no fewer objects inside one another
-/

namespace KeyedText

/-- What a second run has in place of what the first run has, given what the first run has there at
the end, if anything. Both have the same, or each part of the one is so related to that part of the
other; what the first run does not have yet is as it is at the end. -/
inductive Slot.Replayed (schema : Schema) (known : Text → Prop) :
    SlotType → Option Slot → Slot → Slot → Prop
  | same {type : SlotType} {slot : Slot} (last : Option Slot)
      (typed : slot.Typed schema known type) : Replayed schema known type last slot slot
  | scalar {first last : Scalar} (type : last.type = first.type) :
      Replayed schema known (.scalar first.type) (some (.scalar last)) (.scalar first)
        (.scalar last)
  | vacant {content : SlotType} {last : Slot} (typed : last.Typed schema known content) :
      Replayed schema known (.option content) (some (.filled last)) (.vacant content)
        (.filled last)
  | filled {content : SlotType} {last first second : Slot}
      (replayed : Replayed schema known content (some last) first second) :
      Replayed schema known (.option content) (some (.filled last)) (.filled first)
        (.filled second)
  | boxed {content : SlotType} {last first second : Slot}
      (replayed : Replayed schema known content (some last) first second) :
      Replayed schema known (.boxed content) (some (.boxed last)) (.boxed first) (.boxed second)
  | list {element : SlotType} {last first second : List Slot} (static : element.Static known)
      (typed : ∀ (n : Nat) (slot : Slot), last[n]? = some slot → slot.Typed schema known element)
      (length : first.length ≤ second.length)
      (items : ∀ (n : Nat) (item other : Slot), first[n]? = some item → second[n]? = some other →
        Replayed schema known element last[n]? item other)
      (rest : ∀ n : Nat, first.length ≤ n → second[n]? = last[n]?) :
      Replayed schema known (.list element) (some (.list element last)) (.list element first)
        (.list element second)
  | map {typeName : Text} {kind : MapKind} {keyType : KeyType} {element : SlotType}
      {last first second : List (MapKey × Slot)} (static : element.Static known)
      (typed : ∀ key (slot : Slot), MapKind.get? key last = some slot →
        slot.Typed schema known element)
      (distinct : MapKind.Distinct second)
      (keys : (last.map Prod.fst).Sublist (second.map Prod.fst))
      (kept : ∀ key item, MapKind.get? key first = some item →
        ∃ other, MapKind.get? key second = some other)
      (items : ∀ key item other, MapKind.get? key first = some item →
        MapKind.get? key second = some other →
          Replayed schema known element (MapKind.get? key last) item other)
      (rest : ∀ key, MapKind.get? key first = none →
        MapKind.get? key second = MapKind.get? key last) :
      Replayed schema known (.map typeName kind keyType element)
        (some (.map typeName kind keyType element last))
        (.map typeName kind keyType element first) (.map typeName kind keyType element second)
  | object {typeName : Text} {last first second : Fields} (isKnown : known typeName)
      (names : first.map Prod.fst = (schema.find typeName).initial.map Prod.fst)
      (names' : second.map Prod.fst = (schema.find typeName).initial.map Prod.fst)
      (fields : ∀ field fresh item other,
        Entries.get? field (schema.find typeName).initial = some fresh →
          Entries.get? field first = some item → Entries.get? field second = some other →
            Replayed schema known fresh.type (Entries.get? field last) item other) :
      Replayed schema known (.object typeName) (some (.object typeName last))
        (.object typeName first) (.object typeName second)

namespace Slot

variable {schema : Schema} {known : Text → Prop} {type element : SlotType} {last : Option Slot}
  {slot first second : Slot}

/-! ## Start and end -/

/-- Without anything at the end both runs have the same. -/
theorem Replayed.of_none (h : Replayed schema known type none first second) :
    second = first ∧ first.Typed schema known type := by
  cases h with
  | same _ typed => exact ⟨rfl, typed⟩

/-- A run over what a run over a new slot came to has that where the first run has the new slot. -/
theorem Hollow.replayed (hnew : first.Hollow schema known type)
    (h : slot.Typed schema known type) : Replayed schema known type (some slot) first slot := by
  induction hnew generalizing slot with
  | scalar value =>
    generalize htype : SlotType.scalar value.type = type at h
    cases h with
    | scalar last =>
      obtain htype := SlotType.scalar.inj htype
      rw [← htype]
      exact .scalar htype.symm
    | _ => exact absurd htype (by simp)
  | vacant static =>
    cases h with
    | vacant _ => exact .same _ (.vacant static)
    | filled typed => exact .vacant typed
  | boxed _ ih =>
    cases h with
    | boxed typed => exact .boxed (ih typed)
  | list static =>
    cases h with
    | list _ typed =>
      refine .list static (fun n slot hslot => typed slot (List.mem_of_getElem? hslot))
        (Nat.zero_le _) (fun n item other hitem => ?_) fun n _ => rfl
      exact absurd hitem (by simp)
  | map static =>
    cases h with
    | map _ distinct typed =>
      refine .map static typed distinct (List.Sublist.refl _) (fun key item hitem => ?_)
        (fun key item other hitem => ?_) fun key _ => rfl
      · exact absurd hitem (by simp [MapKind.get?])
      · exact absurd hitem (by simp [MapKind.get?])
  | object isKnown names _ ih =>
    cases h with
    | object _ names' typed =>
      refine .object isKnown names names' fun field fresh item other hfresh hitem hother => ?_
      rw [hother]
      exact ih field fresh item hfresh hitem (typed field fresh other hfresh hother)

/-- When the first run is at its end, the second has nothing else. -/
theorem Replayed.eq (hschema : schema.Static known)
    (h : Replayed schema known type (some first) first second) : second = first := by
  generalize hlast : some first = last at h
  induction h with
  | same => rfl
  | scalar => exact (Option.some.inj hlast).symm
  | vacant => exact absurd hlast (by simp)
  | filled _ ih =>
    obtain rfl := Slot.filled.inj (Option.some.inj hlast)
    rw [ih rfl]
  | boxed _ ih =>
    obtain rfl := Slot.boxed.inj (Option.some.inj hlast)
    rw [ih rfl]
  | @list element last first second _ _ length _ rest ih =>
    obtain rfl := (Slot.list.inj (Option.some.inj hlast)).2
    congr 1
    refine List.ext_getElem? fun n => ?_
    cases hitem : first[n]? with
    | none => rw [rest n (List.getElem?_eq_none_iff.1 hitem), hitem]
    | some item =>
      obtain ⟨hlt, -⟩ := List.getElem?_eq_some_iff.1 hitem
      have hother : second[n]? = some second[n] := List.getElem?_eq_getElem (by omega)
      rw [hother, ih n item _ hitem hother hitem.symm]
  | @map typeName kind keyType element last first second _ _ distinct keys kept _ rest ih =>
    obtain rfl := (Slot.map.inj (Option.some.inj hlast)).2.2.2.2
    congr 1
    -- the second run has the keys of the first in their order, and no others
    have hsubset : second.map (fun entry => entry.1.rank) ⊆
        first.map (fun entry => entry.1.rank) := by
      intro rank hrank
      obtain ⟨entry, hentry, rfl⟩ := List.mem_map.1 hrank
      by_contra hmissing
      have hfirst : MapKind.get? entry.1 first = none := MapKind.get?_eq_none_iff.2 hmissing
      exact MapKind.get?_eq_none_iff.1 ((rest entry.1 hfirst).trans hfirst) hrank
    have hlength : second.length ≤ first.length := by
      simpa using (List.subperm_of_subset distinct hsubset).length_le
    have hkeys : second.map Prod.fst = first.map Prod.fst :=
      (keys.eq_of_length_le (by simpa using hlength)).symm
    refine (MapKind.eq_of_get? hkeys.symm distinct fun key other hother => ?_).symm
    cases hitem : MapKind.get? key first with
    | none =>
      rw [rest key hitem, hitem] at hother
      exact absurd hother (by simp)
    | some item => rw [ih key item other hitem hother hitem.symm]
  | @object typeName last first second isKnown names names' _ ih =>
    obtain rfl := (Slot.object.inj (Option.some.inj hlast)).2
    congr 1
    have hnodup : (first.map Prod.fst).Nodup := names ▸ (hschema typeName isKnown).fieldNames
    refine Fields.eq_of_get? (names'.trans names.symm) hnodup fun field hfield => ?_
    obtain ⟨item, hitem⟩ := Entries.exists_get?_of_mem hfield
    obtain ⟨other, hother⟩ := Entries.exists_get? (names'.trans names.symm) hitem
    obtain ⟨fresh, hfresh⟩ := Entries.exists_get? names.symm hitem
    rw [hitem, hother, ih field fresh item other hfresh hitem hother hitem.symm]

/-! ## Types and depths -/

theorem Replayed.type_eq (h : Replayed schema known type last first second) :
    first.type = type ∧ second.type = type := by
  induction h with
  | same _ typed => exact ⟨typed.type_eq, typed.type_eq⟩
  | scalar type => exact ⟨rfl, congrArg SlotType.scalar type⟩
  | vacant typed => exact ⟨rfl, congrArg SlotType.option typed.type_eq⟩
  | filled _ ih => exact ⟨congrArg SlotType.option ih.1, congrArg SlotType.option ih.2⟩
  | boxed _ ih => exact ⟨congrArg SlotType.boxed ih.1, congrArg SlotType.boxed ih.2⟩
  | list | map | object => exact ⟨rfl, rfl⟩

theorem Replayed.static (h : Replayed schema known type last first second) :
    type.Static known := by
  induction h with
  | same _ typed | vacant typed => exact typed.static
  | scalar => trivial
  | filled _ ih | boxed _ ih => exact ih
  | list static | map static => exact static
  | object isKnown => exact isKnown

theorem objectDepthOfFields_le_iff {fields : Fields} {depth : Nat} :
    objectDepthOfFields fields ≤ depth ↔ ∀ entry ∈ fields, entry.2.objectDepth ≤ depth := by
  induction fields with
  | nil => simp [objectDepthOfFields]
  | cons entry fields ih =>
    rw [objectDepthOfFields, Nat.max_le, ih, List.forall_mem_cons]

/-- The second run has no fewer objects inside one another. -/
theorem Replayed.objectDepth_le (hschema : schema.Static known)
    (h : Replayed schema known type last first second) :
    first.objectDepth ≤ second.objectDepth := by
  induction h with
  | same => exact Nat.le_refl _
  | filled _ ih | boxed _ ih =>
    simpa only [objectDepth] using ih
  | @object typeName last first second isKnown names names' _ ih =>
    rw [objectDepth, objectDepth]
    refine Nat.add_le_add_left (objectDepthOfFields_le_iff.2 fun entry hentry => ?_) 1
    have hnodup : (first.map Prod.fst).Nodup := names ▸ (hschema typeName isKnown).fieldNames
    have hitem := Entries.get?_of_mem hnodup hentry
    obtain ⟨other, hother⟩ := Entries.exists_get? (names'.trans names.symm) hitem
    obtain ⟨fresh, hfresh⟩ := Entries.exists_get? names.symm hitem
    have hle := objectDepthOfFields_le_iff.1 (Nat.le_refl _) _ (Entries.mem_of_get? hother)
    exact (ih entry.1 fresh entry.2 other hfresh hitem hother).trans hle
  | _ => exact Nat.zero_le _

/-! ## Behind a turn -/

/-- Optional values and boxes: their contents, or new ones. -/
theorem Replayed.content (hschema : schema.Static known) (content : SlotType)
    (h : Replayed schema known type last first second)
    (htype : type = .option content ∨ type = .boxed content) :
    ∃ item other last', first.childOrNew? schema .content = some item ∧
      second.childOrNew? schema .content = some other ∧
      Replayed schema known content last' item other ∧
      ∀ item' other', Replayed schema known content last' item' other' →
        Replayed schema known type last (first.withContent item') (second.withContent other') := by
  rcases htype with rfl | rfl
  · cases h with
    | same _ typed =>
      cases typed with
      | vacant static =>
        refine ⟨_, _, none, rfl, rfl, .same _ (typed_initial hschema static), fun _ _ h => ?_⟩
        obtain ⟨rfl, typed'⟩ := h.of_none
        exact .same _ (.filled typed')
      | filled typed =>
        refine ⟨_, _, none, rfl, rfl, .same _ typed, fun _ _ h => ?_⟩
        obtain ⟨rfl, typed'⟩ := h.of_none
        exact .same _ (.filled typed')
    | vacant typed =>
      have hnew := hollow_initial hschema typed.static
      exact ⟨_, _, _, rfl, rfl, hnew.replayed typed, fun _ _ => .filled⟩
    | filled replayed => exact ⟨_, _, _, rfl, rfl, replayed, fun _ _ => .filled⟩
  · cases h with
    | same _ typed =>
      cases typed with
      | boxed typed =>
        refine ⟨_, _, none, rfl, rfl, .same _ typed, fun _ _ h => ?_⟩
        obtain ⟨rfl, typed'⟩ := h.of_none
        exact .same _ (.boxed typed')
    | boxed replayed => exact ⟨_, _, _, rfl, rfl, replayed, fun _ _ => .boxed⟩

theorem length_padded? {fresh : Slot} {items padded : List Slot} {position : Nat}
    (h : padded? fresh items position = some padded) :
    padded.length = max items.length (position + 1) := by
  rw [padded?] at h
  split at h
  · obtain rfl := Option.some.inj h
    omega
  · split at h
    · obtain rfl := Option.some.inj h
      rw [List.length_append, List.length_replicate]
      omega
    · exact absurd h (by simp)

theorem eq_of_padded? {fresh : Slot} {items padded : List Slot} {position n : Nat}
    (h : padded? fresh items position = some padded) (hslot : padded[n]? = some slot) :
    slot = (items[n]?).getD fresh := by
  rcases (padded?_eq_some h).2 n with hold | ⟨hnone, hnew | hnothing⟩
  · rw [← hold, hslot, Option.getD_some]
  · rw [hnone, Option.getD_none]
    exact Option.some.inj (hslot.symm.trans hnew)
  · exact absurd hslot (by simp [hnothing])

/-- A longer list needs no more new items. -/
theorem exists_padded? {fresh : Slot} {items others padded : List Slot} {position : Nat}
    (hlength : items.length ≤ others.length) (h : padded? fresh items position = some padded) :
    ∃ padded', padded? fresh others position = some padded' := by
  rw [padded?] at h ⊢
  by_cases hother : position < others.length
  · exact ⟨_, if_pos hother⟩
  · have hitem : ¬position < items.length := by omega
    rw [if_neg hother]
    rw [if_neg hitem] at h
    split at h
    · exact ⟨_, if_pos (by omega)⟩
    · exact absurd h (by simp)

/-- Lists: the items at a position, or new ones. -/
theorem Replayed.position (hschema : schema.Static known)
    (h : Replayed schema known (.list element) last first second) :
    ∃ items others, first = .list element items ∧ second = .list element others ∧
      ∀ n padded, padded? (schema.initial element) items n = some padded →
        ∃ padded' last', padded? (schema.initial element) others n = some padded' ∧
          Replayed schema known element last' ((items[n]?).getD (schema.initial element))
            ((others[n]?).getD (schema.initial element)) ∧
          ∀ item' other', Replayed schema known element last' item' other' →
            Replayed schema known (.list element) last (.list element (padded.set n item'))
              (.list element (padded'.set n other')) := by
  cases h with
  | same _ typed =>
    cases typed with
    | @list _ items static typed =>
      refine ⟨items, items, rfl, rfl, fun n padded hroom => ⟨padded, none, hroom, ?_, ?_⟩⟩
      · refine .same _ ?_
        cases hitem : items[n]? with
        | none => exact typed_initial hschema static
        | some item => exact typed item (List.mem_of_getElem? hitem)
      · intro item' other' h
        obtain ⟨rfl, typed'⟩ := h.of_none
        exact .same _ (Typed.position hschema (.list static typed) hroom typed')
  | @list _ final items others static typed length replayed rest =>
    refine ⟨items, others, rfl, rfl, fun n padded hroom => ?_⟩
    obtain ⟨padded', hroom'⟩ := exists_padded? length hroom
    -- what the first run lacks is new there, and as at the end in the second
    have hbehind : ∀ k : Nat, Replayed schema known element final[k]?
        ((items[k]?).getD (schema.initial element))
        ((others[k]?).getD (schema.initial element)) := by
      intro k
      cases hitem : items[k]? with
      | some item =>
        obtain ⟨hlt, -⟩ := List.getElem?_eq_some_iff.1 hitem
        have hother : others[k]? = some others[k] := List.getElem?_eq_getElem (by omega)
        rw [hother]
        exact replayed k item _ hitem hother
      | none =>
        rw [rest k (List.getElem?_eq_none_iff.1 hitem)]
        cases hfinal : final[k]? with
        | none => exact .same _ (typed_initial hschema static)
        | some slot => exact (hollow_initial hschema static).replayed (typed k slot hfinal)
    refine ⟨padded', final[n]?, hroom', hbehind n, fun item' other' h => ?_⟩
    have hlength := length_padded? hroom
    have hlength' := length_padded? hroom'
    refine .list static typed ?_ (fun k item other hitem hother => ?_) fun k hk => ?_
    · rw [List.length_set, List.length_set]
      omega
    · by_cases hsame : k = n
      · subst hsame
        rw [List.getElem?_set_self (by omega)] at hitem hother
        rwa [← Option.some.inj hitem, ← Option.some.inj hother]
      · rw [List.getElem?_set_ne (Ne.symm hsame)] at hitem hother
        rw [eq_of_padded? hroom hitem, eq_of_padded? hroom' hother]
        exact hbehind k
    · rw [List.length_set] at hk
      rw [List.getElem?_set_ne (by omega), ← rest k (by omega)]
      rcases (padded?_eq_some hroom').2 k with hold | ⟨hnone, -⟩
      · exact hold
      · have hbeyond := List.getElem?_eq_none_iff.1 hnone
        rw [hnone, List.getElem?_eq_none_iff]
        omega

/-- Maps: the values of a key, or new ones. -/
theorem Replayed.key (hschema : schema.Static known) {typeName : Text} {kind : MapKind}
    {keyType : KeyType}
    (h : Replayed schema known (.map typeName kind keyType element) last first second) :
    ∃ items others, first = .map typeName kind keyType element items ∧
      second = .map typeName kind keyType element others ∧
      ∀ key, ∃ last', Replayed schema known element last'
          ((MapKind.get? key items).getD (schema.initial element))
          ((MapKind.get? key others).getD (schema.initial element)) ∧
        ∀ item' other', Replayed schema known element last' item' other' →
          Replayed schema known (.map typeName kind keyType element) last
            (.map typeName kind keyType element (kind.put key item' items))
            (.map typeName kind keyType element (kind.put key other' others)) := by
  cases h with
  | same _ typed =>
    cases typed with
    | @map _ _ _ _ items static distinct typed =>
      refine ⟨items, items, rfl, rfl, fun key => ⟨none, ?_, ?_⟩⟩
      · refine .same _ ?_
        cases hitem : MapKind.get? key items with
        | none => exact typed_initial hschema static
        | some item => exact typed key item hitem
      · intro item' other' h
        obtain ⟨rfl, typed'⟩ := h.of_none
        exact .same _ (Typed.key (.map static distinct typed) typed' key)
  | @map _ _ _ _ final items others static typed distinct keys kept replayed rest =>
    refine ⟨items, others, rfl, rfl, fun key => ⟨MapKind.get? key final, ?_, ?_⟩⟩
    · cases hitem : MapKind.get? key items with
      | some item =>
        obtain ⟨other, hother⟩ := kept key item hitem
        rw [hother]
        exact replayed key item other hitem hother
      | none =>
        rw [rest key hitem]
        cases hfinal : MapKind.get? key final with
        | none => exact .same _ (typed_initial hschema static)
        | some slot => exact (hollow_initial hschema static).replayed (typed key slot hfinal)
    · intro item' other' h
      refine .map static typed (distinct.put kind key other')
        (MapKind.sublist_put keys kind key other') (fun place item hitem => ?_)
        (fun place item other hitem hother => ?_) fun place hitem => ?_
      · rw [MapKind.get?_put_eq] at hitem ⊢
        by_cases hsame : place.same key = true
        · exact ⟨other', if_pos hsame⟩
        · rw [if_neg hsame] at hitem ⊢
          exact kept place item hitem
      · rw [MapKind.get?_put_eq] at hitem hother
        by_cases hsame : place.same key = true
        · rw [if_pos hsame] at hitem hother
          rwa [MapKind.get?_of_same hsame, ← Option.some.inj hitem, ← Option.some.inj hother]
        · rw [if_neg hsame] at hitem hother
          exact replayed place item other hitem hother
      · rw [MapKind.get?_put_eq] at hitem ⊢
        by_cases hsame : place.same key = true
        · exact absurd hitem (by simp [hsame])
        · rw [if_neg hsame] at hitem ⊢
          exact rest place hitem

/-- Objects: the slots of a field, which both or none of them have. -/
theorem Replayed.field {typeName : Text}
    (h : Replayed schema known (.object typeName) last first second) :
    ∃ items others, first = .object typeName items ∧ second = .object typeName others ∧
      ∀ field, Entries.get? field items = none ∧ Entries.get? field others = none ∨
        ∃ item other fresh last', Entries.get? field items = some item ∧
          Entries.get? field others = some other ∧
          Replayed schema known (Slot.type fresh) last' item other ∧
          ∀ item' other', Replayed schema known fresh.type last' item' other' →
            Replayed schema known (.object typeName) last
              (.object typeName (Fields.put field item' items))
              (.object typeName (Fields.put field other' others)) := by
  cases h with
  | same _ typed =>
    cases typed with
    | @object _ items isKnown names typed =>
      refine ⟨items, items, rfl, rfl, fun field => ?_⟩
      cases hitem : Entries.get? field items with
      | none => exact .inl ⟨rfl, rfl⟩
      | some item =>
        obtain ⟨fresh, hfresh⟩ := Entries.exists_get? names.symm hitem
        refine .inr ⟨item, item, fresh, none, rfl, rfl,
          .same _ (typed field fresh item hfresh hitem), fun item' other' h => ?_⟩
        obtain ⟨rfl, typed'⟩ := h.of_none
        exact .same _ (Typed.field (.object isKnown names typed) hitem hfresh typed')
  | @object _ final items others isKnown names names' fields =>
    refine ⟨items, others, rfl, rfl, fun field => ?_⟩
    cases hitem : Entries.get? field items with
    | none =>
      refine .inl ⟨rfl, ?_⟩
      by_contra hother
      obtain ⟨other, hother⟩ := Option.ne_none_iff_exists'.1 hother
      obtain ⟨item, hitem'⟩ := Entries.exists_get? (names.trans names'.symm) hother
      exact absurd hitem' (by simp [hitem])
    | some item =>
      obtain ⟨other, hother⟩ := Entries.exists_get? (names'.trans names.symm) hitem
      obtain ⟨fresh, hfresh⟩ := Entries.exists_get? names.symm hitem
      refine .inr ⟨item, other, fresh, _, rfl, hother,
        fields field fresh item other hfresh hitem hother, fun item' other' h => ?_⟩
      refine .object isKnown (Fields.names_put.trans names) (Fields.names_put.trans names') ?_
      intro place fresh' item'' other'' hfresh' hitem'' hother''
      by_cases hsame : place = field
      · subst hsame
        rw [Fields.get?_put_self hitem] at hitem''
        rw [Fields.get?_put_self hother] at hother''
        obtain rfl := Option.some.inj (hfresh.symm.trans hfresh')
        rwa [← Option.some.inj hitem'', ← Option.some.inj hother'']
      · rw [Fields.get?_put_of_ne hsame] at hitem'' hother''
        exact fields place fresh' item'' other'' hfresh' hitem'' hother''

/-- Both runs take back the same. -/
theorem Replayed.clear (h : Replayed schema known type last first second) :
    Replayed schema known type last first.clear second.clear := by
  induction h with
  | same _ typed => exact .same _ typed.clear
  | scalar type => exact .scalar type
  | vacant typed =>
    rw [clear_filled, typed.type_eq]
    exact .same _ (.vacant typed.static)
  | filled replayed =>
    rw [clear_filled, clear_filled, replayed.type_eq.1, replayed.type_eq.2]
    exact .same _ (.vacant replayed.static)
  | boxed _ ih => exact .boxed ih
  | list static typed length items rest => exact .list static typed length items rest
  | @map typeName kind _ _ _ _ _ static typed distinct keys kept items rest =>
    cases kind with
    | gated closed => exact .same _ (.map static List.nodup_nil (by simp [MapKind.get?]))
    | _ => exact .map static typed distinct keys kept items rest
  | object isKnown names names' fields => exact .object isKnown names names' fields

end Slot

end KeyedText
