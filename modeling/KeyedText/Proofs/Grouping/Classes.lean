import Mathlib.Data.List.Induction
import Mathlib.Data.List.Nodup

/-!
# Classes of keys

Values are collected by their keys, one after the other: a value joins the first group whose label
is the same as its key, or starts a new group. When sameness is an equivalence the groups are its
classes, each with the values of its keys, and they come in the order in which their classes were
first met.

## Main definitions

- `Classes` — groups are the classes of the keys of some items
- `Classes.add` — the groups with one more item

## Main statements

- `Classes.step`, `Classes.collect` — collecting items forms the classes of their keys
- `Classes.existsUnique` — an item is in one class only
- `Classes.find?_eq`, `Classes.filter_eq` — the class of a key
- `Classes.collect_map` — renaming keys
- `Classes.flatMap_perm` — no item is lost and none is there twice
-/

namespace KeyedText

variable {α β : Type}

/-- The position of the first item whose key is the same as a given one. -/
def firstMet (same : α → α → Bool) (items : List (α × β)) (key : α) : Nat :=
  items.findIdx fun item => same key item.1

/-- Groups are the classes of the keys of some items: a group holds the values whose keys are the
same as its label, in order; its label is the first such key; every key is the same as a label; and
the groups come in the order in which they were first met. -/
structure Classes (same : α → α → Bool) (items : List (α × β)) (groups : List (α × List β)) :
    Prop where
  members : ∀ group ∈ groups,
    group.2 = (items.filter fun item => same group.1 item.1).map Prod.snd
  label : ∀ group ∈ groups, (items.map Prod.fst).find? (same group.1) = some group.1
  covers : ∀ item ∈ items, ∃ group ∈ groups, same group.1 item.1 = true
  ordered : groups.Pairwise fun left right =>
    firstMet same items left.1 < firstMet same items right.1

namespace Classes

variable {same : α → α → Bool} {items : List (α × β)} {groups : List (α × List β)}
  {group other : α × List β} {key : α} {value : β}

/-- The groups with one more item. -/
def add (same : α → α → Bool) (key : α) (value : β) : List (α × List β) → List (α × List β)
  | [] => [(key, [value])]
  | group :: rest =>
    if same group.1 key then (group.1, group.2 ++ [value]) :: rest
    else group :: add same key value rest

/-- A group after an item that joins it if its key is the same. -/
def joined (same : α → α → Bool) (key : α) (value : β) (group : α × List β) : α × List β :=
  (group.1, if same group.1 key then group.2 ++ [value] else group.2)

theorem nil (same : α → α → Bool) : Classes same ([] : List (α × β)) [] where
  members group hgroup := absurd hgroup (by simp)
  label group hgroup := absurd hgroup (by simp)
  covers item hitem := absurd hitem (by simp)
  ordered := List.Pairwise.nil

/-! ## One more item -/

theorem add_of_none (h : ∀ group ∈ groups, same group.1 key = false) :
    add same key value groups = groups ++ [(key, [value])] := by
  induction groups with
  | nil => rfl
  | cons group groups ih =>
    rw [List.forall_mem_cons] at h
    rw [add, h.1, ih h.2]
    rfl

/-- Where no two groups are the same as a key, an item joins the one group that is. -/
theorem add_of_some (hone : groups.Pairwise fun left right =>
    same left.1 key = true → same right.1 key = false)
    (h : ∃ group ∈ groups, same group.1 key = true) :
    add same key value groups = groups.map (joined same key value) := by
  have hstays : ∀ group : α × List β, same group.1 key = false →
      joined same key value group = group := by
    intro group hgroup
    rw [joined, hgroup]
    rfl
  induction groups with
  | nil => simp at h
  | cons group groups ih =>
    rw [List.pairwise_cons] at hone
    rw [add, List.map_cons]
    by_cases hsame : same group.1 key = true
    · have hrest : groups.map (joined same key value) = groups := by
        rw [List.map_congr_left fun other hother => hstays other (hone.1 other hother hsame)]
        exact List.map_id' groups
      rw [if_pos hsame, hrest, joined, if_pos hsame]
    · have hlater : ∃ group ∈ groups, same group.1 key = true := by
        obtain ⟨found, hfound, hkey⟩ := h
        rcases List.mem_cons.1 hfound with rfl | hfound
        · exact absurd hkey hsame
        · exact ⟨found, hfound, hkey⟩
      rw [if_neg hsame, ih hone.2 hlater, hstays group (by simpa using hsame)]

/-- A class that was not met is met with the item that starts it. -/
theorem firstMet_new (hself : same key key = true) (hnone : ∀ item ∈ items, same key item.1 = false)
    (value : β) : firstMet same (items ++ [(key, value)]) key = items.length := by
  have hmissing : items.findIdx (fun item => same key item.1) = items.length :=
    List.findIdx_eq_length.2 hnone
  rw [firstMet, List.findIdx_append, hmissing]
  simp [hself]

theorem flatMap_add_perm (same : α → α → Bool) (key : α) (value : β) (groups : List (α × List β)) :
    ((add same key value groups).flatMap Prod.snd).Perm (groups.flatMap Prod.snd ++ [value]) := by
  induction groups with
  | nil => exact List.Perm.refl _
  | cons group groups ih =>
    rw [add, List.flatMap_cons, List.append_assoc]
    split
    · rw [List.flatMap_cons, List.append_assoc]
      exact List.perm_append_comm.append_left group.2
    · exact ih.append_left group.2

section

variable (hequiv : Equivalence fun left right => same left right = true)
include hequiv

/-- A key that is the same as a label is the same as no other key than the label is. -/
theorem same_congr {left right : α} (h : same left right = true) (key : α) :
    same left key = same right key := by
  rw [Bool.eq_iff_iff]
  exact ⟨hequiv.trans (hequiv.symm h), hequiv.trans h⟩

theorem eq_of_same (h : Classes same items groups) (hgroup : group ∈ groups)
    (hother : other ∈ groups) (hsame : same group.1 other.1 = true) : group = other := by
  have hnodup : (groups.map fun group => firstMet same items group.1).Nodup :=
    List.pairwise_map.2 (h.ordered.imp Nat.ne_of_lt)
  apply List.inj_on_of_nodup_map hnodup hgroup hother
  show firstMet same items group.1 = firstMet same items other.1
  simp only [firstMet, same_congr hequiv hsame]

/-- An item is in one class, and in one only. -/
theorem existsUnique (h : Classes same items groups) {item : α × β} (hitem : item ∈ items) :
    ∃! group, group ∈ groups ∧ same group.1 item.1 = true := by
  obtain ⟨group, hgroup, hkey⟩ := h.covers item hitem
  refine ⟨group, ⟨hgroup, hkey⟩, ?_⟩
  rintro other ⟨hother, hother'⟩
  exact h.eq_of_same hequiv hother hgroup (hequiv.trans hother' (hequiv.symm hkey))

/-- The labels of two classes are not the same. -/
theorem apart (h : Classes same items groups) :
    groups.Pairwise fun left right => same left.1 right.1 = false := by
  refine h.ordered.imp fun {left right} hlt => ?_
  rw [← Bool.not_eq_true]
  intro hsame
  simp only [firstMet, same_congr hequiv hsame] at hlt
  exact Nat.lt_irrefl _ hlt

/-- A class that was met is not met anew with more items behind. -/
theorem firstMet_append (h : Classes same items groups) (hgroup : group ∈ groups)
    (later : List (α × β)) :
    firstMet same (items ++ later) group.1 = firstMet same items group.1 ∧
      firstMet same items group.1 < items.length := by
  have hlt : firstMet same items group.1 < items.length := by
    obtain ⟨item, hitem, hkey⟩ := List.mem_map.1 (List.mem_of_find?_eq_some (h.label group hgroup))
    apply List.findIdx_lt_length_of_exists
    exact ⟨item, hitem, hkey ▸ hequiv.refl group.1⟩
  refine ⟨?_, hlt⟩
  rw [firstMet, List.findIdx_append]
  exact if_pos hlt

/-- An item joins its class. -/
theorem step_old (h : Classes same items groups)
    (hold : ∃ group ∈ groups, same group.1 key = true) :
    Classes same (items ++ [(key, value)]) (groups.map (joined same key value)) where
  members := by
    rw [List.forall_mem_map]
    intro group hgroup
    rw [joined, h.members group hgroup, List.filter_append, List.map_append]
    by_cases hsame : same group.1 key = true
    · simp [hsame]
    · simp [hsame]
  label := by
    rw [List.forall_mem_map]
    intro group hgroup
    rw [joined, List.map_append, List.find?_append, h.label group hgroup, Option.some_or]
  covers := by
    intro item hitem
    have hfound : ∃ group ∈ groups, same group.1 item.1 = true := by
      rcases List.mem_append.1 hitem with hitem | hitem
      · exact h.covers item hitem
      · obtain rfl := List.mem_singleton.1 hitem
        exact hold
    obtain ⟨group, hgroup, hkey⟩ := hfound
    exact ⟨joined same key value group, List.mem_map_of_mem hgroup, hkey⟩
  ordered := by
    rw [List.pairwise_map]
    refine h.ordered.imp_of_mem fun {left right} hleft hright hlt => ?_
    rw [joined, joined, (h.firstMet_append hequiv hleft _).1,
      (h.firstMet_append hequiv hright _).1]
    exact hlt

/-- An item whose key is the same as no label starts a class. -/
theorem step_new (h : Classes same items groups)
    (hnew : ∀ group ∈ groups, same group.1 key = false) :
    Classes same (items ++ [(key, value)]) (groups ++ [(key, [value])]) := by
  have hself : same key key = true := hequiv.refl key
  have hnone : ∀ item ∈ items, same key item.1 = false := by
    intro item hitem
    rw [← Bool.not_eq_true]
    intro hsame
    obtain ⟨group, hgroup, hkey⟩ := h.covers item hitem
    have hgroup' : same group.1 key = true := hequiv.trans hkey (hequiv.symm hsame)
    exact absurd hgroup' (by simp [hnew group hgroup])
  constructor
  · intro group hgroup
    rw [List.filter_append, List.map_append]
    rcases List.mem_append.1 hgroup with hgroup | hgroup
    · rw [h.members group hgroup]
      simp [hnew group hgroup]
    · obtain rfl := List.mem_singleton.1 hgroup
      have hempty : (items.filter fun item => same key item.1) = [] := by
        rw [List.filter_eq_nil_iff]
        intro item hitem
        simp [hnone item hitem]
      simp [hself, hempty]
  · intro group hgroup
    rw [List.map_append, List.find?_append]
    rcases List.mem_append.1 hgroup with hgroup | hgroup
    · rw [h.label group hgroup, Option.some_or]
    · obtain rfl := List.mem_singleton.1 hgroup
      have hempty : (items.map Prod.fst).find? (same key) = none := by
        rw [List.find?_eq_none, List.forall_mem_map]
        intro item hitem
        simp [hnone item hitem]
      simp [hself, hempty]
  · intro item hitem
    rcases List.mem_append.1 hitem with hitem | hitem
    · obtain ⟨group, hgroup, hkey⟩ := h.covers item hitem
      exact ⟨group, List.mem_append_left _ hgroup, hkey⟩
    · obtain rfl := List.mem_singleton.1 hitem
      exact ⟨(key, [value]), by simp, hself⟩
  · rw [List.pairwise_append]
    refine ⟨h.ordered.imp_of_mem fun {left right} hleft hright hlt => ?_,
      List.pairwise_singleton _ _, fun group hgroup other hother => ?_⟩
    · rw [(h.firstMet_append hequiv hleft _).1,
        (h.firstMet_append hequiv hright _).1]
      exact hlt
    · obtain rfl := List.mem_singleton.1 hother
      obtain ⟨heq, hlt⟩ := h.firstMet_append hequiv hgroup [(key, value)]
      rw [heq]
      show firstMet same items group.1 < firstMet same (items ++ [(key, value)]) key
      rw [firstMet_new hself hnone value]
      exact hlt

/-- One more item leaves the groups the classes of all items. -/
theorem step (h : Classes same items groups) (key : α) (value : β) :
    Classes same (items ++ [(key, value)]) (add same key value groups) := by
  by_cases hold : ∃ group ∈ groups, same group.1 key = true
  · have hone : groups.Pairwise fun left right =>
        same left.1 key = true → same right.1 key = false := by
      refine (h.apart hequiv).imp fun {left right} hapart hleft => ?_
      rw [← Bool.not_eq_true]
      intro hright
      have hsame : same left.1 right.1 = true := hequiv.trans hleft (hequiv.symm hright)
      exact absurd hsame (by simp [hapart])
    rw [add_of_some hone hold]
    exact h.step_old hequiv hold
  · have hnew : ∀ group ∈ groups, same group.1 key = false := by
      intro group hgroup
      rw [← Bool.not_eq_true]
      exact fun hsame => hold ⟨group, hgroup, hsame⟩
    rw [add_of_none hnew]
    exact h.step_new hequiv hnew

/-- Items that are collected one after the other end up in the classes of their keys. -/
theorem collect (items : List (α × β)) :
    Classes same items (items.foldl (fun groups item => add same item.1 item.2 groups) []) := by
  induction items using List.reverseRecOn with
  | nil => exact nil same
  | append_singleton items item ih =>
    rw [List.foldl_append, List.foldl_cons, List.foldl_nil]
    exact ih.step hequiv item.1 item.2

/-- The class of a key holds the values of all keys that are the same, if there are any. -/
theorem find?_eq (h : Classes same items groups) (key : α) :
    (groups.find? fun group => same group.1 key).map Prod.snd =
      if items.any fun item => same item.1 key then
        some ((items.filter fun item => same item.1 key).map Prod.snd)
      else none := by
  cases hfind : groups.find? fun group => same group.1 key with
  | none =>
    have hnone : ¬(items.any fun item => same item.1 key) = true := by
      rw [List.any_eq_true]
      rintro ⟨item, hitem, hkey⟩
      obtain ⟨group, hgroup, hlabel⟩ := h.covers item hitem
      exact List.find?_eq_none.1 hfind group hgroup (hequiv.trans hlabel hkey)
    rw [if_neg hnone, Option.map_none]
  | some group =>
    have hgroup : group ∈ groups := List.mem_of_find?_eq_some hfind
    have hkey : same group.1 key = true := by
      simpa using List.find?_some hfind
    have hsame : ∀ item : α × β, same group.1 item.1 = same item.1 key := by
      intro item
      rw [Bool.eq_iff_iff]
      exact ⟨fun hitem => hequiv.trans (hequiv.symm hitem) hkey,
        fun hitem => hequiv.trans hkey (hequiv.symm hitem)⟩
    have hsome : (items.any fun item => same item.1 key) = true := by
      obtain ⟨item, hitem, hlabel⟩ :=
        List.mem_map.1 (List.mem_of_find?_eq_some (h.label group hgroup))
      rw [List.any_eq_true]
      exact ⟨item, hitem, hlabel ▸ hkey⟩
    rw [if_pos hsome, Option.map_some, h.members group hgroup]
    simp only [hsame]

/-- A key has one class, labelled by the first key that is the same, or none. -/
theorem filter_eq (h : Classes same items groups) (key : α) :
    groups.filter (fun group => same group.1 key) =
      ((items.map Prod.fst).find? fun other => same other key).toList.map fun label =>
        (label, (items.filter fun item => same item.1 key).map Prod.snd) := by
  have hkeys : ∀ {group : α × List β}, same group.1 key = true →
      same group.1 = fun other => same other key := by
    intro group hkey
    funext other
    rw [same_congr hequiv hkey other, Bool.eq_iff_iff]
    exact ⟨hequiv.symm, hequiv.symm⟩
  cases hfind : (items.map Prod.fst).find? fun other => same other key with
  | none =>
    rw [Option.toList_none, List.map_nil, List.filter_eq_nil_iff]
    intro group hgroup hkey
    have hlabel := h.label group hgroup
    rw [hkeys hkey, hfind] at hlabel
    cases hlabel
  | some label =>
    have hlabel : same label key = true := by simpa using List.find?_some hfind
    obtain ⟨item, hitem, rfl⟩ := List.mem_map.1 (List.mem_of_find?_eq_some hfind)
    obtain ⟨group, hgroup, hsame⟩ := h.covers item hitem
    have hkey : same group.1 key = true := hequiv.trans hsame hlabel
    have hone : groups.filter (fun group => same group.1 key) = [group] := by
      have hnodup : groups.Nodup := .of_map (fun group => firstMet same items group.1)
        (List.pairwise_map.2 (h.ordered.imp Nat.ne_of_lt))
      rw [← List.perm_singleton, List.perm_ext_iff_of_nodup (hnodup.filter _) (by simp)]
      intro other
      rw [List.mem_filter, List.mem_singleton]
      constructor
      · rintro ⟨hother, hother'⟩
        exact h.eq_of_same hequiv hother hgroup (hequiv.trans hother' (hequiv.symm hkey))
      · rintro rfl
        exact ⟨hgroup, hkey⟩
    have hfirst := h.label group hgroup
    rw [hkeys hkey, hfind] at hfirst
    have hmembers := h.members group hgroup
    rw [hkeys hkey] at hmembers
    rw [hone, Option.toList_some, List.map_singleton, Option.some.inj hfirst, ← hmembers]

end

/-- Keys that are renamed, the same ones staying the same and others apart, make up the classes with
their labels renamed. -/
theorem collect_map {γ : Type} {same' : γ → γ → Bool} {rename : α → γ}
    (hrename : ∀ left right, same' (rename left) (rename right) = same left right)
    (items : List (α × β)) :
    (items.map fun item => (rename item.1, item.2)).foldl
        (fun groups item => add same' item.1 item.2 groups) [] =
      (items.foldl (fun groups item => add same item.1 item.2 groups) []).map fun group =>
        (rename group.1, group.2) := by
  have hadd : ∀ key (value : β) groups,
      add same' (rename key) value (groups.map fun group => (rename group.1, group.2)) =
        (add same key value groups).map fun group => (rename group.1, group.2) := by
    intro key value groups
    induction groups with
    | nil => rfl
    | cons group groups ih =>
      rw [List.map_cons, add, add, hrename]
      split
      · rfl
      · rw [ih, List.map_cons]
  induction items using List.reverseRecOn with
  | nil => rfl
  | append_singleton items item ih =>
    rw [List.map_append, List.foldl_append, List.foldl_append, ih]
    exact hadd item.1 item.2 _

/-- No item is lost and none is there twice. -/
theorem flatMap_perm (same : α → α → Bool) (items : List (α × β)) :
    ((items.foldl (fun groups item => add same item.1 item.2 groups) []).flatMap Prod.snd).Perm
      (items.map Prod.snd) := by
  induction items using List.reverseRecOn with
  | nil => exact List.Perm.refl _
  | append_singleton items item ih =>
    rw [List.foldl_append, List.foldl_cons, List.foldl_nil, List.map_append]
    exact (flatMap_add_perm same item.1 item.2 _).trans (ih.append_right [item.2])

end Classes

end KeyedText
