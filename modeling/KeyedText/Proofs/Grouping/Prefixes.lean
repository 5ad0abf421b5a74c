import KeyedText.Proofs.Binding.SetGet
import KeyedText.Proofs.Grouping.Groups
import KeyedText.Proofs.Key.Suffixed

/-!
# Groups and the keys that address them

A group can also be addressed by a key of its own, the key of the groups with the label of the group
as one more index. Dividing pairs into groups looks at names and at the text of one index; a key
selects pairs by the tokens of all indices of its parts. Where parts have one index at most, and
indices with the same tokens have the same text, both select the same pairs in the same order.
Populating the groups is then populating one object after the other.

## Main definitions

- `groupPath` — the text of the key that addresses a group

## Main statements

- `Routed.ofPair?_filter` — a pair belongs to a group when the key of the group leads to it
- `Grouping.bindAll_eq` — an object after the pairs of a group is one populated under its key
- `Grouping.populate_eq_each` — populating groups is populating one object for each
-/

namespace KeyedText

/-- The text of the key that addresses a group, from that of the key of all groups. -/
def groupPath (path : Text) : GroupKey → Text
  | none => path
  | some label => path ++ ('[' :: label ++ [']'])

/-- The parts that decide the groups of some pairs. -/
def KeyPath.groupingParts (under : KeyPath) (pairs : List Pair) : List KeyPart :=
  pairs.filterMap fun pair => under.groupingPart? pair.key

variable {schema : Schema} {options : BindOptions} {path text : Text} {last part : KeyPart}
  {pair : Pair} {pairs : List Pair} {key : GroupKey} {make : GroupKey → Object}
  {entries : GroupKey → List Routed}

/-! ## Keys of groups -/

theorem KeyPath.stripParts?_concat (scope parts : List KeyPart) (last : KeyPart) :
    stripParts? (scope ++ [last]) parts =
      match stripParts? scope parts with
      | some (part :: rest) => if part.same last then some rest else none
      | _ => none := by
  induction scope generalizing parts with
  | nil =>
    cases parts with
    | nil => rfl
    | cons part rest => rfl
  | cons first scope ih =>
    cases parts with
    | nil => rfl
    | cons part rest =>
      rw [List.cons_append, stripParts?, stripParts?]
      by_cases hsame : part.same first = true
      · rw [if_pos hsame, if_pos hsame, ih]
      · rw [if_neg hsame, if_neg hsame]

theorem KeyPart.same_iff {left right : KeyPart} : left.same right = true ↔
    left.hasName right.name = true ∧
      left.indices.map Index.tokens = right.indices.map Index.tokens := by
  rw [same, beq_iff_eq, identity, identity, Prod.mk.injEq, hasName, beq_iff_eq, folded, folded]

theorem KeyPath.suffix_of_stripParts? {scope parts rest : List KeyPart}
    (h : stripParts? scope parts = some rest) : rest <:+ parts := by
  induction scope generalizing parts with
  | nil =>
    obtain rfl := Option.some.inj h
    exact List.suffix_rfl
  | cons first scope ih =>
    cases parts with
    | nil => exact absurd h (by simp [stripParts?])
    | cons part parts =>
      rw [stripParts?] at h
      split at h
      · exact (ih h).trans (List.suffix_cons part parts)
      · exact absurd h (by simp)

theorem KeyPath.mem_of_groupingPart? {under key : KeyPath}
    (h : under.groupingPart? key = some part) : part ∈ key.parts := by
  rw [groupingPart?] at h
  split at h
  · next found rest hstrip =>
    have hfound : found = part := by
      split at h
      · split at h
        · exact Option.some.inj h
        · exact absurd h (by simp)
      · exact Option.some.inj h
    rw [← hfound]
    exact (suffix_of_stripParts? hstrip).subset (by simp)
  · exact absurd h (by simp)

/-- Parts with one index at most ask for the same group when their indices have the same tokens. -/
theorem KeyPart.groupKey_eq_iff {part other : KeyPart} (hone : part.indices.length ≤ 1)
    (hone' : other.indices.length ≤ 1) (hlegible : ∀ i ∈ part.indices, i.Legible)
    (hlegible' : ∀ j ∈ other.indices, j.Legible)
    (hspelled : ∀ i ∈ part.indices, ∀ j ∈ other.indices, i.same j = true → i.text = j.text) :
    part.groupKey = other.groupKey ↔
      part.indices.map Index.tokens =
        (other.groupKey.toList.map Index.ofText).map Index.tokens := by
  obtain ⟨name, indices⟩ := part
  obtain ⟨name', indices'⟩ := other
  rcases indices with _ | ⟨i, _ | ⟨second, rest⟩⟩
  · rcases indices' with _ | ⟨j, rest'⟩
    · simp [groupKey]
    · simp [groupKey]
  · rcases indices' with _ | ⟨j, _ | ⟨second', rest'⟩⟩
    · simp [groupKey]
    · have hi := (hlegible i (by simp)).ofText_text
      have hj := (hlegible' j (by simp)).ofText_text
      have hsame := hspelled i (by simp) j (by simp)
      rw [Index.same, beq_iff_eq] at hsame
      simp only [groupKey, List.head?_cons, Option.map_some, Option.some.injEq, Option.toList_some,
        List.map_cons, List.map_nil, hj, List.cons.injEq, and_true]
      refine ⟨fun htext => ?_, hsame⟩
      rw [← hi, ← hj, htext]
    · exact absurd hone' (by simp)
  · exact absurd hone (by simp)

/-- The key of a group ends with the label of the group, if it has one. -/
theorem parts_groupPath (hlast : (KeyPath.ofText path).parts.getLast? = some last)
    (hplain : last.indices = []) (hkey : ∀ label, key = some label → Bracket.Sealed ']' 0 label) :
    (KeyPath.ofText (groupPath path key)).parts =
      (KeyPath.ofText path).parts.dropLast ++ [⟨last.name, key.toList.map Index.ofText⟩] := by
  cases key with
  | none =>
    have hconcat := List.dropLast_append_getLast? last hlast
    rw [groupPath, Option.toList_none, List.map_nil, ← hplain]
    exact hconcat.symm
  | some label => exact KeyPath.parts_append_index hlast hplain (hkey label rfl)

/-! ## Pairs of one group -/

/-- A pair belongs to a group when the key of the group leads to it, and it goes on behind that. -/
theorem Routed.ofPair?_filter (hlast : (KeyPath.ofText path).parts.getLast? = some last)
    (hplain : last.indices = []) (hkey : ∀ label, key = some label → Bracket.Sealed ']' 0 label)
    (hpart : ∀ part, (KeyPath.ofText path).groupingPart? pair.key = some part →
      part.indices.length ≤ 1 ∧
        (part.groupKey = key ↔ part.indices.map Index.tokens =
          (key.toList.map Index.ofText).map Index.tokens)) :
    (Routed.ofPair? (KeyPath.ofText path).parts.dropLast (KeyPath.ofText path).parts.getLast?
        pair).filter (·.group == key) =
      ((KeyPath.ofText (groupPath path key)).stripPrefix? pair.key).map fun tail =>
        ⟨key, pair, stepsOf tail⟩ := by
  rw [KeyPath.stripPrefix?, parts_groupPath hlast hplain hkey, KeyPath.stripParts?_concat,
    Routed.ofPair?, hlast]
  rw [KeyPath.groupingPart?, hlast] at hpart
  generalize KeyPath.stripParts? (KeyPath.ofText path).parts.dropLast pair.key.parts = found
    at hpart ⊢
  rcases found with _ | _ | ⟨part, rest⟩
  · rfl
  · rfl
  · dsimp only at hpart ⊢
    by_cases hname : part.hasName last.name = true
    · rw [if_pos hname] at hpart
      obtain ⟨hlength, hgroup⟩ := hpart part rfl
      have hdrop : part.indices.drop 1 = [] := List.drop_eq_nil_of_le hlength
      rw [if_pos hname, hdrop, List.map_nil, List.nil_append]
      by_cases hsame : part.groupKey = key
      · have hequal : part.same ⟨last.name, key.toList.map Index.ofText⟩ = true :=
          KeyPart.same_iff.2 ⟨hname, hgroup.1 hsame⟩
        rw [if_pos hequal, Option.map_some, ← hsame]
        exact Option.filter_some_pos (by simp [KeyPart.groupKey])
      · have hdiffer : ¬part.same ⟨last.name, key.toList.map Index.ofText⟩ = true :=
          fun h => hsame (hgroup.2 (KeyPart.same_iff.1 h).2)
        rw [if_neg hdiffer, Option.map_none]
        exact Option.filter_some_neg (by simpa [KeyPart.groupKey] using hsame)
    · have hdiffer : ¬part.same ⟨last.name, key.toList.map Index.ofText⟩ = true :=
        fun h => hname (KeyPart.same_iff.1 h).1
      rw [if_neg hname, if_neg hdiffer]
      rfl

namespace Grouping

theorem labels_eq_eraseDups (keys : List GroupKey) : labels keys = keys.eraseDups := by
  induction keys using List.reverseRecOn with
  | nil => rfl
  | append_singleton keys key ih =>
    rw [labels_concat, List.eraseDups_append, ih, List.removeAll]
    by_cases hmem : key ∈ keys
    · simp [hmem]
    · simp [hmem, List.eraseDups_cons]

/-- The labels of the groups are those of the parts that decide them. -/
theorem labels_ofPairs (under : KeyPath) (pairs : List Pair) :
    labels ((Routed.ofPairs under pairs).map Routed.group) =
      ((under.groupingParts pairs).map KeyPart.groupKey).eraseDups := by
  have hrouted := congrArg (List.map Prod.fst) (Routed.ofPairs_eq under pairs)
  rw [List.map_map, List.map_filterMap] at hrouted
  rw [labels_eq_eraseDups, KeyPath.groupingParts, List.map_filterMap]
  congr 1
  simpa [Function.comp_def, Option.map_map] using hrouted

/-- An object after the pairs that a key leads to is the object populated under the key. -/
theorem bindAll_eq (under : KeyPath) (key : GroupKey) (pairs : List Pair) (target : Object) :
    bindAll schema options (pairs.filterMap fun pair =>
        (under.stripPrefix? pair.key).map fun tail => ⟨key, pair, stepsOf tail⟩) target =
      match (target.populate schema options under pairs).2 with
      | none => .ok (target.populate schema options under pairs).1
      | some fault => .error fault := by
  induction pairs generalizing target with
  | nil => rfl
  | cons pair pairs ih =>
    rw [Object.populate]
    cases hstrip : under.stripPrefix? pair.key with
    | none =>
      rw [List.filterMap_cons_none (by rw [hstrip, Option.map_none])]
      exact ih target
    | some tail =>
      rw [List.filterMap_cons_some (by rw [hstrip, Option.map_some]), bindAll]
      dsimp only
      rcases target.bind schema options pair (stepsOf tail) with ⟨after, _ | _ | fault⟩
      · exact ih after
      · exact ih after
      · rfl

/-! ## Objects of groups -/

/-- When every group can be bound, there is an object for each. -/
theorem populate_of_ok {done : GroupKey → Object} {keys : List GroupKey}
    (h : ∀ key ∈ keys, bindAll schema options (entries key) (make key) = .ok (done key)) :
    populate schema options make (keys.map fun key => (key, entries key)) =
      ⟨keys, .ok (keys.map fun key => (key, done key))⟩ := by
  induction keys with
  | nil => rfl
  | cons key keys ih =>
    rw [List.forall_mem_cons] at h
    rw [List.map_cons, populate, h.1]
    dsimp only
    rw [ih h.2]
    rfl

/-- The first group that cannot be bound ends the run, and no object is made behind it. -/
theorem populate_of_error {earlier later : List GroupKey} {fault : BindFault}
    (done : GroupKey → Object)
    (h : ∀ other ∈ earlier, bindAll schema options (entries other) (make other) = .ok (done other))
    (hfault : bindAll schema options (entries key) (make key) = .error fault) :
    populate schema options make ((earlier ++ key :: later).map fun key => (key, entries key)) =
      ⟨earlier ++ [key], .error fault⟩ := by
  induction earlier with
  | nil =>
    rw [List.nil_append, List.map_cons, populate, hfault]
    rfl
  | cons other earlier ih =>
    rw [List.forall_mem_cons] at h
    rw [List.cons_append, List.map_cons, populate, h.1]
    dsimp only
    rw [ih h.2]
    rfl

/-- The pairs of a group are those that its key leads to, where the parts that decide the groups
have one index at most and no two spellings of it. -/
theorem filter_ofPairs (text : Text) (hlast : (KeyPath.ofText path).parts.getLast? = some last)
    (hplain : last.indices = [])
    (hone : ∀ part ∈ (KeyPath.ofText path).groupingParts (Content.ofText text).pairs,
      part.indices.length ≤ 1)
    (hspelled : ∀ left ∈ (KeyPath.ofText path).groupingParts (Content.ofText text).pairs,
      ∀ right ∈ (KeyPath.ofText path).groupingParts (Content.ofText text).pairs,
        ∀ i ∈ left.indices, ∀ j ∈ right.indices, i.same j = true → i.text = j.text)
    (hkey : key ∈ ((KeyPath.ofText path).groupingParts (Content.ofText text).pairs).map
      KeyPart.groupKey) :
    (Routed.ofPairs (KeyPath.ofText path) (Content.ofText text).pairs).filter (·.group == key) =
      (Content.ofText text).pairs.filterMap fun pair =>
        ((KeyPath.ofText (groupPath path key)).stripPrefix? pair.key).map fun tail =>
          ⟨key, pair, stepsOf tail⟩ := by
  have hlegible : ∀ part ∈ (KeyPath.ofText path).groupingParts (Content.ofText text).pairs,
      ∀ index ∈ part.indices, index.Legible := by
    intro part hpart
    obtain ⟨pair, hpair, hfound⟩ := List.mem_filterMap.1 hpart
    exact Content.legible_indices text pair hpair part (KeyPath.mem_of_groupingPart? hfound)
  obtain ⟨other, hother, rfl⟩ := List.mem_map.1 hkey
  have hclosed : ∀ label, other.groupKey = some label → Bracket.Sealed ']' 0 label := by
    intro label hlabel
    obtain ⟨index, hindex, rfl⟩ := Option.map_eq_some_iff.1 hlabel
    exact (hlegible other hother index (List.mem_of_mem_head? hindex)).closed
  rw [Routed.ofPairs, List.filter_filterMap]
  refine List.filterMap_congr fun pair hpair => ?_
  refine Routed.ofPair?_filter hlast hplain hclosed fun part hfound => ?_
  have hpart : part ∈ (KeyPath.ofText path).groupingParts (Content.ofText text).pairs :=
    List.mem_filterMap.2 ⟨pair, hpair, hfound⟩
  exact ⟨hone part hpart, KeyPart.groupKey_eq_iff (hone part hpart) (hone other hother)
    (hlegible part hpart) (hlegible other hother) (hspelled part hpart other hother)⟩

/-- **Populating groups is populating one object for each.** Take the pairs of a source and a key
that ends without an index, where the parts that decide the groups have one index at most, and
indices that are the same have one text. Then the groups bear the labels of these parts, each once
and in the order in which they were met. If every object can be populated with the pairs under the
key of its group, populating the groups gives these objects with their labels. Otherwise the first
fault ends it, and objects were made for the groups up to that one, once for each. -/
theorem populate_eq_each (schema : Schema) (options : BindOptions) (make : GroupKey → Object)
    (text : Text) (hlast : (KeyPath.ofText path).parts.getLast? = some last)
    (hplain : last.indices = [])
    (hone : ∀ part ∈ (KeyPath.ofText path).groupingParts (Content.ofText text).pairs,
      part.indices.length ≤ 1)
    (hspelled : ∀ left ∈ (KeyPath.ofText path).groupingParts (Content.ofText text).pairs,
      ∀ right ∈ (KeyPath.ofText path).groupingParts (Content.ofText text).pairs,
        ∀ i ∈ left.indices, ∀ j ∈ right.indices, i.same j = true → i.text = j.text) :
    let pairs := (Content.ofText text).pairs
    let keys := (((KeyPath.ofText path).groupingParts pairs).map KeyPart.groupKey).eraseDups
    let each := fun key =>
      (make key).populate schema options (KeyPath.ofText (groupPath path key)) pairs
    let result := (ofPairs none (KeyPath.ofText path) pairs).populate schema options make
    ((∀ key ∈ keys, (each key).2 = none) →
        result = ⟨keys, .ok (keys.map fun key => (key, (each key).1))⟩) ∧
      ∀ earlier key later fault, keys = earlier ++ key :: later →
        (∀ other ∈ earlier, (each other).2 = none) → (each key).2 = some fault →
          result = ⟨earlier ++ [key], .error fault⟩ := by
  intro pairs keys each result
  let entries := fun key =>
    (Routed.ofPairs (KeyPath.ofText path) pairs).filter (·.group == key)
  have hgroups : result =
      populate schema options make (keys.map fun key => (key, entries key)) := by
    show populate schema options make (ofLabels (Routed.ofPairs (KeyPath.ofText path) pairs)) = _
    rw [ofLabels, labels_ofPairs]
  have hbind : ∀ key ∈ keys, bindAll schema options (entries key) (make key) =
      match (each key).2 with
      | none => .ok (each key).1
      | some fault => .error fault := by
    intro key hkey
    show bindAll schema options ((Routed.ofPairs _ pairs).filter (·.group == key)) (make key) = _
    rw [filter_ofPairs text hlast hplain hone hspelled (List.mem_eraseDups.1 hkey)]
    exact bindAll_eq _ key pairs (make key)
  constructor
  · intro hall
    rw [hgroups]
    refine populate_of_ok fun key hkey => ?_
    rw [hbind key hkey, hall key hkey]
  · intro earlier key later fault hsplit hearlier hfault
    have hmem : ∀ other ∈ earlier ++ [key], other ∈ keys := by
      intro other hother
      rw [hsplit, List.append_cons]
      exact List.mem_append_left later hother
    rw [hgroups, hsplit]
    apply populate_of_error fun key => (each key).1
    · intro other hother
      rw [hbind other (hmem other (by simp [hother])), hearlier other hother]
    · rw [hbind key (hmem key (by simp)), hfault]

/-- The number of doors of the third car is no number, so that no fourth car is made. Its label has
blanks and brackets in it. -/
theorem cars_populate_eq_each :
    let text := "car[a].name=Otto\ncar.name=Rex\ncar[ b, [c] ].gates=many\ncar[a].doors=2\ncar[d]=1"
    let under := KeyPath.ofText "car"
    let make : GroupKey → Object := fun _ => garageSchema.newObject "Car"
    let keys := [some "a".toList, none, some "b, [c]".toList, some "d".toList]
    let fault := BindFault.conversion ⟨"car[b, [c]].gates", some "many".toList, "Doors", "Car",
      .integer .invalidDigit⟩
    (∀ part ∈ under.groupingParts (Content.ofText text).pairs, part.indices.length ≤ 1) ∧
      (∀ left ∈ under.groupingParts (Content.ofText text).pairs,
        ∀ right ∈ under.groupingParts (Content.ofText text).pairs,
          ∀ i ∈ left.indices, ∀ j ∈ right.indices, i.same j = true → i.text = j.text) ∧
      ((under.groupingParts (Content.ofText text).pairs).map KeyPart.groupKey).eraseDups = keys ∧
      (ofPairs none under (Content.ofText text).pairs).populate garageSchema {} make =
        ⟨[some "a".toList, none, some "b, [c]".toList], .error fault⟩ := by
  intro text under make keys fault
  have hone : ∀ part ∈ under.groupingParts (Content.ofText text).pairs,
      part.indices.length ≤ 1 := by decide
  have hspelled : ∀ left ∈ under.groupingParts (Content.ofText text).pairs,
      ∀ right ∈ under.groupingParts (Content.ofText text).pairs,
        ∀ i ∈ left.indices, ∀ j ∈ right.indices, i.same j = true → i.text = j.text := by decide
  have hkeys : ((under.groupingParts (Content.ofText text).pairs).map
      KeyPart.groupKey).eraseDups = keys := by decide
  have hlast : under.parts.getLast? = some ⟨"car".toList, []⟩ := by decide
  refine ⟨hone, hspelled, hkeys, ?_⟩
  refine (populate_eq_each garageSchema {} make text hlast rfl hone hspelled).2
    [some "a".toList, none] (some "b, [c]".toList) [some "d".toList] fault hkeys ?_ ?_
  · decide
  · decide

end Grouping

end KeyedText
