import KeyedText.Decoding.Input
import KeyedText.Proofs.Document.Branches
import Mathlib.Data.List.Perm.Basic

/-!
# Items that make up a list

There are as many places as there are items, so items make up a list only if no place is left
empty. Each place below their number is then named by an item, and no place is named twice: the
positions that the items name are the numbers below the number of items in some order.

## Main definitions

- `NamePositions` — the positions that the indices of some items name

## Main statements

- `positions_eq_ok_iff` — the list that items make up
- `exists_positions_iff` — the items that make up a list
- `Tree.items_list_or_entries` — a node with items is shown as a list, or with all of its items
  under their indices
-/

namespace KeyedText

variable {α β : Type}

/-- The indices of some items name some positions, one each. -/
def NamePositions (items : List (Text × α)) (ns : List Nat) : Prop :=
  List.Forall₂ (fun item n => item.1.NamesPosition n) items ns

section

variable {items : List (Text × α)} {places after : List (Option α)} {ns : List Nat} {out : List α}

theorem Text.NamesPosition.unique {text : Text} {m n : Nat} (hm : text.NamesPosition m)
    (hn : text.NamesPosition n) : m = n :=
  Option.some.inj ((readPosition?_eq_some_iff.2 hm).symm.trans (readPosition?_eq_some_iff.2 hn))

theorem NamePositions.mem (h : NamePositions items ns) {item : Text × α} (hitem : item ∈ items)
    {n : Nat} (hn : item.1.NamesPosition n) : n ∈ ns := by
  induction h with
  | nil => simp at hitem
  | cons hfirst _ ih =>
    rcases List.mem_cons.1 hitem with rfl | hitem
    · exact List.mem_cons.2 (.inl (hn.unique hfirst))
    · exact List.mem_cons_of_mem _ (ih hitem)

/-! ## Places -/

theorem place_cons {item : Text × α} {n : Nat} (hname : item.1.NamesPosition n)
    (hlt : n < places.length) :
    place (item :: items) places = place items (places.set n (some item.2)) := by
  rw [place, readPosition?_eq_some_iff.2 hname]
  exact if_pos hlt

/-- Items are put into places only if each of them names one. -/
theorem namePositions_of_place (h : place items places = .ok after) :
    ∃ ns, NamePositions items ns ∧ ∀ n ∈ ns, n < places.length := by
  induction items generalizing places with
  | nil => exact ⟨[], .nil, by simp⟩
  | cons item items ih =>
    rw [place] at h
    split at h
    · exact absurd h (by simp)
    · next n hread =>
      split at h
      · next hlt =>
        obtain ⟨ns, hnames, hns⟩ := ih h
        refine ⟨n :: ns, .cons (readPosition?_eq_some_iff.1 hread) hnames, ?_⟩
        exact List.forall_mem_cons.2 ⟨hlt, by simpa using hns⟩
      · exact absurd h (by simp)

/-- Items that name places are put there, and the other places stay as they were. -/
theorem place_of_namePositions (hnames : NamePositions items ns)
    (hlt : ∀ n ∈ ns, n < places.length) : ∃ after, place items places = .ok after ∧
      after.length = places.length ∧ ∀ n ∉ ns, after[n]? = places[n]? := by
  induction hnames generalizing places with
  | nil => exact ⟨places, rfl, rfl, fun _ _ => rfl⟩
  | @cons item n items ns hname _ ih =>
    obtain ⟨hn, hlt⟩ := List.forall_mem_cons.1 hlt
    have hlt' : ∀ m ∈ ns, m < (places.set n (some item.2)).length := by simpa using hlt
    obtain ⟨after, hplace, hlength, hother⟩ := ih hlt'
    refine ⟨after, (place_cons hname hn).trans hplace, by simpa using hlength, fun m hm => ?_⟩
    obtain ⟨hne, hm⟩ := not_or.1 (mt List.mem_cons.2 hm)
    rw [hother m hm, List.getElem?_set_ne (Ne.symm hne)]

/-- An item stands at the position that it names, if no two items name the same one. -/
theorem getElem?_of_place (hnames : NamePositions items ns) (hlt : ∀ n ∈ ns, n < places.length)
    (hapart : ns.Nodup) (h : place items places = .ok after) {item : Text × α}
    (hitem : item ∈ items) {n : Nat} (hname : item.1.NamesPosition n) :
    after[n]? = some (some item.2) := by
  induction hnames generalizing places with
  | nil => simp at hitem
  | @cons first m items ns hfirst hnames ih =>
    obtain ⟨hm, hlt⟩ := List.forall_mem_cons.1 hlt
    obtain ⟨hnew, hapart⟩ := List.nodup_cons.1 hapart
    have hlt' : ∀ n ∈ ns, n < (places.set m (some first.2)).length := by simpa using hlt
    rw [place_cons hfirst hm] at h
    rcases List.mem_cons.1 hitem with rfl | hitem
    · obtain rfl := hname.unique hfirst
      obtain ⟨_, hplace, -, hother⟩ := place_of_namePositions hnames hlt'
      obtain rfl := Except.ok.inj (hplace.symm.trans h)
      rw [hother n hnew, List.getElem?_set_self hm]
    · exact ih hlt' hapart h hitem

/-- Items are collected from places only if none of them is empty. -/
theorem collect_eq_ok_iff {position : Nat} :
    collect position places = .ok out ↔ places = out.map some := by
  constructor
  · intro h
    induction places generalizing position out with
    | nil =>
      obtain rfl := Except.ok.inj h
      rfl
    | cons here places ih =>
      cases here with
      | none => exact absurd h (by simp [collect])
      | some item =>
        rw [collect] at h
        cases hrest : collect (position + 1) places with
        | error fault =>
          rw [hrest] at h
          exact absurd h (by simp [bind, Except.bind])
        | ok rest =>
          rw [hrest] at h
          obtain rfl := Except.ok.inj h
          rw [List.map_cons, ih hrest]
  · rintro rfl
    exact collect_map_some position out

theorem positions_eq_ok_iff_place : positions items = .ok out ↔
    place items (List.replicate items.length none) = .ok (out.map some) := by
  rw [positions]
  cases place items (List.replicate items.length none) with
  | error fault => simp [bind, Except.bind]
  | ok places => exact collect_eq_ok_iff.trans (by simp)

/-! ## Lists -/

/-- Items that leave no place empty name every position below their number once. -/
theorem perm_range_of_positions (h : positions items = .ok out) :
    ∃ ns, NamePositions items ns ∧ ns.Perm (List.range items.length) := by
  have hplace := positions_eq_ok_iff_place.1 h
  obtain ⟨ns, hnames, hlt⟩ := namePositions_of_place hplace
  obtain ⟨_, hplaced, hlength, hother⟩ := place_of_namePositions hnames hlt
  obtain rfl := Except.ok.inj (hplaced.symm.trans hplace)
  rw [List.length_map, List.length_replicate] at hlength
  -- a place that no item names would be empty still
  have hsubset : List.range items.length ⊆ ns := by
    intro n hn
    have hn := List.mem_range.1 hn
    by_contra hfree
    have hempty := hother n hfree
    rw [List.getElem?_map, List.getElem?_eq_getElem (hlength ▸ hn),
      List.getElem?_eq_getElem (by simpa using hn)] at hempty
    simp at hempty
  -- as many positions are named as there are, so none is named twice
  have hperm := (List.subperm_of_subset List.nodup_range hsubset).perm_of_length_le
    (by rw [List.length_range, ← hnames.length_eq])
  exact ⟨ns, hnames, hperm.symm⟩

/-- Items that name every position below their number once make up the list of them in the order
of these positions. -/
theorem positions_of_sorted {sorted : List (Text × α)} (hperm : sorted.Perm items)
    (hsorted : NamePositions sorted (List.range items.length)) :
    positions items = .ok (sorted.map (·.2)) := by
  obtain ⟨ns, hnames, hns⟩ := List.perm_comp_forall₂ hperm.symm hsorted
  have hlt : ∀ n ∈ ns, n < (List.replicate items.length (none : Option α)).length := by
    intro n hn
    rw [List.length_replicate]
    exact List.mem_range.1 (hns.mem_iff.1 hn)
  obtain ⟨after, hplace, hlength, -⟩ := place_of_namePositions hnames hlt
  have hget : ∀ n (hn : n < sorted.length), after[n]? = some (some sorted[n].2) := by
    intro n hn
    have hname := hsorted.get hn (by simpa [hperm.length_eq] using hn)
    refine getElem?_of_place hnames hlt (hns.nodup_iff.2 List.nodup_range) hplace
      (hperm.mem_iff.1 (List.getElem_mem hn)) ?_
    simpa using hname
  have hafter : after = (sorted.map (·.2)).map some := by
    refine List.ext_getElem? fun n => ?_
    by_cases hn : n < sorted.length
    · simp [hget n hn, hn]
    · have hnone : after[n]? = none := by
        rw [List.getElem?_eq_none_iff, hlength, List.length_replicate, ← hperm.length_eq]
        omega
      simp [hnone, Nat.le_of_not_lt hn]
  exact positions_eq_ok_iff_place.2 (hafter ▸ hplace)

/-- The items in the order of the positions that they name. -/
theorem NamePositions.exists_sorted {ms : List Nat} (hnames : NamePositions items ns)
    (hperm : ns.Perm ms) :
    ∃ sorted : List (Text × α), sorted.Perm items ∧ NamePositions sorted ms := by
  obtain ⟨sorted, hsorted, hitems⟩ := List.perm_comp_forall₂ hperm.symm (List.Forall₂.flip hnames)
  exact ⟨sorted, hitems, hsorted.flip⟩

/-- **The list that items make up** has each of them once, at the position that its index names. -/
theorem positions_eq_ok_iff : positions items = .ok out ↔ ∃ sorted : List (Text × α),
    sorted.Perm items ∧ NamePositions sorted (List.range items.length) ∧
      out = sorted.map (·.2) := by
  constructor
  · intro h
    obtain ⟨ns, hnames, hns⟩ := perm_range_of_positions h
    obtain ⟨sorted, hperm, hsorted⟩ := hnames.exists_sorted hns
    have hlist := positions_of_sorted hperm hsorted
    exact ⟨sorted, hperm, hsorted, Except.ok.inj (h.symm.trans hlist)⟩
  · rintro ⟨sorted, hperm, hsorted, rfl⟩
    exact positions_of_sorted hperm hsorted

/-- Items make up a list if the positions that they name are those below their number. -/
theorem exists_positions_iff : (∃ out, positions items = .ok out) ↔
    ∃ ns, NamePositions items ns ∧ ns.Perm (List.range items.length) := by
  constructor
  · rintro ⟨out, h⟩
    exact perm_range_of_positions h
  · rintro ⟨ns, hnames, hns⟩
    obtain ⟨sorted, hperm, hsorted⟩ := hnames.exists_sorted hns
    exact ⟨_, positions_of_sorted hperm hsorted⟩

end

/-! ## Nodes with items -/

section

variable (f : α → β)

theorem place_map (items : List (Text × α)) (places : List (Option α)) :
    place (items.map fun item => (item.1, f item.2)) (places.map (Option.map f)) =
      (place items places).map (List.map (Option.map f)) := by
  induction items generalizing places with
  | nil => rfl
  | cons item items ih =>
    rw [List.map_cons, place, place]
    cases readPosition? item.1 with
    | none => rfl
    | some n =>
      have hset : (places.map (Option.map f)).set n (some (f item.2)) =
          (places.set n (some item.2)).map (Option.map f) := by
        rw [List.map_set]
        rfl
      dsimp only
      rw [List.length_map, hset, ih]
      split <;> rfl

theorem collect_map (position : Nat) (places : List (Option α)) :
    collect position (places.map (Option.map f)) = (collect position places).map (List.map f) := by
  induction places generalizing position with
  | nil => rfl
  | cons here places ih =>
    cases here with
    | none => rfl
    | some item =>
      rw [List.map_cons, Option.map_some, collect, collect, ih]
      cases collect (position + 1) places <;> rfl

/-- The list that items make up goes by their indices only. -/
theorem positions_map (items : List (Text × α)) :
    positions (items.map fun item => (item.1, f item.2)) = (positions items).map (List.map f) := by
  have hempty : List.replicate items.length (none : Option β) =
      (List.replicate items.length none).map (Option.map f) := by
    rw [List.map_replicate]
    rfl
  rw [positions, positions, List.length_map, hempty, place_map]
  cases place items (List.replicate items.length none) with
  | error fault => rfl
  | ok places => exact collect_map f 0 places

end

namespace Tree

/-- A node with items and without members is an array of the list that they make up, or an object
of all of them. -/
theorem content_of_items {node : Tree} (hmembers : node.members = []) (hne : node.items ≠ []) :
    node.content = match positions node.items with
      | .ok trees => .array (trees.map content)
      | .error _ => .object (node.items.map fun item => (item.1, item.2.content)) := by
  obtain ⟨value, members, items⟩ := node
  obtain rfl : members = [] := hmembers
  have hitems : (contentOfItems items).isEmpty = false := by
    rw [contentOfItems_eq, List.isEmpty_map]
    exact List.isEmpty_eq_false_iff.2 hne
  have hpositions : positions (contentOfItems items) =
      (positions items).map (List.map content) := by
    rw [contentOfItems_eq]
    exact positions_map content items
  rw [content]
  simp only [contentOfMembers, hitems, hpositions, Tree.items]
  cases positions items with
  | ok trees => rfl
  | error fault =>
    rw [contentOfItems_eq]
    rfl

/-- **Items make up a list** if the positions that they name are those below their number, in any
order, and the list has each item once, at its position. A node without members whose items make up
no list is an object of all of them under their indices. -/
theorem items_list_or_entries (node : Tree)
    (hapart : node.items.Pairwise fun left right => left.1 ≠ right.1) :
    ((∃ trees, positions node.items = .ok trees) ↔
      ∃ ns, NamePositions node.items ns ∧ ns.Perm (List.range node.items.length)) ∧
    (∀ trees, positions node.items = .ok trees → ∃ sorted : List (Text × Tree),
      sorted.Perm node.items ∧ NamePositions sorted (List.range node.items.length) ∧
        trees = sorted.map (·.2)) ∧
    (node.members = [] → ∀ fault, positions node.items = .error fault →
      node.content = .object (node.items.map fun item => (item.1, item.2.content)) ∧
      Json.ofTree node = .object (node.items.map fun item => (item.1, Json.ofTree item.2))) := by
  refine ⟨exists_positions_iff, fun trees h => positions_eq_ok_iff.1 h, ?_⟩
  intro hmembers fault hfault
  have hne : node.items ≠ [] := by
    intro hnil
    rw [hnil] at hfault
    exact absurd hfault (by simp [positions, place, collect, bind, Except.bind])
  have hcontent : node.content =
      .object (node.items.map fun item => (item.1, item.2.content)) := by
    rw [content_of_items hmembers hne, hfault]
  refine ⟨hcontent, ?_⟩
  rw [Json.ofTree, hcontent, Json.merged, Json.mergedEntries_eq, List.map_map]
  exact congrArg Json.object (Json.ofList_of_pairwise (List.pairwise_map.2 hapart))

/-- A node with two spellings of one position. -/
def spelledTwice : Tree :=
  .node none [] [("1", .node (some (some "a")) [] []), ("01", .node (some (some "b")) [] [])]

theorem spelledTwice_entries :
    spelledTwice.items.Pairwise (fun left right => left.1 ≠ right.1) ∧
      Json.ofTree spelledTwice = .object [("1", .string "a"), ("01", .string "b")] := by
  have hapart : spelledTwice.items.Pairwise fun left right => left.1 ≠ right.1 := by decide
  exact ⟨hapart, ((items_list_or_entries spelledTwice hapart).2.2 rfl (.missing 0) rfl).2⟩

end Tree

end KeyedText
