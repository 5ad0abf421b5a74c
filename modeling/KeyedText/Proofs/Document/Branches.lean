import KeyedText.Document.Content
import KeyedText.Proofs.Encoding.Leaves
import KeyedText.Proofs.Number.Decimal

/-!
# Trees written branch by branch

When texts are written to a tree one branch after the other, each branch holds what was written to
it and nothing else, and the branches stand in the order in which they were written. A node whose
branches are numbered from zero is an array then, and one whose branches have names is an object.

## Main definitions

- `Tree.written` — a tree with texts written to it
- `Tree.updateEntry` — a change to one branch, be it a member or an item

## Main statements

- `positions_numbered` — items that are numbered from zero stand at their positions
- `Tree.written_members`, `Tree.written_items` — the branches of a node
- `Tree.content_members`, `Tree.content_items` — what a node with branches holds
-/

namespace KeyedText

/-! ## Numbered items -/

section

variable {α : Type} {items : List α}

theorem place_numbered (done items : List α) (hlength : done.length + items.length ≤ 2 ^ 64) :
    place (numbered done.length items) (done.map some ++ List.replicate items.length none) =
      .ok ((done ++ items).map some) := by
  induction items generalizing done with
  | nil => simp [numbered, place]
  | cons item items ih =>
    rw [List.length_cons] at hlength
    have hread : readPosition? (Text.ofNat done.length) = some done.length :=
      readPosition?_ofNat (by omega)
    have hset :
        (done.map some ++ List.replicate (items.length + 1) none).set done.length (some item) =
          (done ++ [item]).map some ++ List.replicate items.length none := by
      rw [List.set_append_right _ _ (by simp), List.length_map, Nat.sub_self, List.replicate_succ,
        List.set_cons_zero, List.map_append, List.append_assoc]
      rfl
    have hrest := ih (done ++ [item]) (by rw [List.length_append, List.length_singleton]; omega)
    rw [List.length_append, List.length_singleton, List.append_assoc] at hrest
    rw [numbered, place, hread]
    dsimp only
    rw [if_pos (by simp), List.length_cons, hset, hrest]
    rfl

theorem collect_map_some (position : Nat) (items : List α) :
    collect position (items.map some) = .ok items := by
  induction items generalizing position with
  | nil => rfl
  | cons item items ih =>
    rw [List.map_cons, collect, ih]
    rfl

theorem length_numbered (position : Nat) (items : List α) :
    (numbered position items).length = items.length := by
  induction items generalizing position with
  | nil => rfl
  | cons item items ih => rw [numbered, List.length_cons, ih, List.length_cons]

/-- Items that are numbered from zero stand at their positions. -/
theorem positions_numbered (hlength : items.length ≤ 2 ^ 64) :
    positions (numbered 0 items) = .ok items := by
  have hplace : place (numbered 0 items) (List.replicate items.length none) =
      .ok (items.map some) := by
    have hplaced := place_numbered [] items (by simpa using hlength)
    exact hplaced
  rw [positions, length_numbered, hplace]
  exact collect_map_some 0 items

theorem ofNat_injective {m n : Nat} (h : Text.ofNat m = Text.ofNat n) : m = n := by
  rw [← Text.digitsValueFrom_ofNat m, h, Text.digitsValueFrom_ofNat]

theorem trim_numbered (position : Nat) (items : List α) :
    ∀ item ∈ numbered position items, Text.trim item.1 = item.1 := by
  induction items generalizing position with
  | nil => simp [numbered]
  | cons first items ih =>
    rw [numbered, List.forall_mem_cons]
    exact ⟨Text.trim_ofNat position, ih (position + 1)⟩

/-- No two items have the same number. -/
theorem pairwise_numbered (position : Nat) (items : List α) :
    (numbered position items).Pairwise fun left right => left.1 ≠ right.1 := by
  have hlater : ∀ position (items : List α), ∀ item ∈ numbered position items,
      ∃ n, position ≤ n ∧ item.1 = Text.ofNat n := by
    intro position items
    induction items generalizing position with
    | nil => simp [numbered]
    | cons first items ih =>
      rw [numbered, List.forall_mem_cons]
      refine ⟨⟨position, le_refl _, rfl⟩, fun item hitem => ?_⟩
      obtain ⟨n, hle, heq⟩ := ih (position + 1) item hitem
      exact ⟨n, by omega, heq⟩
  induction items generalizing position with
  | nil => exact .nil
  | cons first items ih =>
    refine .cons (fun item hitem heq => ?_) (ih (position + 1))
    obtain ⟨n, hle, hn⟩ := hlater (position + 1) items item hitem
    have hsame : position = n := ofNat_injective (heq.trans hn)
    omega

end

namespace Tree

/-! ## Branches -/

/-- A tree with texts written to it, one after the other. -/
def written (texts : List (List Step × Text)) (tree : Tree) : Tree :=
  texts.foldl (fun tree text => tree.write (some text.2) text.1) tree

section

variable {κ : Type} {same : κ → κ → Bool} {key : κ} {change : Tree → Tree}
  {branches : List (κ × Tree)}

/-- Applies a change to the branch of a key, which is added if it is not there yet. -/
def updateEntry (same : κ → κ → Bool) (key : κ) (change : Tree → Tree) :
    List (κ × Tree) → List (κ × Tree)
  | [] => [(key, change empty)]
  | entry :: rest =>
    if same entry.1 key then (entry.1, change entry.2) :: rest
    else entry :: updateEntry same key change rest

/-- Branches with texts written to them, one after the other. -/
def writtenEntries (same : κ → κ → Bool) (texts : List (κ × List Step × Text))
    (branches : List (κ × Tree)) : List (κ × Tree) :=
  texts.foldl (fun found text => updateEntry same text.1 (write (some text.2.2) text.2.1) found)
    branches

theorem updateEntry_new (h : ∀ entry ∈ branches, same entry.1 key = false) :
    updateEntry same key change branches = branches ++ [(key, change empty)] := by
  induction branches with
  | nil => rfl
  | cons entry branches ih =>
    obtain ⟨hentry, hrest⟩ := List.forall_mem_cons.1 h
    rw [updateEntry, hentry, ih hrest]
    rfl

theorem updateEntry_last (h : ∀ entry ∈ branches, same entry.1 key = false)
    (hsame : same key key = true) (tree : Tree) :
    updateEntry same key change (branches ++ [(key, tree)]) =
      branches ++ [(key, change tree)] := by
  induction branches with
  | nil =>
    rw [List.nil_append, updateEntry, if_pos hsame]
    rfl
  | cons entry branches ih =>
    obtain ⟨hentry, hrest⟩ := List.forall_mem_cons.1 h
    rw [List.cons_append, updateEntry, hentry, ih hrest]
    rfl

/-- Texts for a new branch, one after the other, make up one branch at the end. -/
theorem writtenEntries_branch (h : ∀ entry ∈ branches, same entry.1 key = false)
    (hsame : same key key = true) {texts : List (List Step × Text)} (hne : texts ≠ []) :
    writtenEntries same (texts.map fun text => (key, text)) branches =
      branches ++ [(key, written texts empty)] := by
  have hlater : ∀ texts tree,
      writtenEntries same (texts.map fun text => (key, text)) (branches ++ [(key, tree)]) =
        branches ++ [(key, written texts tree)] := by
    intro texts
    induction texts with
    | nil => exact fun _ => rfl
    | cons text texts ih =>
      intro tree
      rw [List.map_cons, writtenEntries, List.foldl_cons, updateEntry_last h hsame]
      exact ih _
  obtain ⟨first, rest, rfl⟩ := List.exists_cons_of_ne_nil hne
  rw [List.map_cons, writtenEntries, List.foldl_cons, updateEntry_new h]
  exact hlater rest _

/-- Texts that are written branch by branch make up the branches. -/
theorem writtenEntries_branches (hsame : ∀ key, same key key = true)
    (groups : List (κ × List (List Step × Text))) (branches : List (κ × Tree))
    (hne : ∀ group ∈ groups, group.2 ≠ [])
    (hapart : groups.Pairwise fun left right => same left.1 right.1 = false)
    (hnew : ∀ group ∈ groups, ∀ entry ∈ branches, same entry.1 group.1 = false) :
    writtenEntries same
        (groups.flatMap fun group => group.2.map fun text => (group.1, text)) branches =
      branches ++ groups.map fun group => (group.1, written group.2 empty) := by
  induction groups generalizing branches with
  | nil => simp [writtenEntries]
  | cons group groups ih =>
    obtain ⟨hgroup, hne⟩ := List.forall_mem_cons.1 hne
    obtain ⟨hfirst, hapart⟩ := List.pairwise_cons.1 hapart
    obtain ⟨hnewFirst, hnew⟩ := List.forall_mem_cons.1 hnew
    have hhere := writtenEntries_branch hnewFirst (hsame group.1) hgroup
    rw [writtenEntries] at hhere
    rw [List.flatMap_cons, writtenEntries, List.foldl_append, hhere, ← writtenEntries,
      ih _ hne hapart, List.map_cons, List.append_assoc]
    · rfl
    · intro other hother entry hentry
      rcases List.mem_append.1 hentry with hentry | hentry
      · exact hnew other hother entry hentry
      · rw [List.mem_singleton.1 hentry]
        exact hfirst other hother

/-- Texts that are written to a node branch by branch make up its branches. What the node has
besides is left open. -/
theorem written_groups (same : κ → κ → Bool) (toStep : Text → Step) (toKey : Text → κ)
    (node : List (κ × Tree) → Tree)
    (hwrite : ∀ name text steps branches, write (some text) (toStep name :: steps) (node branches) =
      node (updateEntry same (toKey name) (write (some text) steps) branches))
    (hsame : ∀ key, same key key = true) (groups : List (Text × List (List Step × Text)))
    (hne : ∀ group ∈ groups, group.2 ≠ [])
    (hapart : groups.Pairwise fun left right => same (toKey left.1) (toKey right.1) = false) :
    written (groups.flatMap fun group => group.2.map fun text => (toStep group.1 :: text.1, text.2))
        (node []) =
      node (groups.map fun group => (toKey group.1, written group.2 empty)) := by
  have hnode : ∀ (texts : List (Text × List Step × Text)) branches,
      written (texts.map fun text => (toStep text.1 :: text.2.1, text.2.2)) (node branches) =
        node (writtenEntries same (texts.map fun text => (toKey text.1, text.2)) branches) := by
    intro texts
    induction texts with
    | nil => exact fun _ => rfl
    | cons text texts ih =>
      intro branches
      rw [List.map_cons, written, List.foldl_cons, hwrite, ← written, ih]
      rfl
  have hbranches := writtenEntries_branches hsame
    (groups.map fun group => (toKey group.1, group.2)) [] (List.forall_mem_map.2 hne)
    (List.pairwise_map.2 hapart) (by simp)
  have htexts := hnode (groups.flatMap fun group => group.2.map fun text => (group.1, text)) []
  rw [List.flatMap_map, List.map_map, List.nil_append] at hbranches
  simp only [List.map_flatMap, List.map_map] at htexts
  exact htexts.trans (congrArg node hbranches)

end

theorem updateMember_eq (name : Spelling) (change : Tree → Tree)
    (members : List (Spelling × Tree)) : updateMember name change members =
      updateEntry (fun left right => left.folded == right.folded) name change members := by
  induction members with
  | nil => rfl
  | cons entry members ih => rw [updateMember, updateEntry, ih]

theorem updateItem_eq (index : Text) (change : Tree → Tree) (items : List (Text × Tree)) :
    updateItem index change items = updateEntry (· == ·) index change items := by
  induction items with
  | nil => rfl
  | cons entry items ih => rw [updateItem, updateEntry, ih]

/-- The tree of texts that are written member by member. -/
theorem written_members (groups : List (Text × List (List Step × Text)))
    (hne : ∀ group ∈ groups, group.2 ≠ [])
    (hapart : groups.Pairwise fun left right => Text.fold left.1 ≠ Text.fold right.1) :
    written
        (groups.flatMap fun group => group.2.map fun text => (.member group.1 :: text.1, text.2))
        empty =
      .node none (groups.map fun group => (Spelling.ofName group.1, written group.2 empty)) [] := by
  refine written_groups (fun left right => left.folded == right.folded) (fun name => .member name)
    Spelling.ofName (fun members => .node none members []) ?_ (by simp) groups hne
    (hapart.imp fun hne => by simpa [Spelling.ofName] using hne)
  intro name text steps members
  rw [write, updateMember_eq]

/-- The tree of texts that are written item by item. -/
theorem written_items (groups : List (Text × List (List Step × Text)))
    (hne : ∀ group ∈ groups, group.2 ≠ []) (htrim : ∀ group ∈ groups, Text.trim group.1 = group.1)
    (hapart : groups.Pairwise fun left right => left.1 ≠ right.1) :
    written
        (groups.flatMap fun group =>
          group.2.map fun text => (.index (Index.ofText group.1) :: text.1, text.2))
        empty =
      .node none [] (groups.map fun group => (group.1, written group.2 empty)) := by
  have hkeys : (groups.map fun group => (Text.trim group.1, written group.2 empty)) =
      groups.map fun group => (group.1, written group.2 empty) :=
    List.map_congr_left fun group hgroup => by rw [htrim group hgroup]
  rw [← hkeys]
  refine written_groups (· == ·) (fun index => .index (Index.ofText index)) Text.trim
    (fun items => .node none [] items) ?_ (by simp) groups hne ?_
  · intro name text steps items
    rw [write, updateItem_eq]
    rfl
  · refine hapart.imp_of_mem fun {left right} hleft hright hne => ?_
    rw [htrim left hleft, htrim right hright]
    simpa using hne

/-! ## What a node with branches holds -/

theorem contentOfMembers_eq (members : List (Spelling × Tree)) :
    contentOfMembers members = members.map fun entry => (entry.1.written, entry.2.content) := by
  induction members with
  | nil => rfl
  | cons entry members ih => rw [contentOfMembers, ih, List.map_cons]

theorem contentOfItems_eq (items : List (Text × Tree)) :
    contentOfItems items = items.map fun entry => (entry.1, entry.2.content) := by
  induction items with
  | nil => rfl
  | cons entry items ih => rw [contentOfItems, ih, List.map_cons]

theorem content_members {members : List (Spelling × Tree)} (hne : members ≠ []) :
    (node none members []).content =
      .object (members.map fun entry => (entry.1.written, entry.2.content)) := by
  rw [content, contentOfMembers_eq]
  simp [contentOfItems, hne]

theorem content_items {trees : List Tree} (hne : trees ≠ []) (hlength : trees.length ≤ 2 ^ 64) :
    (node none [] (numbered 0 trees)).content = .array (trees.map content) := by
  have hpositions : positions (contentOfItems (numbered 0 trees)) = .ok (trees.map content) := by
    rw [contentOfItems_eq, ← numbered_map]
    exact positions_numbered (by simpa using hlength)
  obtain ⟨first, rest, rfl⟩ := List.exists_cons_of_ne_nil hne
  rw [content]
  simp only [contentOfMembers, hpositions]
  rfl

end Tree

namespace Json

/-! ## Names that occur once -/

theorem mergedItems_eq (items : List Json) : mergedItems items = items.map merged := by
  induction items with
  | nil => rfl
  | cons item items ih => rw [mergedItems, ih, List.map_cons]

theorem mergedEntries_eq (entries : List (Text × Json)) :
    mergedEntries entries = entries.map fun entry => (entry.1, entry.2.merged) := by
  induction entries with
  | nil => rfl
  | cons entry entries ih => rw [mergedEntries, ih, List.map_cons]

/-- Entries whose names are all different are those with each name once. -/
theorem ofList_of_pairwise {α : Type} {entries : List (Text × α)}
    (h : entries.Pairwise fun left right => left.1 ≠ right.1) :
    Entries.ofList entries = entries := by
  have hinsert : ∀ (done : Entries α) (entry : Text × α), (∀ other ∈ done, other.1 ≠ entry.1) →
      Entries.insert entry.1 entry.2 done = done ++ [entry] := by
    intro done entry hnew
    induction done with
    | nil => rfl
    | cons other done ih =>
      obtain ⟨hother, hnew⟩ := List.forall_mem_cons.1 hnew
      rw [Entries.insert, if_neg (by simpa using hother), ih hnew]
      rfl
  have hfold : ∀ rest done : Entries α,
      (done ++ rest).Pairwise (fun left right => left.1 ≠ right.1) →
      rest.foldl (fun entries entry => Entries.insert entry.1 entry.2 entries) done =
        done ++ rest := by
    intro rest
    induction rest with
    | nil => simp
    | cons entry rest ih =>
      intro done hapart
      have hnew : ∀ other ∈ done, other.1 ≠ entry.1 := fun other hother =>
        (List.pairwise_append.1 hapart).2.2 other hother entry (by simp)
      rw [List.foldl_cons, hinsert done entry hnew, ih]
      · simp
      · simpa using hapart
  exact hfold entries [] h

end Json

end KeyedText
