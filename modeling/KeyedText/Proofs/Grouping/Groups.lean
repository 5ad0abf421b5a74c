import KeyedText.Binding.Populate
import KeyedText.Proofs.Grouping.Classes

/-!
# Groups of pairs

The pairs under a key are divided by the first index of the part that the key ends with. A comparer
that is an equivalence divides them into its classes; pairs without an index are a class of their
own. Dividing them by the text of the index is the same as dividing them by a comparer that takes
texts for the same when they are equal.

## Main definitions

- `KeyPath.groupingPart?` — the part of a key that decides its group
- `KeyPart.groupKey` — the label that a part asks for

## Main statements

- `Routed.ofPairs_eq` — the pairs that are divided, with their labels
- `Grouping.ofLabels_concat` — what one more pair does to groups by label
- `Grouping.populate_eq` — each group is bound into its own object, up to the first fault
- `Grouping.ofPairs_classes` — groups are classes, on either way
-/

namespace KeyedText

/-- The part of a key that decides its group under a path: the one behind the scope, that is behind
all parts of the path but the last, if it has the name of the last part. Under the empty path it is
the first part, whatever its name. -/
def KeyPath.groupingPart? (under key : KeyPath) : Option KeyPart :=
  match stripParts? under.parts.dropLast key.parts with
  | some (part :: _) =>
    match under.parts.getLast? with
    | some last => if part.hasName last.name then some part else none
    | none => some part
  | _ => none

/-- The label that a part asks for: the text of its first index. -/
def KeyPart.groupKey (part : KeyPart) : GroupKey :=
  part.indices.head?.map Index.text

variable {under : KeyPath} {pair : Pair} {pairs : List Pair} {comparer : KeyComparer}
  {entry : Routed} {routed : List Routed} {key : GroupKey} {keys : List GroupKey}

/-- A pair is divided by the part that decides its group. -/
theorem Routed.ofPair?_eq (under : KeyPath) (pair : Pair) :
    (Routed.ofPair? under.parts.dropLast under.parts.getLast? pair).map
        (fun entry => (entry.group, entry.pair)) =
      (under.groupingPart? pair.key).map fun part => (part.groupKey, pair) := by
  rw [Routed.ofPair?, KeyPath.groupingPart?]
  rcases KeyPath.stripParts? under.parts.dropLast pair.key.parts with _ | _ | ⟨part, rest⟩
  · rfl
  · rfl
  · cases under.parts.getLast? with
    | none => rfl
    | some last =>
      dsimp only
      split <;> rfl

/-- The pairs that are divided are those with a part that decides their group, in order. -/
theorem Routed.ofPairs_eq (under : KeyPath) (pairs : List Pair) :
    (Routed.ofPairs under pairs).map (fun entry => (entry.group, entry.pair)) =
      pairs.filterMap fun pair =>
        (under.groupingPart? pair.key).map fun part => (part.groupKey, pair) := by
  rw [Routed.ofPairs, List.map_filterMap]
  simp only [Routed.ofPair?_eq]

/-! ## Comparers -/

/-- Pairs without an index are a class next to those of the comparer. -/
theorem KeyComparer.sameGroup_equivalence
    (hequiv : Equivalence fun left right => comparer left right = true) :
    Equivalence fun left right => comparer.sameGroup left right = true where
  refl key := by
    cases key with
    | none => rfl
    | some text => exact hequiv.refl text
  symm {left right} h := by
    cases left with
    | none =>
      cases right with
      | none => rfl
      | some last => exact absurd h (by simp [sameGroup])
    | some first =>
      cases right with
      | none => exact absurd h (by simp [sameGroup])
      | some last => exact hequiv.symm h
  trans {left middle right} h h' := by
    cases left with
    | none =>
      cases middle with
      | none => exact h'
      | some text => exact absurd h (by simp [sameGroup])
    | some first =>
      cases middle with
      | none => exact absurd h (by simp [sameGroup])
      | some text =>
        cases right with
        | none => exact absurd h' (by simp [sameGroup])
        | some last => exact hequiv.trans h h'

theorem KeyComparer.sameGroup_ordinal (left right : GroupKey) :
    ordinal.sameGroup left right = (left == right) := by
  cases left <;> cases right <;> rfl

namespace Grouping

theorem add_eq (comparer : KeyComparer) (entry : Routed) (groups : Grouping) :
    add comparer entry groups = Classes.add comparer.sameGroup entry.group entry groups := by
  induction groups with
  | nil => rfl
  | cons group groups ih => rw [add, Classes.add, ih]

theorem ofComparer_eq (comparer : KeyComparer) (routed : List Routed) :
    ofComparer comparer routed = (routed.map fun entry => (entry.group, entry)).foldl
      (fun groups item => Classes.add comparer.sameGroup item.1 item.2 groups) [] := by
  rw [List.foldl_map, ofComparer]
  simp only [add_eq]

/-! ## Groups by label -/

theorem mem_labels : key ∈ labels keys ↔ key ∈ keys := by
  induction keys with
  | nil => simp [labels]
  | cons first keys ih =>
    rw [labels, List.mem_cons, List.mem_filter, ih, List.mem_cons]
    by_cases hkey : key = first
    · simp [hkey]
    · simp [hkey]

theorem nodup_labels (keys : List GroupKey) : (labels keys).Nodup := by
  induction keys with
  | nil => exact List.nodup_nil
  | cons first keys ih =>
    rw [labels, List.nodup_cons]
    exact ⟨by simp, ih.filter _⟩

theorem labels_concat (keys : List GroupKey) (key : GroupKey) :
    labels (keys ++ [key]) = if key ∈ keys then labels keys else labels keys ++ [key] := by
  induction keys with
  | nil => rfl
  | cons first keys ih =>
    rw [List.cons_append, labels, labels, ih]
    by_cases hmem : key ∈ keys
    · rw [if_pos hmem, if_pos (List.mem_cons_of_mem first hmem)]
    · rw [if_neg hmem, List.filter_append]
      by_cases hkey : key = first
      · simp [hkey]
      · simp [hkey, hmem]

/-- One more pair joins the group with its label, or starts one, as it does with the comparer of
equal texts. -/
theorem ofLabels_concat (routed : List Routed) (entry : Routed) :
    ofLabels (routed ++ [entry]) = add .ordinal entry (ofLabels routed) := by
  rw [add_eq, ofLabels, ofLabels, List.map_append, List.map_singleton, labels_concat]
  by_cases hmem : entry.group ∈ routed.map Routed.group
  · have hone : ((labels (routed.map Routed.group)).map fun key =>
        (key, routed.filter (·.group == key))).Pairwise fun left right =>
          KeyComparer.ordinal.sameGroup left.1 entry.group = true →
            KeyComparer.ordinal.sameGroup right.1 entry.group = false := by
      rw [List.pairwise_map]
      refine (nodup_labels _).imp fun {left right} hne hleft => ?_
      rw [KeyComparer.sameGroup_ordinal] at hleft ⊢
      rw [beq_iff_eq] at hleft
      simpa [← hleft] using hne.symm
    rw [if_pos hmem, Classes.add_of_some hone, List.map_map]
    · refine List.map_congr_left fun key _ => ?_
      rw [Function.comp_apply, Classes.joined, KeyComparer.sameGroup_ordinal, List.filter_append]
      by_cases hkey : key = entry.group
      · simp [hkey]
      · simp [hkey, Ne.symm hkey]
    · refine ⟨_, List.mem_map_of_mem (mem_labels.2 hmem), ?_⟩
      rw [KeyComparer.sameGroup_ordinal, beq_self_eq_true]
  · have hnew : ∀ group ∈ (labels (routed.map Routed.group)).map fun key =>
        (key, routed.filter (·.group == key)),
          KeyComparer.ordinal.sameGroup group.1 entry.group = false := by
      rw [List.forall_mem_map]
      intro key hkey
      rw [KeyComparer.sameGroup_ordinal, beq_eq_false_iff_ne]
      rintro rfl
      exact hmem (mem_labels.1 hkey)
    have hself : (routed ++ [entry]).filter (·.group == entry.group) = [entry] := by
      have hnone : routed.filter (·.group == entry.group) = [] := by
        rw [List.filter_eq_nil_iff]
        intro other hother
        rw [beq_iff_eq]
        intro hgroup
        exact hmem (List.mem_map.2 ⟨other, hother, hgroup⟩)
      rw [List.filter_append, hnone]
      simp
    rw [if_neg hmem, Classes.add_of_none hnew, List.map_append, List.map_singleton, hself]
    congr 1
    refine List.map_congr_left fun key hkey => ?_
    have hne : entry.group ≠ key := by
      rintro rfl
      exact hmem (mem_labels.1 hkey)
    rw [List.filter_append]
    simp [hne]

/-- Dividing pairs by equal texts is dividing them by their labels. -/
theorem ofComparer_ordinal (routed : List Routed) :
    ofComparer .ordinal routed = ofLabels routed := by
  induction routed using List.reverseRecOn with
  | nil => rfl
  | append_singleton routed entry ih =>
    rw [ofLabels_concat, ← ih, ofComparer, ofComparer, List.foldl_append, List.foldl_cons,
      List.foldl_nil]

/-! ## Objects of groups -/

/-- Populating groups binds the pairs of each group into the object made for its label. Objects are
made for the groups up to the first one that fails, which decides the outcome. -/
theorem populate_eq (schema : Schema) (options : BindOptions) (make : GroupKey → Object)
    (groups : Grouping) :
    let each := fun group : GroupKey × List Routed =>
      bindAll schema options group.2 (make group.1)
    populate schema options make groups =
      { made := (groups.map Prod.fst).take (groups.findIdx (fun group => !(each group).isOk) + 1)
        outcome := groups.mapM fun group => (each group).map (group.1, ·) } := by
  intro each
  induction groups with
  | nil => rfl
  | cons group groups ih =>
    obtain ⟨key, routed⟩ := group
    rw [populate, List.findIdx_cons, List.mapM_cons]
    cases hbound : bindAll schema options routed (make key) with
    | error fault =>
      have hfirst : each (key, routed) = .error fault := hbound
      rw [hfirst]
      rfl
    | ok object =>
      have hfirst : each (key, routed) = .ok object := hbound
      dsimp only
      rw [hfirst, ih]
      refine congrArg (Result.mk _) ?_
      cases groups.mapM fun group => (each group).map (group.1, ·) <;> rfl

/-! ## Groups under a key -/

/-- **Groups are classes, on either way.** The pairs that are divided under a key are those with a
part that decides their group, each with the text of its first index. A comparer that is an
equivalence divides them into its classes: the groups come in the order in which the classes were
met, each with the label that was met first, and each pair is in exactly one group, in the order of
the pairs. Each group is bound as a whole into the object made for its label, one group after the
other, until one of them fails. With the comparer of equal texts the groups are those by label, so
that populating them makes the same objects and ends with the same outcome. -/
theorem ofPairs_classes (under : KeyPath) (pairs : List Pair) :
    let routed := Routed.ofPairs under pairs
    (routed.map (fun entry => (entry.group, entry.pair)) = pairs.filterMap fun pair =>
        (under.groupingPart? pair.key).map fun part => (part.groupKey, pair)) ∧
      (∀ comparer : KeyComparer, (Equivalence fun left right => comparer left right = true) →
        let groups := ofPairs (some comparer) under pairs
        Classes comparer.sameGroup (routed.map fun entry => (entry.group, entry)) groups ∧
          (∀ entry ∈ routed,
            ∃! group, group ∈ groups ∧ comparer.sameGroup group.1 entry.group = true) ∧
          (groups.flatMap Prod.snd).Perm routed ∧
          (∀ group ∈ groups, group.2.Sublist routed) ∧
          ∀ schema options make,
            let each := fun group : GroupKey × List Routed =>
              bindAll schema options group.2 (make group.1)
            let failing := groups.findIdx fun group => !(each group).isOk
            populate schema options make groups =
              { made := (groups.map Prod.fst).take (failing + 1)
                outcome := groups.mapM fun group => (each group).map (group.1, ·) }) ∧
      ∀ schema options make,
        populate schema options make (ofPairs (some .ordinal) under pairs) =
          populate schema options make (ofPairs none under pairs) := by
  intro routed
  refine ⟨Routed.ofPairs_eq under pairs, fun comparer hequiv => ?_, fun schema options make => ?_⟩
  · intro groups
    have hgroups : groups = (routed.map fun entry => (entry.group, entry)).foldl
        (fun groups item => Classes.add comparer.sameGroup item.1 item.2 groups) [] :=
      ofComparer_eq comparer routed
    have hsame := KeyComparer.sameGroup_equivalence hequiv
    have hclasses : Classes comparer.sameGroup
        (routed.map fun entry => (entry.group, entry)) groups := by
      rw [hgroups]
      exact Classes.collect hsame _
    refine ⟨hclasses, fun entry hentry => ?_, ?_, fun group hgroup => ?_,
      fun schema options make => populate_eq schema options make groups⟩
    · have hitem : (entry.group, entry) ∈ routed.map fun entry => (entry.group, entry) :=
        List.mem_map_of_mem hentry
      exact hclasses.existsUnique hsame hitem
    · have hperm := Classes.flatMap_perm comparer.sameGroup
        (routed.map fun entry => (entry.group, entry))
      rw [← hgroups, List.map_map] at hperm
      simpa [Function.comp_def] using hperm
    · rw [hclasses.members group hgroup, List.filter_map, List.map_map]
      simp only [Function.comp_def, List.map_id']
      exact List.filter_sublist
  · rw [ofPairs, ofPairs, ofComparer_ordinal]

/-- A kid has a weight and a height. -/
def kidSchema : Schema where
  types :=
    [{ typeName := "Kid", label := "Kid"
       members := [{ name := "W", field := "w" }, { name := "H", field := "h" }]
       initial :=
         [("w", .scalar (.integer (.signed 32) 0)), ("h", .scalar (.integer (.signed 32) 0))] }]

/-- Kids whose names differ in case are one group where case does not count. A kid without a name is
a group of its own. Each of the kids gets what the pairs of its group say. -/
theorem kids_ofPairs_classes :
    let pairs := [Pair.ofText "kid[Ann].w" (some "1".toList), Pair.ofText "kid.w" (some "2".toList),
      Pair.ofText "Kid[ANN].h" (some "3".toList), Pair.ofText "dog[Ann].w" (some "4".toList)]
    let groups := ofPairs (some Text.sameIgnoringAsciiCase) (KeyPath.ofText "kid") pairs
    let kid := fun w h : Int =>
      (⟨"Kid", [("w", .scalar (.integer (.signed 32) w)),
        ("h", .scalar (.integer (.signed 32) h))]⟩ : Object)
    groups.map (fun group => (group.1, group.2.map (·.pair.value))) =
        [(some "Ann".toList, [some "1".toList, some "3".toList]), (none, [some "2".toList])] ∧
      Classes (KeyComparer.sameGroup Text.sameIgnoringAsciiCase)
        ((Routed.ofPairs (KeyPath.ofText "kid") pairs).map fun entry => (entry.group, entry))
        groups ∧
      populate kidSchema {} (fun _ => kidSchema.newObject "Kid") groups =
        ⟨[some "Ann".toList, none], .ok [(some "Ann".toList, kid 1 3), (none, kid 2 0)]⟩ := by
  intro pairs groups kid
  have hequiv : Equivalence fun left right => Text.sameIgnoringAsciiCase left right = true := by
    simp only [Text.sameIgnoringAsciiCase, beq_iff_eq]
    exact ⟨fun _ => rfl, Eq.symm, Eq.trans⟩
  obtain ⟨hclasses, -, -, -, hpopulate⟩ :=
    (ofPairs_classes (KeyPath.ofText "kid") pairs).2.1 _ hequiv
  refine ⟨by decide, hclasses, ?_⟩
  rw [hpopulate]
  rfl

end Grouping

end KeyedText
