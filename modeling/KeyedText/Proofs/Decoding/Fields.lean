import KeyedText.Decoding.Decode
import KeyedText.Proofs.Document.Nodes
import KeyedText.Proofs.Text.Case
import Mathlib.Data.List.Forall2
import Mathlib.Data.List.Pairwise

/-!
# Fields of records

A record sees the members of a node under the names of its fields. Members whose names fold to the
same form share one node of the tree, and a field takes the member whose form is that of its name.
So each name is there at most once, however it is spelled and however often it was written, and no
other member has the name of a field. A field with an alias can still be there twice, once under
each of its names.

## Main definitions

- `Spelling.presented`, `Tree.presentedWrites` — names as they are presented
- `Input.Presents` — what a record sees of what is written to a node
- `Pair.Respelled` — pairs that differ in the spelling of known names

## Main statements

- `Input.fields_ofWrites` — what a record sees, class by class
- `FieldReader.readRecord_duplicate` — when a record complains of a field that is there twice
- `Input.fields_ofPairs` — a record sees each field once
-/

namespace KeyedText

variable {known : List Text} {writes : List (List Step × Option Text)} {trail : List Label}
  {folded : Text}

/-! ## Names as they are presented -/

/-- The name with the form that it is presented in to those who know some names. -/
def Spelling.presented (known : List Text) (name : Spelling) : Spelling :=
  ⟨name.folded, Input.presentedName known name⟩

/-- The names of the members that some values are written to, as they were written. -/
def Tree.memberNames (writes : List (List Step × Option Text)) : List Text :=
  writes.filterMap fun write =>
    match write.1 with
    | .member name :: _ => some name
    | _ => none

/-- What is written to members, by the names that they are presented under. -/
def Tree.presentedWrites (known : List Text) (writes : List (List Step × Option Text)) :
    List (Spelling × List Step × Option Text) :=
  (branchWrites Step.spelling? writes).map fun write => (write.1.presented known, write.2)

namespace Tree

theorem names_presentedWrites (known : List Text) (writes : List (List Step × Option Text)) :
    (presentedWrites known writes).map Prod.fst =
      (memberNames writes).map fun name => (Spelling.ofName name).presented known := by
  rw [presentedWrites, branchWrites, memberNames, List.map_map, List.map_filterMap,
    List.map_filterMap]
  apply List.filterMap_congr
  rintro ⟨steps, value⟩ -
  cases steps with
  | nil => rfl
  | cons step rest => cases step <;> rfl

theorem sameName_presented (known : List Text) (left right : Spelling) :
    sameName (left.presented known) (right.presented known) = sameName left right :=
  rfl

theorem name_prefix_iff {name : Text} {rest : List Step} :
    [Label.name folded] <+: (Step.member name :: rest).map Step.label ↔
      Text.fold name = folded := by
  rw [List.map_cons, List.cons_prefix_cons, Step.label, Label.name.injEq, eq_comm]
  exact and_iff_left (List.nil_prefix)

theorem mem_memberNames {name : Text} :
    name ∈ memberNames writes ↔ ∃ rest value, (Step.member name :: rest, value) ∈ writes := by
  rw [memberNames, List.mem_filterMap]
  constructor
  · rintro ⟨⟨steps, value⟩, hwrite, hname⟩
    cases steps with
    | nil => cases hname
    | cons step rest =>
      cases step with
      | index index => cases hname
      | member own =>
        obtain rfl := Option.some.inj hname
        exact ⟨rest, value, hwrite⟩
  · rintro ⟨rest, value, hwrite⟩
    exact ⟨_, hwrite, rfl⟩

/-- Nothing is written to a member of a form when there is no name of that form. -/
theorem find?_memberNames_eq_none :
    (memberNames writes).find? (fun name => Text.fold name == folded) = none ↔
      behind [.name folded] writes = [] := by
  simp only [List.find?_eq_none, mem_memberNames, beq_iff_eq]
  rw [behind, List.filterMap_eq_nil_iff]
  constructor
  · rintro hnone ⟨steps, value⟩ hwrite
    cases steps with
    | nil => rfl
    | cons step rest =>
      cases step with
      | index index => simp [Step.label]
      | member name =>
        exact if_neg fun hbehind => hnone name ⟨rest, value, hwrite⟩ (name_prefix_iff.1 hbehind)
  · rintro hnone name ⟨rest, value, hwrite⟩ hfolded
    have hpassed := hnone _ hwrite
    rw [if_pos (name_prefix_iff.2 hfolded)] at hpassed
    cases hpassed

end Tree

namespace Input

/-- What a record that knows some names sees of what is written to a node: one part for each name
that is the same up to case and outer blanks, in the order in which they were met. -/
def partsOf (known : List Text) (writes : List (List Step × Option Text)) : List (Text × Input) :=
  (Tree.collected Tree.sameName (Tree.presentedWrites known writes)).map fun group =>
    (group.1.written, .tree (.ofWrites group.2))

theorem fields_ofWrites (known : List Text) (writes : List (List Step × Option Text)) :
    (Input.tree (.ofWrites writes)).fields known = .ok (partsOf known writes) := by
  have hrenamed := Classes.collect_map (Tree.sameName_presented known)
    (Tree.branchWrites Step.spelling? writes)
  rw [partsOf, Tree.collected, Tree.presentedWrites, hrenamed, Tree.ofWrites_eq writes, fields,
    Tree.members, Tree.branchesOf, List.map_map, List.map_map]
  rfl

/-- The name that a member is presented under has the form of the member. -/
theorem fold_presentedName (known : List Text) (name : Text) :
    Text.fold (presentedName known (Spelling.ofName name)) = Text.fold name := by
  rw [presentedName, Spelling.ofName]
  cases hfind : known.find? fun other => Text.fold other == Text.fold name with
  | none => exact Text.fold_trim name
  | some other => simpa using List.find?_some hfind

/-- A known name is what members of its form are presented under, when no other one has its form. -/
theorem presentedName_of_mem (hknown : (known.map Text.fold).Nodup) {name written : Text}
    (hname : name ∈ known) (hfold : Text.fold written = Text.fold name) :
    presentedName known (Spelling.ofName written) = name := by
  rw [presentedName, Spelling.ofName]
  cases hfind : known.find? fun other => Text.fold other == Text.fold written with
  | none => exact absurd (List.find?_eq_none.1 hfind name hname) (by simp [hfold])
  | some other =>
    have hsame : Text.fold other = Text.fold name := by
      simpa [hfold] using List.find?_some hfind
    exact List.inj_on_of_nodup_map hknown (List.mem_of_find?_eq_some hfind) hname hsame

/-- A member that no known name has the form of is presented as it was written. -/
theorem presentedName_of_not_mem {name : Text}
    (hname : ∀ other ∈ known, Text.fold other ≠ Text.fold name) :
    presentedName known (Spelling.ofName name) = Text.trim name := by
  have hfind : (known.find? fun other => Text.fold other == Text.fold name) = none := by
    rw [List.find?_eq_none]
    intro other hother
    simpa using hname other hother
  rw [presentedName, Spelling.ofName, hfind]
  rfl

/-- A part has the form of the members that it stands for. -/
theorem fold_written {group : Spelling × List (List Step × Option Text)}
    (hgroup : group ∈ Tree.collected Tree.sameName (Tree.presentedWrites known writes)) :
    Text.fold group.1.written = group.1.folded := by
  have hclasses := Classes.collect Tree.sameName_equivalence (Tree.presentedWrites known writes)
  have hlabel := List.mem_of_find?_eq_some (hclasses.label group hgroup)
  rw [Tree.names_presentedWrites] at hlabel
  obtain ⟨name, -, hname⟩ := List.mem_map.1 hlabel
  rw [← hname]
  exact fold_presentedName known name

/-- No two parts have the same form. -/
theorem pairwise_partsOf (known : List Text) (writes : List (List Step × Option Text)) :
    (partsOf known writes).Pairwise fun left right => Text.fold left.1 ≠ Text.fold right.1 := by
  have hclasses := Classes.collect Tree.sameName_equivalence (Tree.presentedWrites known writes)
  refine List.pairwise_map.2 ((hclasses.apart Tree.sameName_equivalence).imp_of_mem ?_)
  intro left right hleft hright hapart
  rw [fold_written hleft, fold_written hright]
  simpa [Tree.sameName] using hapart

/-- The parts of one form are a single one or none. It is named by the member of that form that was
written first, and holds what is written to all of them. -/
theorem filter_partsOf (known : List Text) (writes : List (List Step × Option Text))
    (folded : Text) :
    (partsOf known writes).filter (fun part => Text.fold part.1 == folded) =
      ((Tree.memberNames writes).find? fun name => Text.fold name == folded).toList.map fun name =>
        (presentedName known (Spelling.ofName name),
          .tree (.ofWrites (Tree.behind [.name folded] writes))) := by
  let key : Spelling := ⟨folded, []⟩
  have hclasses := Classes.collect Tree.sameName_equivalence (Tree.presentedWrites known writes)
  have hform : ∀ group ∈ Tree.collected Tree.sameName (Tree.presentedWrites known writes),
      (Text.fold group.1.written == folded) = Tree.sameName group.1 key := by
    intro group hgroup
    rw [fold_written hgroup]
    rfl
  have hlabel : ∀ step : Step, (step.spelling?.any fun name => Tree.sameName name key) = true ↔
      Label.name folded = step.label := by
    intro step
    cases step with
    | member name =>
      have hsame : ((Step.member name).spelling?.any fun own => Tree.sameName own key) =
          (Text.fold name == folded) := rfl
      rw [hsame, beq_iff_eq, Step.label, Label.name.injEq, eq_comm]
    | index index => simp [Step.spelling?, Step.label]
  have hwritten : ((Tree.presentedWrites known writes).filter fun write =>
      Tree.sameName write.1 key).map Prod.snd = Tree.behind [.name folded] writes := by
    rw [← Tree.filter_branchWrites hlabel writes, Tree.presentedWrites, List.filter_map,
      List.map_map]
    rfl
  rw [partsOf, List.filter_map, Function.comp_def]
  dsimp only
  rw [List.filter_congr hform, Tree.collected, hclasses.filter_eq Tree.sameName_equivalence key,
    hwritten, Tree.names_presentedWrites, List.find?_map, List.map_map, Option.toList_map,
    List.map_map]
  rfl

/-- What a record sees of what is written to a node if it knows some names. A known name is there at
most once, as it is known, with what is written to it in any spelling; other members are there once
as well, as they were written first, which is never a known name. Of the values that are written to
a part itself it has the last one. -/
structure Presents (known : List Text) (writes : List (List Step × Option Text))
    (parts : List (Text × Input)) : Prop where
  apart : parts.Pairwise fun left right => Text.fold left.1 ≠ Text.fold right.1
  declared : ∀ name ∈ known,
    parts.filter (fun part => Text.fold part.1 == Text.fold name) =
      if Tree.behind [.name (Text.fold name)] writes = [] then []
      else [(name, .tree (.ofWrites (Tree.behind [.name (Text.fold name)] writes)))]
  others : ∀ folded, (∀ name ∈ known, Text.fold name ≠ folded) →
    parts.filter (fun part => Text.fold part.1 == folded) =
      ((Tree.memberNames writes).find? fun name => Text.fold name == folded).toList.map fun name =>
        (Text.trim name, .tree (.ofWrites (Tree.behind [.name folded] writes)))
  named : ∀ part ∈ parts, part.1 ∈ known ↔ ∃ name ∈ known, Text.fold name = Text.fold part.1
  collects : ∀ part ∈ parts, ∃ tree, part.2 = .tree tree ∧
    tree.Collects (Tree.behind [.name (Text.fold part.1)] writes)

theorem filter_partsOf_of_mem (hknown : (known.map Text.fold).Nodup)
    (writes : List (List Step × Option Text)) {name : Text} (hname : name ∈ known) :
    (partsOf known writes).filter (fun part => Text.fold part.1 == Text.fold name) =
      if Tree.behind [.name (Text.fold name)] writes = [] then []
      else [(name, .tree (.ofWrites (Tree.behind [.name (Text.fold name)] writes)))] := by
  rw [filter_partsOf]
  split
  · next hnone => rw [Tree.find?_memberNames_eq_none.2 hnone]; rfl
  · next hsome =>
    obtain ⟨written, hwritten⟩ :=
      Option.ne_none_iff_exists'.1 (mt Tree.find?_memberNames_eq_none.1 hsome)
    have hfold : Text.fold written = Text.fold name := by simpa using List.find?_some hwritten
    rw [hwritten, Option.toList_some, List.map_singleton, presentedName_of_mem hknown hname hfold]

theorem presents_partsOf (hknown : (known.map Text.fold).Nodup)
    (writes : List (List Step × Option Text)) : Presents known writes (partsOf known writes) where
  apart := pairwise_partsOf known writes
  declared := fun _ hname => filter_partsOf_of_mem hknown writes hname
  others := by
    intro folded hother
    rw [filter_partsOf]
    apply List.map_congr_left
    intro name hname
    have hfold : Text.fold name = folded := by
      simpa using List.find?_some (Option.mem_toList.1 hname)
    rw [presentedName_of_not_mem (hfold ▸ hother)]
  named := by
    refine fun part hpart => ⟨fun hmem => ⟨part.1, hmem, rfl⟩, ?_⟩
    rintro ⟨name, hname, hfold⟩
    have hself : part ∈ (partsOf known writes).filter
        fun other => Text.fold other.1 == Text.fold name := by
      simp [hpart, hfold]
    rw [filter_partsOf_of_mem hknown writes hname] at hself
    split at hself
    · cases hself
    · exact List.mem_singleton.1 hself ▸ hname
  collects := by
    intro part hpart
    have hself : part ∈ (partsOf known writes).filter
        fun other => Text.fold other.1 == Text.fold part.1 := by
      simp [hpart]
    rw [filter_partsOf] at hself
    obtain ⟨name, -, hname⟩ := List.mem_map.1 hself
    exact ⟨_, (congrArg Prod.snd hname).symm, Tree.collects_ofWrites _⟩

end Input

/-! ## Fields that are there twice -/

namespace FieldReader

variable {α β : Type} {fields : List (FieldReader α)}

/-- A name means the field of some name, be it as that name or as an alias. -/
def Means (fields : List (FieldReader α)) (written name : Text) : Prop :=
  ∃ field, find? fields written = some field ∧ field.info.name = name

theorem Means.exists_mem {written name : Text} (h : Means fields written name) :
    ∃ field ∈ fields, field.info.name = name ∧ written ∈ name :: field.info.aliases := by
  obtain ⟨field, hfind, rfl⟩ := h
  have hknown := List.find?_some hfind
  rw [Bool.or_eq_true, beq_iff_eq, List.contains_iff_mem] at hknown
  exact ⟨field, List.mem_of_find?_eq_some hfind, rfl, List.mem_cons.2 (hknown.imp_left Eq.symm)⟩

/-- Fields of the same name are one when no name comes up twice. -/
theorem eq_of_name_eq (hnames : (names fields).Nodup) {left right : FieldReader α}
    (hleft : left ∈ fields) (hright : right ∈ fields) (h : left.info.name = right.info.name) :
    left = right := by
  by_contra hne
  have hsymm : Std.Symm (Function.onFun List.Disjoint fun field : FieldReader α =>
      field.info.name :: field.info.aliases) := ⟨fun _ _ h => List.disjoint_symm h⟩
  have hapart := (List.nodup_flatMap.1 hnames).2.forall hleft hright hne
  exact hapart List.mem_cons_self (h ▸ List.mem_cons_self)

theorem isSome_valueOf?_concat {found : List (Text × Datum)} {name own : Text} {datum : Datum}
    (h : (valueOf? (found ++ [(own, datum)]) name).isSome = true) :
    (valueOf? found name).isSome = true ∨ own = name := by
  rw [valueOf?, Entries.get?, Option.isSome_map, List.find?_isSome] at h
  obtain ⟨entry, hentry, hname⟩ := h
  rcases List.mem_append.1 hentry with hfound | hown
  · left
    rw [valueOf?, Entries.get?, Option.isSome_map, List.find?_isSome]
    exact ⟨entry, hfound, hname⟩
  · obtain rfl := List.mem_singleton.1 hown
    exact .inr (beq_iff_eq.1 hname)

/-- Reading fields complains of a field that is there twice when the content of a part does, or when
there are two parts whose names mean the field. -/
theorem readAll_duplicate {other : β → Text → α → Except DecodeFault β}
    {found : List (Text × Datum)} {others : β} {parts : List (Text × α)} {name : Text}
    (hother : ∀ others own part, other others own part ≠ .error (.duplicateField name))
    (h : readAll fields other found others parts = .error (.duplicateField name)) :
    (∃ field ∈ fields, ∃ part ∈ parts, field.read part.2 = .error (.duplicateField name)) ∨
      ∃ front part back, parts = front ++ part :: back ∧ Means fields part.1 name ∧
        ((valueOf? found name).isSome = true ∨ ∃ earlier ∈ front, Means fields earlier.1 name) := by
  induction parts generalizing found others with
  | nil => cases h
  | cons first parts ih =>
    obtain ⟨own, part⟩ := first
    -- what is found out about the later parts holds with this one in front of them
    have hlater : ∀ {found' others'}, (∀ {n}, (valueOf? found' n).isSome = true →
          (valueOf? found n).isSome = true ∨ Means fields own n) →
        readAll fields other found' others' parts = .error (.duplicateField name) →
        (∃ field ∈ fields, ∃ later ∈ (own, part) :: parts,
            field.read later.2 = .error (.duplicateField name)) ∨
          ∃ front later back, (own, part) :: parts = front ++ later :: back ∧
            Means fields later.1 name ∧
            ((valueOf? found name).isSome = true ∨
              ∃ earlier ∈ front, Means fields earlier.1 name) := by
      intro found' others' hfound hrest
      obtain ⟨field, hfield, later, hlater, hread⟩ | ⟨front, later, back, rfl, hmeans, hearlier⟩ :=
        ih hrest
      · exact .inl ⟨field, hfield, later, List.mem_cons_of_mem _ hlater, hread⟩
      · refine .inr ⟨(own, part) :: front, later, back, rfl, hmeans, ?_⟩
        obtain hbefore | ⟨earlier, hmem, hearlier⟩ := hearlier
        · exact (hfound hbefore).imp_right fun hown => ⟨(own, part), List.mem_cons_self, hown⟩
        · exact .inr ⟨earlier, List.mem_cons_of_mem _ hmem, hearlier⟩
    rw [readAll] at h
    cases hfind : find? fields own with
    | none =>
      rw [hfind] at h
      dsimp only at h
      cases hown : other others own part with
      | error fault =>
        rw [hown] at h
        cases h
        exact absurd hown (hother others own part)
      | ok others' =>
        rw [hown] at h
        exact hlater (fun hsome => .inl hsome) h
    | some field =>
      rw [hfind] at h
      dsimp only at h
      split at h
      · next hsome =>
        cases h
        exact .inr ⟨[], (own, part), parts, rfl, ⟨field, hfind, rfl⟩, .inl hsome⟩
      · cases hread : field.read part with
        | error fault =>
          rw [hread] at h
          cases h
          exact .inl ⟨field, List.mem_of_find?_eq_some hfind, (own, part), List.mem_cons_self,
            hread⟩
        | ok datum =>
          rw [hread] at h
          refine hlater (fun hsome => ?_) h
          exact (isSome_valueOf?_concat hsome).imp_right fun hown => ⟨field, hfind, hown⟩

/-- What is left to do when all parts were read can only find fields missing. -/
theorem complete_ne_duplicate (found : List (Text × Datum)) (fields : List (FieldReader α))
    (name : Text) : complete found fields ≠ .error (.duplicateField name) := by
  induction fields with
  | nil => nofun
  | cons field rest ih =>
    intro h
    rw [complete] at h
    cases hvalue : field.value found with
    | error fault =>
      rw [hvalue] at h
      cases h
      rw [value] at hvalue
      split at hvalue <;> cases hvalue
    | ok datum =>
      rw [hvalue] at h
      cases hrest : complete found rest with
      | error fault =>
        rw [hrest] at h
        cases h
        exact ih hrest
      | ok data =>
        rw [hrest] at h
        change (if field.info.skipsNull && datum.isNull then Except.ok data
          else .ok ((field.info.name, datum) :: data)) = .error _ at h
        split at h <;> cases h

theorem refuse_ne_duplicate (strict : Bool) (fields : List (FieldReader α)) (others : Unit)
    (own : Text) (part : α) (name : Text) :
    refuse strict fields others own part ≠ .error (.duplicateField name) := by
  cases strict <;> nofun

/-- A record complains of a field that is there twice when the content of a part does, or when there
are two parts whose names it takes for that field. One of these names is then an alias. -/
theorem readRecord_duplicate {strict : Bool} {parts : List (Text × α)} {name : Text}
    (hnames : (names fields).Nodup)
    (hparts : parts.Pairwise fun left right => Text.fold left.1 ≠ Text.fold right.1)
    (h : readRecord strict fields parts = .error (.duplicateField name)) :
    (∃ field ∈ fields, ∃ part ∈ parts, field.read part.2 = .error (.duplicateField name)) ∨
      ∃ field ∈ fields, field.info.name = name ∧
        ∃ left ∈ parts, ∃ right ∈ parts, left.1 ≠ right.1 ∧
          left.1 ∈ name :: field.info.aliases ∧ right.1 ∈ name :: field.info.aliases := by
  rw [readRecord] at h
  cases hread : readAll fields (refuse strict fields) [] () parts with
  | ok read =>
    rw [hread] at h
    change (complete read.1 fields >>= fun data => Except.ok (Datum.record data)) = _ at h
    cases hcomplete : complete read.1 fields with
    | ok data => rw [hcomplete] at h; cases h
    | error fault =>
      rw [hcomplete] at h
      cases h
      exact absurd hcomplete (complete_ne_duplicate _ _ _)
  | error fault =>
    rw [hread] at h
    cases h
    refine (readAll_duplicate (fun _ _ _ => refuse_ne_duplicate _ _ _ _ _ _) hread).imp_right ?_
    rintro ⟨front, right, back, rfl, hright, hsome | ⟨left, hleft, hmeans⟩⟩
    · cases hsome
    · have hapart := (List.pairwise_append.1 hparts).2.2 left hleft right List.mem_cons_self
      obtain ⟨field, hfield, hname, hknown⟩ := hmeans.exists_mem
      obtain ⟨other, hother, hsame, hknown'⟩ := hright.exists_mem
      obtain rfl := eq_of_name_eq hnames hfield hother (hname.trans hsame.symm)
      exact ⟨field, hfield, hname, left, List.mem_append_left _ hleft, right,
        List.mem_append_right _ List.mem_cons_self, fun heq => hapart (congrArg Text.fold heq),
        hknown, hknown'⟩

end FieldReader

/-! ## Other spellings -/

/-- Steps that are the same, or differ in the spelling of the name they begin with, which is a known
one. -/
inductive Step.RespelledFirst (known : List Text) : List Step → List Step → Prop where
  | same (steps : List Step) : RespelledFirst known steps steps
  | first {name written other : Text} (rest : List Step) (hname : name ∈ known)
      (hwritten : Text.fold written = Text.fold name) (hother : Text.fold other = Text.fold name) :
      RespelledFirst known (.member written :: rest) (.member other :: rest)

/-- Pairs with the same value whose keys lead through the same nodes. If they pass through the node
at the end of a trail, the names that follow there may be spelled in two ways if they are known
ones; whatever comes after that is spelled in the same way. -/
structure Pair.Respelled (known : List Text) (trail : List Label) (pair other : Pair) : Prop where
  value_eq : other.value = pair.value
  trail_eq : other.key.trail = pair.key.trail
  rest : trail <+: pair.key.trail →
    Step.RespelledFirst known ((stepsOf pair.key.parts).drop trail.length)
      ((stepsOf other.key.parts).drop trail.length)

theorem Step.RespelledFirst.presentedWrites_eq {steps others : List Step}
    (hknown : (known.map Text.fold).Nodup) (h : Step.RespelledFirst known steps others)
    (value : Option Text) :
    Tree.presentedWrites known [(others, value)] = Tree.presentedWrites known [(steps, value)] := by
  cases h with
  | same => rfl
  | @first name written other rest hname hwritten hother =>
    have hspelling : ∀ {own}, Text.fold own = Text.fold name →
        (Spelling.ofName own).presented known = ⟨Text.fold name, name⟩ := by
      intro own hown
      rw [Spelling.presented, Input.presentedName_of_mem hknown hname hown, Spelling.ofName, hown]
    have hwrite : ∀ own : Text, Tree.presentedWrites known [(.member own :: rest, value)] =
        [((Spelling.ofName own).presented known, rest, value)] := fun _ => rfl
    rw [hwrite, hwrite, hspelling hother, hspelling hwritten]

theorem Tree.presentedWrites_append (known : List Text)
    (front back : List (List Step × Option Text)) :
    presentedWrites known (front ++ back) =
      presentedWrites known front ++ presentedWrites known back := by
  rw [presentedWrites, branchWrites, List.filterMap_append, List.map_append]
  rfl

theorem Tree.behind_writesOf_cons (trail : List Label) (pair : Pair) (pairs : List Pair) :
    behind trail (writesOf (pair :: pairs)) =
      (if trail <+: pair.key.trail then [((stepsOf pair.key.parts).drop trail.length, pair.value)]
        else []) ++ behind trail (writesOf pairs) := by
  rw [writesOf, List.map_cons, behind, List.filterMap_cons, KeyPath.trail]
  split_ifs <;> rfl

/-- What is presented of pairs does not depend on how known names are spelled. -/
theorem Tree.presentedWrites_respelled (hknown : (known.map Text.fold).Nodup)
    {pairs others : List Pair} (h : List.Forall₂ (Pair.Respelled known trail) pairs others) :
    presentedWrites known (behind trail (writesOf others)) =
      presentedWrites known (behind trail (writesOf pairs)) := by
  induction h with
  | nil => rfl
  | cons hfirst _ ih =>
    rw [behind_writesOf_cons, behind_writesOf_cons, presentedWrites_append,
      presentedWrites_append, ih, hfirst.trail_eq, hfirst.value_eq]
    split_ifs with hpassed
    · rw [(hfirst.rest hpassed).presentedWrites_eq hknown]
    · rfl

theorem Tree.behind_respelled_eq_nil {pairs others : List Pair}
    (h : List.Forall₂ (Pair.Respelled known trail) pairs others) :
    behind trail (writesOf others) = [] ↔ behind trail (writesOf pairs) = [] := by
  induction h with
  | nil => rfl
  | cons hfirst _ ih =>
    rw [behind_writesOf_cons, behind_writesOf_cons, List.append_eq_nil_iff,
      List.append_eq_nil_iff, ih, hfirst.trail_eq]
    split_ifs <;> simp

/-! ## Records of pairs -/

/-- **A record sees each field once, in any spelling.** At a node of the tree of some pairs, a
record whose names have forms of their own sees one part for each form: under the name as the record
knows it, with everything that the pairs write to the node in any spelling of that name, so that the
last value written counts; or, when it knows no name of that form, as it was written first, which is
then not one of its names. So it complains of a field that is there twice only when the field has an
alias and two of its names were written, or when the content of a field complains. Pairs in which
the record's names are spelled in another way, be it by the case of ASCII letters or by outer
blanks, give it the same parts. -/
theorem Input.fields_ofPairs {pairs : List Pair} {steps : List Step} {node : Tree}
    (hnode : (Tree.ofPairs pairs).walk? steps = some node) (hknown : (known.map Text.fold).Nodup) :
    ∃ parts, (Input.tree node).fields known = .ok parts ∧
      Presents known (Tree.behind (steps.map Step.label) (Tree.writesOf pairs)) parts ∧
      (∀ strict (readers : List (FieldReader Input)) name, FieldReader.names readers = known →
        FieldReader.readRecord strict readers parts = .error (.duplicateField name) →
        (∃ reader ∈ readers, ∃ part ∈ parts, reader.read part.2 = .error (.duplicateField name)) ∨
          ∃ reader ∈ readers, reader.info.name = name ∧
            ∃ left ∈ parts, ∃ right ∈ parts, left.1 ≠ right.1 ∧
              left.1 ∈ name :: reader.info.aliases ∧ right.1 ∈ name :: reader.info.aliases) ∧
      (∀ others, List.Forall₂ (Pair.Respelled known (steps.map Step.label)) pairs others →
        ∃ node', (Tree.ofPairs others).walk? steps = some node' ∧
          (Input.tree node').fields known = .ok parts) ∧
      ∀ left right, Text.sameIgnoringAsciiCase (Text.trim left) (Text.trim right) = true →
        Text.fold left = Text.fold right := by
  have hwalk : ∀ own node', (Tree.ofPairs own).walk? steps = some node' ↔
      (steps = [] ∨ Tree.behind (steps.map Step.label) (Tree.writesOf own) ≠ []) ∧
        node' = .ofWrites (Tree.behind (steps.map Step.label) (Tree.writesOf own)) := by
    intro own node'
    rw [Tree.ofPairs_eq_ofWrites, Tree.walk?_ofWrites]
    split_ifs with hthere
    · rw [and_iff_right hthere, Option.some.injEq]
      exact eq_comm
    · simp [hthere]
  obtain ⟨hthere, rfl⟩ := (hwalk pairs node).1 hnode
  refine ⟨_, fields_ofWrites known _, presents_partsOf hknown _, ?_, ?_, ?_⟩
  · rintro strict readers name rfl hduplicate
    exact FieldReader.readRecord_duplicate hknown.of_map (pairwise_partsOf _ _) hduplicate
  · intro others hothers
    refine ⟨_, (hwalk others _).2 ⟨?_, rfl⟩, ?_⟩
    · rwa [ne_eq, Tree.behind_respelled_eq_nil hothers]
    · rw [fields_ofWrites, partsOf, partsOf, Tree.presentedWrites_respelled hknown hothers]
  · intro left right hsame
    exact Text.fold_eq_of_sameIgnoringAsciiCase hsame

/-- A record with fields in several spellings, and a member that it does not know. -/
def spelledPairs : List Pair :=
  [.ofText "User.NAME".toList (some "A".toList), .ofText "user. age".toList (some "3".toList),
    .ofText "user.Extra".toList none, .ofText " USER.name ".toList (some "B".toList),
    .ofText "user.extra".toList (some "C".toList)]

theorem fields_spelledPairs :
    let known := ["name".toList, "age".toList]
    let steps := [Step.member "user".toList]
    ∃ node, (Tree.ofPairs spelledPairs).walk? steps = some node ∧ (known.map Text.fold).Nodup ∧
      ∃ parts, (Input.tree node).fields known = .ok parts ∧
        Input.Presents known (Tree.behind (steps.map Step.label) (Tree.writesOf spelledPairs))
          parts := by
  intro known steps
  have hthere : ((Tree.ofPairs spelledPairs).walk? steps).isSome = true := by decide
  obtain ⟨node, hnode⟩ := Option.isSome_iff_exists.1 hthere
  have hknown : (known.map Text.fold).Nodup := by decide
  obtain ⟨parts, hparts, hpresents, -⟩ := Input.fields_ofPairs hnode hknown
  exact ⟨node, hnode, hknown, parts, hparts, hpresents⟩

-- the last value of a field counts, and the first spelling of other members
example : (Input.partsOf ["name".toList, "age".toList]
      (Tree.behind [.name "user".toList] (Tree.writesOf spelledPairs))).map
        (fun part => (part.1, part.2.text.toOption)) =
    [("name".toList, some "B".toList), ("age".toList, some "3".toList),
      ("Extra".toList, some "C".toList)] := by decide

/-- A field that is read under two names. -/
def titledFields : List (FieldInfo × Shape) :=
  [({ name := "Display Name".toList, aliases := ["title".toList] }, .text),
    ({ name := "note".toList }, .optional .text)]

/-- Both names of the field, spelled in other ways. -/
def titledPairs : List Pair :=
  [.ofText "DISPLAY name".toList (some "a".toList), .ofText " Title".toList (some "b".toList)]

/-- A field is there twice when both names of it are. -/
theorem titledFields_duplicate :
    ((titledFields.flatMap fun field => field.1.name :: field.1.aliases).map Text.fold).Nodup ∧
      Shape.ofPairs [] ',' (.record true titledFields) titledPairs =
        .error (.duplicateField "Display Name".toList) := by
  have htree : Tree.ofPairs titledPairs = .node none
      [(⟨"display name".toList, "DISPLAY name".toList⟩, .node (some (some "a".toList)) [] []),
        (⟨"title".toList, "Title".toList⟩, .node (some (some "b".toList)) [] [])] [] := rfl
  refine ⟨by decide, ?_⟩
  rw [Shape.ofPairs, Shape.decode, htree, Shape.decodeTo]
  simp only [Shape.decodeIn, titledFields, Shape.inputFieldReaders, Shape.text]
  rfl

end KeyedText
