import KeyedText.Proofs.Encoding.Arranged
import KeyedText.Proofs.RoundTrip.Values
import KeyedText.Source.Content
import Mathlib.Data.List.Forall2

/-!
# Objects that come back

An object that was written is what a new object becomes when it is populated with the text. The text
has one pair for each leaf of the object, in order; the key of the pair is read as the steps to the
leaf, and a new object that takes the leaves holds what the object holds.

## Main statements

- `WritesUnder.pairs` — the pairs of the text of some leaves
- `Object.populate_of_takes` — populating an object is taking the leaves
- `Object.populate_encode` — the round trip of an object
-/

namespace KeyedText

variable {schema : Schema} {values : EnumValues} {encoding : EncodeOptions} {options : BindOptions}
  {leaves : List Leaf} {text : Text} {target object : Object}

/-- A pair that is read as some steps from a member and a text. -/
def Pair.ReadsAs (pair : Pair) (heard : List Step × Text) : Prop :=
  stepsOf pair.key.parts = heard.1 ∧ pair.value = some heard.2 ∧
    ∃ name rest, heard.1 = .member name :: rest

theorem exists_member_of_mem_leaves {typeName : Text} {fields : Fields} {leaf : Leaf}
    (h : leaf ∈ (Slot.object typeName fields).leaves schema) :
    ∃ name rest, leaf.1 = .member name :: rest := by
  rw [Slot.leaves] at h
  obtain ⟨member, -, hleaf⟩ := List.mem_flatMap.1 h
  rw [Member.leaves] at hleaf
  split at hleaf
  · exact absurd hleaf (by simp)
  · obtain ⟨inner, -, rfl⟩ := List.mem_map.1 hleaf
    exact ⟨member.name, inner.1, rfl⟩

/-- The text of leaves that start from members has one pair for each of them. -/
theorem WritesUnder.pairs (h : WritesUnder encoding [] leaves text)
    (hmember : ∀ leaf ∈ leaves, ∃ name rest, leaf.1 = .member name :: rest) :
    List.Forall₂ Pair.ReadsAs (Content.ofText text).pairs (leaves.map (Leaf.heard encoding)) := by
  have haccepted : ∀ leaf ∈ leaves, (WrittenKey.along [] leaf.1).Accepted := by
    intro leaf hleaf
    obtain ⟨name, rest, hstart⟩ := hmember leaf hleaf
    have hsegments := h.accepted leaf hleaf
    rw [Leaf.Accepted, hstart, List.forall_mem_cons] at hsegments
    rw [hstart]
    exact (WrittenKey.accepted_name hsegments.1).along hsegments.2
  have hpairs : ∀ pair ∈ leaves.map (Leaf.pair []), pair.1.Accepted := by
    intro pair hpair
    obtain ⟨leaf, hleaf, rfl⟩ := List.mem_map.1 hpair
    exact haccepted leaf hleaf
  have hfound := (writeAll_selfContained hpairs h.concat).ofText_eq
  have hcontent : (Content.ofText text).pairs =
      ((RawPair.ofText text).map RawPair.entry).map fun entry => Pair.ofText entry.1 entry.2 := by
    rw [List.map_map]
    rfl
  rw [hcontent, hfound, List.map_map, List.map_map, List.forall₂_map_left_iff,
    List.forall₂_map_right_iff, List.forall₂_same]
  intro leaf hleaf
  obtain ⟨name, rest, hstart⟩ := hmember leaf hleaf
  have hkey := (haccepted leaf hleaf).legible.ofText_text
  have hsteps := WrittenKey.steps_along_member name rest
  rw [← hstart] at hsteps
  refine ⟨?_, rfl, name, rest.map Segment.toStep, by rw [Leaf.heard, hstart]; rfl⟩
  change stepsOf (KeyPath.ofText (WrittenKey.along [] leaf.1).text).parts = _
  rw [hkey]
  exact hsteps

/-- A pair that starts from a member is bound in an object as it is in its slot. -/
theorem Object.toSlot_bind (pair : Pair) (name : Text) (rest : List Step) (target : Object) :
    Slot.bind schema options.converters pair.value
        (Site.ofPair options pair (schema.find target.typeName).label) (.member name :: rest)
        target.toSlot =
      ((target.bind schema options pair (.member name :: rest)).1.toSlot,
        (target.bind schema options pair (.member name :: rest)).2) := by
  rfl

/-- Populating an object is taking what is heard of the leaves. -/
theorem Object.populate_of_takes {pairs : List Pair} {heard : List (List Step × Text)}
    {after : Slot}
    (hpairs : List.Forall₂ Pair.ReadsAs pairs heard)
    (htakes : Slot.Takes schema options.converters heard target.toSlot after) :
    ∃ result : Object, result.toSlot = after ∧
      target.populate schema options (KeyPath.ofText []) pairs = (result, none) := by
  -- one pair after the other; the object in between is what the slot in between stands for
  induction hpairs generalizing target with
  | nil =>
    cases htakes
    exact ⟨target, rfl, rfl⟩
  | @cons pair heard pairs rest hpair _ ih =>
    obtain ⟨hsteps, hvalue, name, more, hstart⟩ := hpair
    cases htakes with
    | @cons steps text _ _ middle _ binds htakes =>
      obtain rfl : steps = .member name :: more := hstart
      have hplain :
          (Site.ofPair options pair (schema.find target.typeName).label).member.converter = none :=
        rfl
      have hbind := binds.bind hplain
      rw [← hvalue, Object.toSlot_bind] at hbind
      obtain ⟨hmiddle, houtcome⟩ := Prod.mk.inj hbind
      rw [← hmiddle] at htakes
      obtain ⟨result, hresult, hpopulate⟩ := ih htakes
      refine ⟨result, hresult, ?_⟩
      have hparts : (KeyPath.ofText []).stripPrefix? pair.key = some pair.key.parts := rfl
      rw [Object.populate, hparts]
      dsimp only
      rw [hsteps]
      generalize target.bind schema options pair (.member name :: more) = bound
        at houtcome hpopulate ⊢
      obtain ⟨next, outcome⟩ := bound
      obtain rfl : outcome = .assigned := houtcome
      exact hpopulate

theorem Object.toSlot_injective : Function.Injective Object.toSlot := by
  rintro ⟨typeName, fields⟩ ⟨typeName', fields'⟩ h
  obtain ⟨rfl, rfl⟩ := Slot.object.inj h
  rfl

/-- A value of an admissible type holds no hashed maps, so that no two keys have one text there. -/
theorem Slot.Fits.keysApart {writing admitted : Text → Prop} {type : SlotType} {slot : Slot}
    (hclass : schema.Classified values writing admitted) (h : slot.Fits schema values type)
    (hadmissible : type.Admissible values writing admitted) : slot.KeysApart := by
  induction h with
  | scalar value => exact .scalar value
  | vacant content => exact .vacant content
  | filled _ ih => exact .filled (ih (SlotType.AlwaysWrites.admissible hclass hadmissible))
  | list _ _ ih =>
    exact .list fun item hitem =>
      ih item hitem (SlotType.AlwaysWrites.admissible hclass hadmissible)
  | map _ _ _ ih =>
    obtain ⟨hkind, -, hwrites⟩ := hadmissible
    refine .map (fun hhashed => ?_) fun entry hentry =>
      ih entry hentry (SlotType.AlwaysWrites.admissible hclass hwrites)
    rcases hkind with rfl | rfl <;> contradiction
  | @object typeName fields names _ ih =>
    have htype := hclass.of_admitted typeName hadmissible
    refine .object fun entry hentry => ?_
    have hslot := Entries.get?_of_mem (names ▸ htype.fieldNames) hentry
    obtain ⟨fresh, hfresh, hadmissible⟩ := htype.field names hslot
    exact ih entry.1 fresh entry.2 hfresh hslot hadmissible

/-- **An object comes back.** When an object of an admissible type is written, a new object of the
type that is populated with the text is the same, unless a text of the object ends in a carriage
return and lines end in line feeds only. -/
theorem Object.populate_encode {order : HashOrder} (hadmits : schema.Admits values object.typeName)
    (hfits : object.toSlot.Fits schema values (.object object.typeName))
    (hreturns : object.toSlot.KeepsReturns encoding)
    (htext : object.encode schema encoding order = .ok text) :
    (schema.newObject object.typeName).populate schema options (KeyPath.ofText [])
      (Content.ofText text).pairs = (object, none) := by
  obtain ⟨writing, admitted, hclass, hadmitted⟩ := hadmits
  rw [Object.encode_of_keysApart (hfits.keysApart hclass hadmitted)] at htext
  -- `Fits.writes` is about slots under a key, and the object itself has none
  have hwrites : WritesUnder encoding [] (object.toSlot.leaves schema) text := by
    have htype := hclass.of_admitted _ hadmitted
    obtain ⟨typeName, fields⟩ := object
    cases hfits with
    | object names fits =>
      refine writes_object (.inl rfl) htype.noIndexer (fun field slot hslot => ?_) htext
      obtain ⟨fresh, hfresh, hadmissible⟩ := htype.field names hslot
      exact (fits field fresh slot hfresh hslot).writes hclass hadmissible
  have hback := hfits.comesBack hclass options.converters hadmitted hwrites.accepted hreturns
  have hempty : (schema.newObject object.typeName).toSlot.Empty schema (.object object.typeName) :=
    hclass.empty_initial hadmitted
  have hpairs := hwrites.pairs fun leaf => exists_member_of_mem_leaves
  obtain ⟨result, hresult, hpopulate⟩ :=
    Object.populate_of_takes hpairs (hback _ (.inl hempty))
  rwa [Object.toSlot_injective hresult] at hpopulate

/-- A person has a name, perhaps an age, kids and the grades of each subject. -/
def personType : ObjectType where
  typeName := "Person"
  label := "Person"
  members :=
    [{ name := "Name", field := "name" }, { name := "age", field := "age" },
     { name := "kids", field := "kids" }, { name := "grades", field := "grades" }]
  initial :=
    [("name", .scalar (.text .plain [])),
     ("age", .vacant (.scalar (.integer (.unsigned 8)))),
     ("kids", .list (.object "Person") []),
     ("grades", .map "Grades" .sorted (.single (.text .plain)) (.list (.scalar .bool)) [])]

/-- Persons are the only objects. -/
def personSchema : Schema where
  types := [personType]

/-- A person with the given contents. -/
def person (name : Text) (age : Slot) (kids : List Slot) (grades : List (MapKey × Slot)) :
    Object where
  typeName := "Person"
  fields :=
    [("name", .scalar (.text .plain name)), ("age", age),
     ("kids", .list (.object "Person") kids),
     ("grades", .map "Grades" .sorted (.single (.text .plain)) (.list (.scalar .bool)) grades)]

/-- A kid without anything but a name. -/
def bob : Object :=
  person "Bob" (.vacant (.scalar (.integer (.unsigned 8)))) [] []

/-- A person with a name on two lines, an age, a kid, and no grades in one of two subjects. -/
def ann : Object :=
  person "Ann\nLee" (.filled (.scalar (.integer (.unsigned 8) 9))) [bob.toSlot]
    [(.single (.text .plain "Art"), .list (.scalar .bool) [.scalar (.bool true)]),
     (.single (.text .plain "Gym, outdoors"), .list (.scalar .bool) [])]

theorem admits_person (values : EnumValues) : personSchema.Admits values "Person" := by
  refine ⟨(· = "Person"), (· = "Person"), ⟨?_, ?_⟩, rfl⟩
  · rintro _ rfl
    have htype : personSchema.find "Person" = personType := rfl
    rw [htype]
    refine ⟨rfl, by decide, by decide, by decide, by decide, by decide, by decide, ?_, ?_⟩
    · simp only [personType, List.forall_mem_cons]
      exact ⟨⟨_, rfl, trivial⟩, ⟨_, rfl, trivial⟩, ⟨_, rfl, rfl⟩,
        ⟨_, rfl, .inl rfl, trivial, trivial⟩, by simp⟩
    · intro field slot hslot
      have hmem := Entries.mem_of_get? hslot
      simp only [personType, List.mem_cons, Prod.mk.injEq, List.not_mem_nil, or_false] at hmem
      rcases hmem with ⟨-, rfl⟩ | ⟨-, rfl⟩ | ⟨-, rfl⟩ | ⟨-, rfl⟩
      · exact .scalar _
      · exact .vacant _
      · exact .list _
      · exact .map _ _ _ _
  · rintro _ rfl
    exact ⟨rfl, { name := "Name", field := "name" }, List.mem_cons_self, _, rfl, trivial⟩

theorem fits_person {age : Slot} {kids : List Slot} {grades : List (MapKey × Slot)} (name : Text)
    (hage : age.Fits personSchema values (.option (.scalar (.integer (.unsigned 8)))))
    (hkids : ∀ kid ∈ kids, kid.Fits personSchema values (.object "Person"))
    (hlength : kids.length < 2 ^ 64)
    (hgrades : (Slot.map "Grades" .sorted (.single (.text .plain)) (.list (.scalar .bool))
      grades).Fits personSchema values
        (.map "Grades" .sorted (.single (.text .plain)) (.list (.scalar .bool)))) :
    (person name age kids grades).toSlot.Fits personSchema values (.object "Person") := by
  refine .object rfl fun field fresh slot hfresh hslot => ?_
  have hmem := Entries.mem_of_get? hslot
  simp only [person, List.mem_cons, Prod.mk.injEq, List.not_mem_nil, or_false] at hmem
  rcases hmem with ⟨rfl, rfl⟩ | ⟨rfl, rfl⟩ | ⟨rfl, rfl⟩ | ⟨rfl, rfl⟩
  · obtain rfl := Option.some.inj hfresh
    exact .scalar (.text .plain name) trivial
  · obtain rfl := Option.some.inj hfresh
    exact hage
  · obtain rfl := Option.some.inj hfresh
    exact .list hkids hlength
  · obtain rfl := Option.some.inj hfresh
    exact hgrades

/-- A person with a kid comes back. -/
theorem ann_populate_encode : ∃ text, ann.encode personSchema { crlf := true } = .ok text ∧
    (personSchema.newObject "Person").populate personSchema {} (KeyPath.ofText [])
      (Content.ofText text).pairs = (ann, none) := by
  have hbob : bob.toSlot.Fits personSchema (fun _ _ => False) (.object "Person") :=
    fits_person _ (.vacant _) (by simp) (by decide) (.map (by simp) (by simp) .nil)
  have hann : ann.toSlot.Fits personSchema (fun _ _ => False) (.object "Person") := by
    refine fits_person _ (.filled (.scalar (.integer (.unsigned 8) 9) rfl)) (by simpa using hbob)
      (by decide) (.map ?_ ?_ ?_)
    · simp only [List.forall_mem_cons]
      exact ⟨⟨rfl, trivial⟩, ⟨rfl, trivial⟩, by simp⟩
    · simp only [List.forall_mem_cons]
      refine ⟨.list ?_ (by decide), .list (by simp) (by decide), by simp⟩
      simp only [List.mem_singleton, forall_eq]
      exact .scalar (.bool true) trivial
    · exact List.pairwise_pair.2 ⟨by decide, fun _ => by decide⟩
  obtain ⟨text, htext⟩ : ∃ text, ann.encode personSchema { crlf := true } = .ok text := ⟨_, rfl⟩
  exact ⟨text, htext, Object.populate_encode (admits_person _) hann (.inl rfl) htext⟩

end KeyedText
