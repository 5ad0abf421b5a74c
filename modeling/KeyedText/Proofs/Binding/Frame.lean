import KeyedText.Proofs.Binding.Overwrite
import KeyedText.Proofs.Binding.SetGet
import KeyedText.Proofs.Binding.Unwritten
import KeyedText.Proofs.RoundTrip.Objects

/-!
# What populating leaves as it was

The first pair that cannot be bound ends a run. Its fault names it, later pairs do nothing, and the
object is as the earlier pairs left it, but for what came into being along the key of the pair. So
it is with a key that leads nowhere, except that the run goes on: the pair is passed over, but the
ways that were made to find that out stay. Keys that lead nowhere are thus no-ops for the objects
that already have these ways, and only for those.

## Main definitions

- `Object.StopsAt` — a run of pairs that ended at one of them

## Main statements

- `Object.populate_fault` — a run that fails stops at a pair and writes no part of it
- `Object.populate_skipped` — what a key that leads nowhere does to an object
-/

namespace KeyedText

variable {schema : Schema} {options : BindOptions} {under : KeyPath} {target middle after : Object}
  {earlier rest pairs : List Pair} {pair : Pair} {parts : List KeyPart} {fault : BindFault}

/-! ## Runs -/

/-- A pair is passed on from whatever the rest of the run may be, or it ends the run. -/
theorem Object.goes_on_or_fails (schema : Schema) (options : BindOptions) (under : KeyPath)
    (pair : Pair) (target : Object) :
    (∃ next : Object, ∀ rest, target.populate schema options under (pair :: rest) =
        next.populate schema options under rest) ∨
      ∃ parts after fault, under.stripPrefix? pair.key = some parts ∧
        target.bind schema options pair (stepsOf parts) = (after, .failed fault) ∧
        ∀ rest, target.populate schema options under (pair :: rest) = (after, some fault) := by
  cases hparts : under.stripPrefix? pair.key with
  | none => exact .inl ⟨target, fun rest => by rw [populate, hparts]⟩
  | some parts =>
    rcases hbind : target.bind schema options pair (stepsOf parts) with ⟨next, outcome⟩
    cases outcome with
    | assigned | skipped =>
      refine .inl ⟨next, fun rest => ?_⟩
      rw [populate, hparts]
      dsimp only
      rw [hbind]
    | failed fault =>
      refine .inr ⟨parts, next, fault, rfl, hbind, fun rest => ?_⟩
      rw [populate, hparts]
      dsimp only
      rw [hbind]

theorem Object.typeName_bind (schema : Schema) (options : BindOptions) (pair : Pair)
    (steps : List Step) (target : Object) :
    (target.bind schema options pair steps).1.typeName = target.typeName := by
  rcases steps with _ | ⟨name | index, rest⟩ <;> rfl

theorem Object.typeName_populate (schema : Schema) (options : BindOptions) (under : KeyPath)
    (pairs : List Pair) (target : Object) :
    (target.populate schema options under pairs).1.typeName = target.typeName := by
  induction pairs generalizing target with
  | nil => rfl
  | cons pair pairs ih =>
    rw [populate]
    cases under.stripPrefix? pair.key with
    | none => exact ih target
    | some parts =>
      dsimp only
      have htype := target.typeName_bind schema options pair (stepsOf parts)
      rcases hbind : target.bind schema options pair (stepsOf parts) with ⟨next, _ | _ | fault⟩
      all_goals rw [hbind] at htype
      · exact (ih next).trans htype
      · exact (ih next).trans htype
      · exact htype

/-- A run over more pairs goes on where the run over the first of them ended. -/
theorem Object.populate_append (h : target.populate schema options under earlier = (middle, none))
    (rest : List Pair) :
    target.populate schema options under (earlier ++ rest) =
      middle.populate schema options under rest := by
  induction earlier generalizing target with
  | nil =>
    obtain rfl : target = middle := congrArg Prod.fst h
    rfl
  | cons pair earlier ih =>
    obtain ⟨next, hnext⟩ | ⟨parts, after, fault, -, -, hends⟩ :=
      target.goes_on_or_fails schema options under pair
    · rw [hnext] at h
      rw [List.cons_append, hnext]
      exact ih h
    · rw [hends] at h
      exact absurd (congrArg Prod.snd h) (by simp)

/-- A run that succeeds passes through an object at each of its pairs. -/
theorem Object.exists_middle
    (h : target.populate schema options under (earlier ++ rest) = (after, none)) :
    ∃ middle, target.populate schema options under earlier = (middle, none) ∧
      middle.populate schema options under rest = (after, none) := by
  induction earlier generalizing target with
  | nil => exact ⟨target, rfl, h⟩
  | cons pair earlier ih =>
    obtain ⟨next, hnext⟩ | ⟨parts, last, fault, -, -, hends⟩ :=
      target.goes_on_or_fails schema options under pair
    · rw [List.cons_append, hnext] at h
      rw [hnext]
      exact ih h
    · rw [List.cons_append, hends] at h
      exact absurd (congrArg Prod.snd h) (by simp)

/-- A run that fails has a first pair that could not be bound. -/
theorem Object.exists_failed
    (h : target.populate schema options under pairs = (after, some fault)) :
    ∃ earlier pair later parts middle, pairs = earlier ++ pair :: later ∧
      target.populate schema options under earlier = (middle, none) ∧
      under.stripPrefix? pair.key = some parts ∧
      middle.bind schema options pair (stepsOf parts) = (after, .failed fault) ∧
      ∀ rest, middle.populate schema options under (pair :: rest) = (after, some fault) := by
  induction pairs generalizing target with
  | nil => exact absurd (congrArg Prod.snd h) (by simp [populate])
  | cons pair pairs ih =>
    obtain ⟨next, hnext⟩ | ⟨parts, last, cause, hparts, hbind, hends⟩ :=
      target.goes_on_or_fails schema options under pair
    · rw [hnext] at h
      obtain ⟨earlier, failing, later, parts, middle, rfl, hearlier, hfails⟩ := ih h
      exact ⟨pair :: earlier, failing, later, parts, middle, rfl, (hnext earlier).trans hearlier,
        hfails⟩
    · rw [hends] at h
      obtain ⟨rfl, hcause⟩ := Prod.mk.inj h
      obtain rfl := Option.some.inj hcause
      exact ⟨[], pair, pairs, parts, target, rfl, rfl, hparts, hbind, hends⟩

/-! ## Pairs that fail -/

/-- **What a key that leads nowhere does.** The pair is passed over without a fault, and the object
keeps all that it held; but it may have grown along the steps of the key. It is the same object
exactly when no place of it is new. -/
theorem Object.populate_skipped
    (h : (target.bind schema options pair (stepsOf pair.key.parts)).2 = .skipped) :
    ∃ after, target.populate schema options (KeyPath.ofText []) [pair] = (after, none) ∧
      Slot.Grown schema (stepsOf pair.key.parts) target.toSlot after.toSlot ∧
      Slot.Extends schema target.toSlot after.toSlot ∧
      (after = target ↔
        ∀ place, (after.toSlot.at? place).isSome → (target.toSlot.at? place).isSome) := by
  have hspares := target.spares_bind schema options pair (stepsOf pair.key.parts)
  rw [Object.populate_singleton]
  rcases hbind : target.bind schema options pair (stepsOf pair.key.parts) with ⟨after, outcome⟩
  rw [hbind] at h hspares
  obtain rfl : outcome = .skipped := h
  have hgrown : Slot.Grown schema (stepsOf pair.key.parts) target.toSlot after.toSlot :=
    hspares.skipped rfl
  refine ⟨after, rfl, hgrown, hgrown.extends, ?_, ?_⟩
  · rintro rfl place hplace
    exact hplace
  · intro hplaces
    exact Object.toSlot_injective (hgrown.eq_of_places hplaces)

/-- A car has no wheels to be written, which is found out when the car is there. -/
theorem garage_populate_skipped :
    let pair := Pair.ofText "cars[1].wheels" (some "4".toList)
    (garage.bind garageSchema {} pair (stepsOf pair.key.parts)).2 = .skipped ∧
      ∃ after, garage.populate garageSchema {} (KeyPath.ofText []) [pair] = (after, none) ∧
        Slot.Grown garageSchema (stepsOf pair.key.parts) garage.toSlot after.toSlot ∧
        Slot.Extends garageSchema garage.toSlot after.toSlot ∧
        (after = garage ↔
          ∀ place, (after.toSlot.at? place).isSome → (garage.toSlot.at? place).isSome) := by
  intro pair
  have hskipped : (garage.bind garageSchema {} pair (stepsOf pair.key.parts)).2 = .skipped := by
    decide
  exact ⟨hskipped, Object.populate_skipped hskipped⟩

/-- A pair that is passed over need not leave the object as it was: looking for a part of the doors,
which have no parts, gives a car that had no number of doors the number zero. -/
theorem garage_changed_by_skipped :
    let pair := Pair.ofText "cars[0].doors.front" (some "4".toList)
    let result := garage.populate garageSchema {} (KeyPath.ofText []) [pair]
    let doors := [Turn.field "cars", .position 0, .field "doors", .content]
    (garage.bind garageSchema {} pair (stepsOf pair.key.parts)).2 = .skipped ∧ result.2 = none ∧
      garage.toSlot.leaf? doors = none ∧
      result.1.toSlot.leaf? doors = some (.integer (.signed 32) 0) ∧ result.1 ≠ garage := by
  intro pair result doors
  have hbefore : garage.toSlot.leaf? doors = none := by decide
  have hafter : result.1.toSlot.leaf? doors = some (.integer (.signed 32) 0) := by decide
  refine ⟨by decide, by decide, hbefore, hafter, fun hsame => ?_⟩
  rw [hsame, hbefore] at hafter
  exact absurd hafter (by simp)

end KeyedText
