import KeyedText.Binding.Walk

/-!
# Populating objects

All pairs under a key are bound into one object, or divided into groups by the index of a part and
bound into one object for each group. The first fault ends the run; what was written before it
stays.

## Main definitions

- `Object.populate` — an object after the pairs under a key
- `Grouping` — how the pairs under a key are divided
- `Grouping.populate` — one object for each group
-/

namespace KeyedText

/-- An object after the pairs under a key, and the fault that ended the run, if any. -/
def Object.populate (schema : Schema) (options : BindOptions) (under : KeyPath) :
    List Pair → Object → Object × Option BindFault
  | [], target => (target, none)
  | pair :: rest, target =>
    match under.stripPrefix? pair.key with
    | none => Object.populate schema options under rest target
    | some parts =>
      match target.bind schema options pair (stepsOf parts) with
      | (target, .failed fault) => (target, some fault)
      | (target, _) => Object.populate schema options under rest target

/-- Says whether two texts of indices name the same group. -/
abbrev KeyComparer := Text → Text → Bool

/-- Texts name the same group when they are equal. -/
def KeyComparer.ordinal : KeyComparer := fun left right => left == right

/-- Texts name the same group when they are equal up to case. -/
def KeyComparer.ignoringCase : KeyComparer := Text.sameIgnoringCase

/-- The label of a group: the text of the index, or `none` without one. -/
abbrev GroupKey := Option Text

/-- Whether two labels name the same group. Pairs without an index form a group of their own. -/
def KeyComparer.sameGroup (same : KeyComparer) : GroupKey → GroupKey → Bool
  | some left, some right => same left right
  | none, none => true
  | _, _ => false

/-- A pair on its way into a group, with the steps that are left behind the index that chose it. -/
structure Routed where
  group : GroupKey
  pair : Pair
  steps : List Step
  deriving DecidableEq, Repr

/-- The pair with the group that it belongs to, if its key starts with the parts of the scope and a
part of the last name. Without a last name every first part will do. -/
def Routed.ofPair? (scope : List KeyPart) (last : Option KeyPart) (pair : Pair) : Option Routed :=
  match KeyPath.stripParts? scope pair.key.parts with
  | none => none
  | some [] => none
  | some (part :: rest) =>
    let fits := match last with
      | some last => part.hasName last.name
      | none => true
    if fits then
      some
        { group := part.indices.head?.map Index.text
          pair
          steps := (part.indices.drop 1).map .index ++ stepsOf rest }
    else none

/-- The pairs under a key with the groups that they belong to. -/
def Routed.ofPairs (under : KeyPath) (pairs : List Pair) : List Routed :=
  pairs.filterMap (Routed.ofPair? under.parts.dropLast under.parts.getLast?)

/-- Groups in the order of their first pairs, each with its label and its pairs. -/
abbrev Grouping := List (GroupKey × List Routed)

namespace Grouping

/-- The labels in the order in which they occur, each of them once. -/
def labels : List GroupKey → List GroupKey
  | [] => []
  | key :: rest => key :: (labels rest).filter (· != key)

/-- One group for each label, with the pairs that bear it. -/
def ofLabels (routed : List Routed) : Grouping :=
  (labels (routed.map Routed.group)).map fun key => (key, routed.filter (·.group == key))

/-- The groups with one more pair, which joins the first group that is the same, or starts a new
one. -/
def add (same : KeyComparer) (entry : Routed) : Grouping → Grouping
  | [] => [(entry.group, [entry])]
  | group :: rest =>
    if same.sameGroup group.1 entry.group then (group.1, group.2 ++ [entry]) :: rest
    else group :: add same entry rest

/-- The groups that a comparer forms, labelled by their first pairs. -/
def ofComparer (same : KeyComparer) (routed : List Routed) : Grouping :=
  routed.foldl (fun groups entry => add same entry groups) []

/-- The pairs under a key in groups: by the text of the index, or as a comparer says. -/
def ofPairs (comparer : Option KeyComparer) (under : KeyPath) (pairs : List Pair) : Grouping :=
  match comparer with
  | none => ofLabels (Routed.ofPairs under pairs)
  | some same => ofComparer same (Routed.ofPairs under pairs)

/-- An object after the pairs of a group. -/
def bindAll (schema : Schema) (options : BindOptions) :
    List Routed → Object → Except BindFault Object
  | [], target => .ok target
  | entry :: rest, target =>
    match target.bind schema options entry.pair entry.steps with
    | (_, .failed fault) => .error fault
    | (target, _) => bindAll schema options rest target

/-- What populating the groups came to: the labels that an object was made for, and the objects with
their labels or the first fault. -/
structure Result where
  made : List GroupKey
  outcome : Except BindFault (List (GroupKey × Object))

/-- One object for each group, made from its label and populated with its pairs. The first fault
ends the run, and no object is made for later groups. -/
def populate (schema : Schema) (options : BindOptions) (make : GroupKey → Object) :
    Grouping → Result
  | [] => ⟨[], .ok []⟩
  | (key, routed) :: rest =>
    match bindAll schema options routed (make key) with
    | .error fault => ⟨[key], .error fault⟩
    | .ok target =>
      let result := populate schema options make rest
      ⟨key :: result.made, result.outcome.map ((key, target) :: ·)⟩

end Grouping

end KeyedText
