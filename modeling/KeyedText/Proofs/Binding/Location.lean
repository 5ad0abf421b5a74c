import KeyedText.Schema.Basic
import KeyedText.Schema.Location

/-!
# Locations

A place in a slot is named by the turns that lead there. A place that is not there may come into
being on the way to it, and then holds what a new slot of its type holds.

## Main definitions

- `Slot.at?` — the slot at a place
- `Slot.atOrNew?` — the slot at a place, or what would come into being there
- `Location.Same`, `Location.Apart` — places that are one, and places that part at some turn
- `Slot.Written` — a slot with a value written at a place and nothing else changed

## Main statements

- `Slot.Written.step` — a write inside of a slot is a write in the slot
- `Location.apart_of_leaf` — two scalars in a slot are at one place or at places apart
-/

namespace KeyedText

/-- Turns that lead the same way. Keys of maps count by their place in the order of keys. -/
def Turn.same : Turn → Turn → Bool
  | .key left, .key right => left.same right
  | left, right => left == right

/-- Two ways to one place. -/
def Location.Same : Location → Location → Prop
  | [], [] => True
  | left :: lefts, right :: rights => left.same right = true ∧ Same lefts rights
  | _, _ => False

/-- Places that lie apart: at some turn their ways part. -/
def Location.Apart : Location → Location → Prop
  | left :: lefts, right :: rights => left.same right = true → Apart lefts rights
  | _, _ => False

namespace Slot

/-- The slot behind a turn, if it is there. -/
def child? : Turn → Slot → Option Slot
  | .content, .filled content => some content
  | .content, .boxed content => some content
  | .field name, .object _ fields => Entries.get? name fields
  | .field name, .dynamic _ _ fields => Entries.get? name fields
  | .position n, .list _ items => items[n]?
  | .key key, .map _ _ _ _ entries => (entries.find? fun entry => entry.1.same key).map (·.2)
  | _, _ => none

/-- What comes into being behind a turn where nothing is there. -/
def created? (schema : Schema) : Turn → Slot → Option Slot
  | .content, .vacant content => some (schema.initial content)
  | .position _, .list element _ => some (schema.initial element)
  | .key _, .map _ _ _ element _ => some (schema.initial element)
  | _, _ => none

/-- The slot behind a turn, or what comes into being there. -/
def childOrNew? (schema : Schema) (turn : Turn) (slot : Slot) : Option Slot :=
  (slot.child? turn).or (slot.created? schema turn)

/-- The slot at a place, if it is there. -/
def at? : Location → Slot → Option Slot
  | [], slot => some slot
  | turn :: place, slot => (slot.child? turn).bind (at? place)

/-- The slot at a place, or what comes into being there on the way. -/
def atOrNew? (schema : Schema) : Location → Slot → Option Slot
  | [], slot => some slot
  | turn :: place, slot => (slot.childOrNew? schema turn).bind (atOrNew? schema place)

/-- The value at a place that holds a scalar. -/
def leaf? (place : Location) (slot : Slot) : Option Scalar :=
  match slot.at? place with
  | some (.scalar value) => some value
  | _ => none

/-- A slot that differs from an earlier one in what is behind a turn: what was there, or came into
being, gave way to something else. Slots behind other turns stayed, and new ones are as new slots
of their types are. -/
structure Changed (schema : Schema) (turn : Turn) (child child' before after : Slot) : Prop where
  was : before.childOrNew? schema turn = some child
  now : after.child? turn = some child'
  keeps : ∀ other, other.same turn = false → ∀ slot, before.child? other = some slot →
    after.child? other = some slot
  fresh : ∀ other, other.same turn = false → before.child? other = none →
    ∀ slot, after.child? other = some slot → before.created? schema other = some slot

/-- A slot that differs from an earlier one in that a value was written at a place. What was there
apart from it stayed, and what came into being apart from it is as new slots are. -/
structure Written (schema : Schema) (place : Location) (value : Scalar) (before after : Slot) :
    Prop where
  holds : after.at? place = some (.scalar value)
  keeps : ∀ other slot, Location.Apart other place → before.at? other = some slot →
    after.at? other = some slot
  fresh : ∀ other slot, Location.Apart other place → before.at? other = none →
    after.at? other = some slot → before.atOrNew? schema other = some slot

end Slot

/-! ## Keys and turns that are the same -/

theorem MapKey.same_iff {left right : MapKey} :
    left.same right = true ↔ left.rank = right.rank := by
  rw [MapKey.same, beq_iff_eq]

theorem MapKey.same_comm (left right : MapKey) : left.same right = right.same left := by
  rw [MapKey.same, MapKey.same, BEq.comm]

theorem MapKey.same_congr {left right : MapKey} (h : left.same right = true) (other : MapKey) :
    other.same left = other.same right := by
  rw [MapKey.same, MapKey.same, MapKey.same_iff.1 h]

namespace Turn

variable {turn other : Turn}

@[simp] theorem same_refl (turn : Turn) : turn.same turn = true := by
  cases turn <;> simp [same, MapKey.same]

theorem same_cases (h : other.same turn = true) :
    other = turn ∨
      ∃ left right, other = .key left ∧ turn = .key right ∧ left.same right = true := by
  cases other <;> cases turn <;> simp_all [same]

theorem child?_eq (h : other.same turn = true) (slot : Slot) :
    slot.child? other = slot.child? turn := by
  rcases same_cases h with rfl | ⟨left, right, rfl, rfl, hkey⟩
  · rfl
  · cases slot <;> simp only [Slot.child?]
    simp only [MapKey.same_congr hkey]

theorem created?_eq (h : other.same turn = true) (schema : Schema) (slot : Slot) :
    slot.created? schema other = slot.created? schema turn := by
  rcases same_cases h with rfl | ⟨left, right, rfl, rfl, -⟩
  · rfl
  · cases slot <;> rfl

end Turn

namespace Slot

variable {schema : Schema} {turn : Turn} {place other : Location} {value : Scalar}
  {slot child child' before after : Slot}

theorem childOrNew?_of_child? (h : slot.child? turn = some child) :
    slot.childOrNew? schema turn = some child := by
  rw [childOrNew?, h, Option.some_or]

/-- Only optional values and boxes have a content. -/
theorem content_cases (h : slot.childOrNew? schema .content = some child) :
    (∃ content, slot = .vacant content ∧ child = schema.initial content) ∨
      slot = .filled child ∨ slot = .boxed child := by
  cases slot with
  | vacant content => exact .inl ⟨content, rfl, (Option.some.inj h).symm⟩
  | filled content => exact .inr (.inl (congrArg Slot.filled (Option.some.inj h)))
  | boxed content => exact .inr (.inr (congrArg Slot.boxed (Option.some.inj h)))
  | _ => exact absurd h (by simp [childOrNew?, child?, created?])

theorem childOrNew?_field {typeName field : Text} {fields : Fields}
    (h : Entries.get? field fields = some child) :
    (object typeName fields).childOrNew? schema (.field field) = some child :=
  childOrNew?_of_child? h

theorem atOrNew?_of_at? (h : before.at? place = some slot) :
    before.atOrNew? schema place = some slot := by
  induction place generalizing before with
  | nil => exact h
  | cons turn place ih =>
    rw [at?, Option.bind_eq_some_iff] at h
    obtain ⟨child, hchild, hplace⟩ := h
    rw [atOrNew?, childOrNew?_of_child? hchild]
    exact ih hplace

theorem leaf?_of_at? (h : slot.at? place = some (.scalar value)) :
    slot.leaf? place = some value := by
  rw [leaf?, h]

theorem at?_of_leaf? (h : slot.leaf? place = some value) :
    slot.at? place = some (.scalar value) := by
  rw [leaf?] at h
  split at h
  · next hat => rw [hat, Option.some.inj h]
  · exact absurd h (by simp)

/-- What is behind another turn now was there before, or is what comes into being there. -/
theorem Changed.childOrNew?_eq {turn' : Turn} (h : Changed schema turn child child' before after)
    (hother : turn'.same turn = false) (hnow : after.child? turn' = some slot) :
    before.childOrNew? schema turn' = some slot := by
  cases hold : before.child? turn' with
  | none =>
    rw [childOrNew?, hold, h.fresh turn' hother hold slot hnow]
    rfl
  | some old =>
    have hkept := h.keeps turn' hother old hold
    rw [hnow] at hkept
    obtain rfl := Option.some.inj hkept
    exact childOrNew?_of_child? hold

/-- A write inside of a slot is a write in the slot, when nothing else changes behind its turns. -/
theorem Written.step (h : Written schema place value child child')
    (hchange : Changed schema turn child child' before after) :
    Written schema (turn :: place) value before after := by
  refine ⟨?_, ?_, ?_⟩
  · rw [at?, hchange.now]
    exact h.holds
  · intro other slot hapart hat
    cases other with
    | nil => exact absurd hapart (by simp [Location.Apart])
    | cons first other =>
      rw [at?, Option.bind_eq_some_iff] at hat ⊢
      obtain ⟨middle, hmiddle, hother⟩ := hat
      -- either the other place goes through the child as well, or it leaves at this turn
      by_cases hsame : first.same turn = true
      · rw [Turn.child?_eq hsame] at hmiddle ⊢
        obtain rfl : child = middle := by
          have hwas := hchange.was
          rw [childOrNew?_of_child? hmiddle] at hwas
          exact (Option.some.inj hwas).symm
        exact ⟨child', hchange.now, h.keeps other slot (hapart hsame) hother⟩
      · exact ⟨middle, hchange.keeps first (by simpa using hsame) middle hmiddle, hother⟩
  · intro other slot hapart hnone hat
    cases other with
    | nil => exact absurd hapart (by simp [Location.Apart])
    | cons first other =>
      rw [at?, Option.bind_eq_some_iff] at hat
      obtain ⟨middle, hmiddle, hother⟩ := hat
      rw [atOrNew?]
      by_cases hsame : first.same turn = true
      · rw [Turn.child?_eq hsame, hchange.now] at hmiddle
        obtain rfl := Option.some.inj hmiddle
        rw [childOrNew?, Turn.child?_eq hsame, Turn.created?_eq hsame, ← childOrNew?, hchange.was]
        -- the child may have been there without the rest of the way
        cases hchild : child.at? other with
        | none => exact h.fresh other slot (hapart hsame) hchild hother
        | some old =>
          have hkept := h.keeps other old (hapart hsame) hchild
          rw [hother] at hkept
          obtain rfl := Option.some.inj hkept
          exact atOrNew?_of_at? hchild
      · rw [Bool.not_eq_true] at hsame
        rw [hchange.childOrNew?_eq hsame hmiddle]
        exact atOrNew?_of_at? hother

theorem written_scalar (old value : Scalar) :
    Written schema [] value (.scalar old) (.scalar value) := by
  refine ⟨rfl, ?_, ?_⟩
  · intro other slot hapart
    cases other <;> exact absurd hapart (by simp [Location.Apart])
  · intro other slot hapart
    cases other <;> exact absurd hapart (by simp [Location.Apart])

end Slot

/-- Two scalars in a slot are at one place or at places apart, also when one of them would only
come into being. -/
theorem Location.apart_of_leaf {schema : Schema} {place other : Location} {slot : Slot}
    {value old : Scalar} (hold : slot.atOrNew? schema place = some (.scalar old))
    (hleaf : slot.leaf? other = some value) (hsame : ¬Location.Same other place) :
    Location.Apart other place := by
  replace hleaf := Slot.at?_of_leaf? hleaf
  -- along both ways at once: a scalar has no turns, so neither of them is the start of the other
  induction place generalizing slot other with
  | nil =>
    cases other with
    | nil => exact absurd trivial hsame
    | cons first other =>
      obtain rfl := Option.some.inj hold
      cases first <;> simp [Slot.at?, Slot.child?] at hleaf
  | cons turn place ih =>
    cases other with
    | nil =>
      obtain rfl := Option.some.inj hleaf
      cases turn <;>
        simp [Slot.atOrNew?, Slot.childOrNew?, Slot.child?, Slot.created?] at hold
    | cons first other =>
      intro hturn
      rw [Slot.at?, Turn.child?_eq hturn, Option.bind_eq_some_iff] at hleaf
      obtain ⟨child, hchild, hother⟩ := hleaf
      rw [Slot.atOrNew?, Slot.childOrNew?_of_child? hchild, Option.bind_some] at hold
      exact ih hold (fun hrest => hsame ⟨hturn, hrest⟩) hother

end KeyedText
