import KeyedText.Binding.Assign
import KeyedText.Proofs.Entries

/-!
# What converters leave behind

A converter may fail after it has written, and then the slot keeps what was written. A converter
that fails cleanly does not do that: once the slot has taken a value from it, it goes on to succeed.
So when it fails, the slot is as it was. Converters that find their value before they write are of
this kind. Whatever a converter does, the slot stays one of its type.

## Main definitions

- `Conversion.Succeeds`, `Conversion.FailsClean` — conversions that cannot fail, at all or after
  a write
- `ConverterRegistry.FailsClean` — a registry of such converters

## Main statements

- `Conversion.type_run` — a conversion keeps the type of the slot
- `Conversion.run_of_fault` — a conversion that fails cleanly leaves the slot as it was
- `ConverterRegistry.failsClean_register` — registering a converter that finds its value first
-/

namespace KeyedText

/-! ## Types -/

/-- A slot takes values without changing its type. -/
theorem Slot.type_store? {value slot written : Slot} (h : store? value slot = some written) :
    written.type = slot.type := by
  fun_induction store? value slot generalizing written with
  | case1 content ih =>
    obtain ⟨inner, hinner, rfl⟩ := Option.map_eq_some_iff.1 h
    rw [type, type, ih hinner]
  | case2 slot _ htype =>
    obtain rfl := Option.some.inj h
    exact htype.symm
  | case3 slot _ _ htype =>
    obtain rfl := Option.some.inj h
    exact htype.symm
  | case4 => exact absurd h (by simp)

namespace Conversion

theorem type_run (name : Text) (conversion : Conversion) (slot : Slot) :
    (conversion.run name slot).1.type = slot.type := by
  induction conversion generalizing slot with
  | done => rfl
  | error cause => rfl
  | look next ih => exact ih _ slot
  | write converted next ih =>
    rw [run]
    split
    · next written hwritten => exact (ih _ written).trans (Slot.type_store? hwritten)
    · exact ih _ slot

/-! ## Failures -/

/-- A conversion cannot fail, whatever the slot holds and takes. -/
def Succeeds : Conversion → Prop
  | done => True
  | error _ => False
  | look next => ∀ slot, (next slot).Succeeds
  | write _ next => ∀ cause, (next cause).Succeeds

/-- A conversion cannot fail any more when the slot has taken a value from it. -/
def FailsClean : Conversion → Prop
  | done => True
  | error _ => True
  | look next => ∀ slot, (next slot).FailsClean
  | write _ next => (next none).Succeeds ∧ ∀ cause, (next (some cause)).FailsClean

theorem run_of_succeeds {conversion : Conversion} (h : conversion.Succeeds) (name : Text)
    (slot : Slot) : (conversion.run name slot).2 = none := by
  induction conversion generalizing slot with
  | done => rfl
  | error cause => exact absurd h id
  | look next ih => exact ih _ (h _) slot
  | write converted next ih =>
    rw [run]
    split
    · exact ih _ (h none) _
    · exact ih _ (h _) slot

/-- When a conversion that fails cleanly does fail, the slot is as it was. -/
theorem run_of_fault {conversion : Conversion} {name : Text} {slot after : Slot} {cause : Cause}
    (h : conversion.FailsClean) (hfault : conversion.run name slot = (after, some cause)) :
    after = slot := by
  induction conversion with
  | done => exact absurd (congrArg Prod.snd hfault) (by simp [run])
  | error cause => exact (congrArg Prod.fst hfault).symm
  | look next ih => exact ih _ (h _) hfault
  | write converted next ih =>
    rw [run] at hfault
    split at hfault
    · next written _ =>
      have hdone := run_of_succeeds h.1 name written
      rw [hfault] at hdone
      exact absurd hdone (by simp)
    · exact ih _ (h.2 _) hfault

end Conversion

-- without that a slot may keep what was written before the failure
example :
    let late : SlotConverter := fun _ _ =>
      .write ⟨"bool", .scalar (.bool true)⟩ fun _ => .error (.other "late")
    (Slot.scalar (.bool false)).convert default late [] =
      (.scalar (.bool true), some (.other "late")) := rfl

/-- A converter that finds its value before it writes comes to one write, or to none. -/
theorem Slot.convert_onSlot (site : Site) (converter : Converter) (raw : Text) (slot : Slot) :
    slot.convert site converter raw =
      match converter site raw with
      | .error cause => (slot, some cause)
      | .ok converted =>
        match store? converted.value slot with
        | some written => (written, none)
        | none =>
          (slot, some (.unsupportedTarget (site.member.converter.getD []) converted.typeName)) := by
  rw [convert, Converter.onSlot]
  cases converter site raw with
  | error cause => rfl
  | ok converted =>
    dsimp only
    rw [Conversion.ok, Conversion.run]
    cases store? converted.value slot <;> rfl

theorem Converter.failsClean_onSlot (converter : Converter) (site : Site) (raw : Text) :
    (converter.onSlot site raw).FailsClean := by
  rw [onSlot]
  cases converter site raw with
  | ok converted => exact ⟨trivial, fun _ => trivial⟩
  | error cause => exact trivial

namespace ConverterRegistry

/-- No converter of a registry fails after it has written. -/
def FailsClean (registry : ConverterRegistry) : Prop :=
  ∀ name converter, (registry.resolve name).1 = .ok converter →
    ∀ site raw, (converter site raw).FailsClean

/-- The converters of a registry still fail cleanly when one is registered that finds its value
before it writes. -/
theorem failsClean_register {registry : ConverterRegistry} (h : registry.FailsClean) (name : Text)
    (converter : Converter) : (registry.register name fun _ => converter).FailsClean := by
  intro other found hfound
  by_cases hname : name = other
  · subst hname
    have hmade : (registry.register name fun _ => converter).resolve name =
        (.ok converter.onSlot, ((registry.register name fun _ => converter).resolve name).2) := by
      simp [resolve, register, Entries.get?_erase_self, Entries.get?_cons_self]
    rw [hmade] at hfound
    obtain rfl := Except.ok.inj hfound
    exact converter.failsClean_onSlot
  · have hother : ((registry.register name fun _ => converter).resolve other).1 =
        (registry.resolve other).1 := by
      simp only [resolve, register, Entries.get?_erase_of_ne hname, Entries.get?_cons_of_ne hname]
      cases Entries.get? other registry.instances with
      | some kept => rfl
      | none => cases Entries.get? other registry.factories <;> rfl
    exact h other found (hother ▸ hfound)

end ConverterRegistry

end KeyedText
