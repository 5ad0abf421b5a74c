import KeyedText.Proofs.Binding.Traced

/-!
# Writes that do not arrive

A key may lead nowhere, and a value may not be convertible. What was made on the way to find that
out stays: the slot has grown along the steps of the key, and nothing else has happened to it,
unless a converter failed after it had written. A fault names the key and the value that it is
about.

## Main definitions

- `Slot.Spares` — a step assigns, or makes room along some steps and nothing more

## Main statements

- `Object.spares_bind` — following a key
-/

namespace KeyedText

/-- What a step came to: it assigned a value, or the slot has only grown along the steps of a key.
For a step that failed this takes converters that fail cleanly. A fault names the key and the
value. -/
structure Slot.Spares (schema : Schema) (converters : ConverterRegistry) (key : KeyPath)
    (value : Option Text) (steps : List Step) (before : Slot) (result : Slot × Outcome) : Prop where
  names : ∀ fault, result.2 = .failed (.conversion fault) →
    fault.key = key.render ∧ fault.raw = value
  skipped : result.2 = .skipped → Grown schema steps before result.1
  failed : ∀ fault, result.2 = .failed fault → converters.FailsClean →
    Grown schema steps before result.1

variable {schema : Schema} {converters : ConverterRegistry} {key : KeyPath}
  {value : Option Text} {steps left : List Step} {place : Location} {child before : Slot}

/-- What a step came to inside of a slot, it came to in the slot. -/
theorem Slot.Spares.step {result result' : Slot × Outcome}
    (h : Spares schema converters key value left child result) (houtcome : result'.2 = result.2)
    (hgrown : Grown schema left child result.1 → Grown schema steps before result'.1) :
    Spares schema converters key value steps before result' where
  names := fun fault hfailed => h.names fault (houtcome ▸ hfailed)
  skipped := fun hskipped => hgrown (h.skipped (houtcome ▸ hskipped))
  failed := fun fault hfailed hclean => hgrown (h.failed fault (houtcome ▸ hfailed) hclean)

/-- Following a key assigns the value, or does no more than making room along its steps. -/
theorem Slot.Traced.spares {result : Slot × Outcome}
    (h : Traced schema converters key value steps place before result) :
    Spares schema converters key value steps before result := by
  induction h with
  | assigned => exact ⟨by simp, by simp, by simp⟩
  | spoiled _ _ unclean names =>
    exact ⟨by simpa using names, by simp, fun _ _ hclean => absurd hclean unclean⟩
  | stops steps slot _ names =>
    exact ⟨names, fun _ => .stays steps slot, fun _ _ _ => .stays steps slot⟩
  | content _ there _ ih => exact ih.step rfl (.content there)
  | position reads room _ ih => exact ih.step rfl (.position reads room)
  | key isOpen reads _ ih => exact ih.step rfl (.key isOpen reads)
  | field isObject goes there _ ih => exact ih.step rfl (.field isObject goes there)

/-- Binding a pair in an object assigns its value, or does no more than making room along the steps
of its key. -/
theorem Object.spares_bind (schema : Schema) (options : BindOptions) (pair : Pair)
    (steps : List Step) (target : Object) :
    Slot.Spares schema options.converters pair.key pair.value steps target.toSlot
      ((target.bind schema options pair steps).1.toSlot,
        (target.bind schema options pair steps).2) := by
  obtain ⟨_, htraced⟩ := target.walked_bind schema options pair steps
  exact htraced.spares

end KeyedText
