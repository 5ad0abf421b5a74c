import Mathlib.Algebra.Ring.Nat
import KeyedText.Lookup
import KeyedText.Proofs.Grouping.Classes

/-!
# What a lookup answers

A lookup holds the values of its pairs in the classes of their keys: a key in any spelling finds
the values of exactly the pairs whose keys are the same, in the order of the pairs. Pairs that come
later add their values behind those that are there, so the last value of a key is one of theirs if
they write the key at all, be it with an absent value.

## Main statements

- `Lookup.classes_ofPairs` — the entries are the classes of the keys
- `Lookup.get?_ofPairs`, `Lookup.value?_append` — the values of a key, and the last one
- `Lookup.ofPairs_multimap` — a lookup is the multimap of its pairs
-/

namespace KeyedText

theorem KeyPath.same_equivalence :
    Equivalence fun left right : KeyPath => left.same right = true where
  refl key := by simp [KeyPath.same]
  symm h := by
    rw [KeyPath.same, beq_iff_eq] at h ⊢
    exact h.symm
  trans h h' := by
    rw [KeyPath.same, beq_iff_eq] at h h' ⊢
    exact h.trans h'

namespace Lookup

/-- The values written under a key, in order. -/
def valuesOf (pairs : List Pair) (key : KeyPath) : List (Option Text) :=
  (pairs.filter fun pair => pair.key.same key).map Pair.value

theorem valuesOf_append (pairs later : List Pair) (key : KeyPath) :
    valuesOf (pairs ++ later) key = valuesOf pairs key ++ valuesOf later key := by
  rw [valuesOf, List.filter_append, List.map_append]
  rfl

theorem insert_eq_add (key : KeyPath) (value : Option Text)
    (entries : List (KeyPath × List (Option Text))) :
    insert key value entries = Classes.add KeyPath.same key value entries := by
  induction entries with
  | nil => rfl
  | cons entry entries ih => rw [insert, Classes.add, ih]

theorem entries_ofPairs (pairs : List Pair) :
    (ofPairs pairs).entries = (pairs.map fun pair => (pair.key, pair.value)).foldl
      (fun groups item => Classes.add KeyPath.same item.1 item.2 groups) [] := by
  rw [List.foldl_map]
  show pairs.foldl (fun entries pair => insert pair.key pair.value entries) [] = _
  simp only [insert_eq_add]

/-- The entries are the classes of the keys, spelled as they were met first. -/
theorem classes_ofPairs (pairs : List Pair) :
    Classes KeyPath.same (pairs.map fun pair => (pair.key, pair.value))
      (ofPairs pairs).entries := by
  rw [entries_ofPairs]
  exact Classes.collect KeyPath.same_equivalence _

/-- A key that was written finds its values. -/
theorem get?_ofPairs (pairs : List Pair) (key : KeyPath) :
    (ofPairs pairs).get? key =
      if valuesOf pairs key = [] then none else some (valuesOf pairs key) := by
  have hfind := (classes_ofPairs pairs).find?_eq KeyPath.same_equivalence key
  have hvalues : (((pairs.map fun pair => (pair.key, pair.value)).filter fun item =>
      item.1.same key).map Prod.snd) = valuesOf pairs key := by
    rw [List.filter_map, List.map_map]
    rfl
  have hany : ((pairs.map fun pair => (pair.key, pair.value)).any fun item =>
      item.1.same key) = true ↔ valuesOf pairs key ≠ [] := by
    rw [valuesOf, List.any_map, List.any_eq_true, ne_eq, List.map_eq_nil_iff,
      List.filter_eq_nil_iff]
    simp
  rw [get?, hfind, hvalues]
  by_cases hnil : valuesOf pairs key = []
  · rw [if_pos hnil, if_neg fun h => hany.1 h hnil]
  · rw [if_neg hnil, if_pos (hany.2 hnil)]

theorem all_ofPairs (pairs : List Pair) (key : KeyPath) :
    (ofPairs pairs).all key = valuesOf pairs key := by
  rw [all, get?_ofPairs]
  by_cases hnil : valuesOf pairs key = []
  · rw [if_pos hnil, hnil, Option.getD_none]
  · rw [if_neg hnil, Option.getD_some]

theorem value?_ofPairs (pairs : List Pair) (key : KeyPath) :
    (ofPairs pairs).value? key = (valuesOf pairs key).getLast?.join := by
  rw [value?, get?_ofPairs]
  by_cases hnil : valuesOf pairs key = []
  · rw [if_pos hnil, hnil]
    rfl
  · rw [if_neg hnil, Option.bind_some]

theorem contains_ofPairs (pairs : List Pair) (key : KeyPath) :
    (ofPairs pairs).contains key = true ↔ valuesOf pairs key ≠ [] := by
  rw [contains, get?_ofPairs]
  by_cases hnil : valuesOf pairs key = []
  · simp [hnil]
  · simp [hnil]

/-- The last value of a key is one of the later pairs if these write the key at all. -/
theorem value?_append (pairs later : List Pair) (key : KeyPath) :
    (ofPairs (pairs ++ later)).value? key =
      if (ofPairs later).contains key then (ofPairs later).value? key
      else (ofPairs pairs).value? key := by
  rw [value?_ofPairs, value?_ofPairs, value?_ofPairs, valuesOf_append]
  by_cases hnil : valuesOf later key = []
  · have hmissing : ¬(ofPairs later).contains key = true := by
      rw [contains_ofPairs, hnil]
      simp
    rw [if_neg hmissing, hnil, List.append_nil]
  · rw [if_pos ((contains_ofPairs later key).2 hnil), List.getLast?_append_of_ne_nil _ hnil]

/-- No value is lost: the values of all keys are as many as the pairs. -/
theorem sum_length_ofPairs (pairs : List Pair) :
    ((ofPairs pairs).entries.map fun entry => entry.2.length).sum = pairs.length := by
  have hperm := Classes.flatMap_perm KeyPath.same (pairs.map fun pair => (pair.key, pair.value))
  rw [← entries_ofPairs] at hperm
  have hlength := hperm.length_eq
  rw [List.length_flatMap, List.length_map, List.length_map] at hlength
  exact hlength

theorem existsUnique_key (pairs : List Pair) {pair : Pair} (hpair : pair ∈ pairs) :
    ∃! key, key ∈ (ofPairs pairs).keys ∧ key.same pair.key = true := by
  have hitem : (pair.key, pair.value) ∈ pairs.map fun pair => (pair.key, pair.value) :=
    List.mem_map_of_mem hpair
  obtain ⟨entry, ⟨hentry, hkey⟩, hunique⟩ :=
    (classes_ofPairs pairs).existsUnique KeyPath.same_equivalence hitem
  refine ⟨entry.1, ⟨List.mem_map_of_mem hentry, hkey⟩, ?_⟩
  rintro key ⟨hmem, hsame⟩
  obtain ⟨other, hother, rfl⟩ := List.mem_map.1 hmem
  rw [hunique other ⟨hother, hsame⟩]

/-- **A lookup is the multimap of its pairs, and it layers.** A key finds the values of exactly the
pairs with the same key, in order, and nothing when there are none; the last of them is its value.
The entries are the classes of the keys, so each key is listed once, where and how it was met first,
and the values of all keys are as many as the pairs. Later pairs put their values behind. -/
theorem ofPairs_multimap (pairs later : List Pair) (key : KeyPath) :
    let lookup := ofPairs pairs
    let values := (pairs.filter fun pair => pair.key.same key).map Pair.value
    (lookup.get? key = if values = [] then none else some values) ∧
      lookup.value? key = values.getLast?.join ∧
      Classes KeyPath.same (pairs.map fun pair => (pair.key, pair.value)) lookup.entries ∧
      (∀ pair ∈ pairs, ∃! other, other ∈ lookup.keys ∧ other.same pair.key = true) ∧
      (lookup.entries.map fun entry => entry.2.length).sum = pairs.length ∧
      (ofPairs (pairs ++ later)).all key = lookup.all key ++ (ofPairs later).all key ∧
      (ofPairs (pairs ++ later)).value? key =
        if (ofPairs later).contains key then (ofPairs later).value? key
        else lookup.value? key := by
  refine ⟨get?_ofPairs pairs key, value?_ofPairs pairs key, classes_ofPairs pairs,
    fun pair hpair => existsUnique_key pairs hpair, sum_length_ofPairs pairs, ?_,
    value?_append pairs later key⟩
  rw [all_ofPairs, all_ofPairs, all_ofPairs, valuesOf_append]

-- an absent value counts as a write
example : (ofPairs [.ofText "a" (some "1"), .ofText "b" none, .ofText " A" none]).value?
    (.ofText "a") = none := by decide

end Lookup

end KeyedText
