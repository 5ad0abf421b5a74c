import KeyedText.Entries
import Mathlib.Data.List.Nodup

/-!
# Values by name

The value that entries hold under a name, after some of the entries are changed, dropped or put in
front, and what follows from it for the list of entries.

## Main statements

- `Entries.get?_filter`, `Entries.get?_erase_of_ne` — entries that were dropped
- `Entries.mem_of_get?`, `Entries.get?_of_mem` — values and the entries that bear them
-/

namespace KeyedText.Entries

variable {α β : Type} {entries : Entries α} {others : Entries β} {name other : Text} {value : α}

theorem get?_map (f : α → β) (name : Text) (entries : Entries α) :
    get? name (entries.map fun entry => (entry.1, f entry.2)) = (get? name entries).map f := by
  rw [get?, get?, List.find?_map, Option.map_map, Option.map_map]
  rfl

/-! ## Entries in front of others -/

theorem get?_cons_self (name : Text) (value : α) (entries : Entries α) :
    get? name ((name, value) :: entries) = some value := by
  simp [get?]

theorem get?_cons_of_ne (h : other ≠ name) (value : α) (entries : Entries α) :
    get? name ((other, value) :: entries) = get? name entries := by
  simp [get?, h]

/-! ## Entries that were dropped -/

theorem get?_filter {p : Text → Bool} (h : p name = true) (entries : Entries α) :
    get? name (entries.filter fun entry => p entry.1) = get? name entries := by
  rw [get?, get?, List.find?_filter]
  congr 2
  funext entry
  by_cases hname : entry.1 = name
  · simp [hname, h]
  · simp [hname]

theorem get?_erase_self (name : Text) (entries : Entries α) :
    get? name (erase name entries) = none := by
  simp [get?, erase]

theorem get?_erase_of_ne (h : other ≠ name) (entries : Entries α) :
    get? name (erase other entries) = get? name entries :=
  get?_filter (p := (· != other)) (by simpa using h.symm) entries

/-! ## Values and their entries -/

theorem mem_of_get? (h : get? name entries = some value) : (name, value) ∈ entries := by
  rw [get?, Option.map_eq_some_iff] at h
  obtain ⟨⟨name', value'⟩, hfind, rfl⟩ := h
  obtain rfl : name' = name := by simpa using List.find?_some hfind
  exact List.mem_of_find?_eq_some hfind

theorem mem_names_of_get? (h : get? name entries = some value) : name ∈ entries.map Prod.fst :=
  List.mem_map_of_mem (mem_of_get? h)

theorem exists_get?_of_mem (h : name ∈ entries.map Prod.fst) :
    ∃ value, get? name entries = some value := by
  obtain ⟨entry, hentry, hname⟩ := List.mem_map.1 h
  rw [get?]
  cases hfound : entries.find? fun entry => entry.1 == name with
  | some found => exact ⟨found.2, rfl⟩
  | none => exact absurd (List.find?_eq_none.1 hfound entry hentry) (by simpa using hname)

theorem exists_get? (hnames : entries.map Prod.fst = others.map Prod.fst) {other : β}
    (h : get? name others = some other) : ∃ value, get? name entries = some value :=
  exists_get?_of_mem (hnames ▸ mem_names_of_get? h)

theorem get?_of_mem {entry : Text × α} (hnodup : (entries.map Prod.fst).Nodup)
    (h : entry ∈ entries) : get? entry.1 entries = some entry.2 := by
  obtain ⟨value, hvalue⟩ := exists_get?_of_mem (List.mem_map_of_mem h)
  have hsame := List.inj_on_of_nodup_map hnodup (mem_of_get? hvalue) h rfl
  rw [hvalue, ← hsame]

end KeyedText.Entries
