import KeyedText.Proofs.Binding.Follows

/-!
# Writing at two places

What is written to two keys of a map, to two positions of a list or to two fields of an object does
not depend on the order of the writes. A list is filled up to the farther position either way. The
entries of a map that is kept in the order of its keys take the same places; in a map that is kept
in the order of insertion they do not.

## Main statements

- `MapKind.put_comm` — two keys of a map
- `Slot.set_padded?_comm` — two positions of a list, which is filled up if it is too short
- `Fields.Stepped.comm` — two fields of an object
-/

namespace KeyedText

/-! ## Entries of maps -/

namespace MapKind

variable {α : Type} {kind : MapKind} {key key' : MapKey} {value value' : α}

theorem put_nil (kind : MapKind) (key : MapKey) (value : α) :
    kind.put key value [] = [(key, value)] := rfl

theorem put_cons (kind : MapKind) (key : MapKey) (value : α) (entry : MapKey × α)
    (entries : List (MapKey × α)) :
    kind.put key value (entry :: entries) =
      if entry.1.same key then (entry.1, value) :: entries
      else if get? key entries = none ∧ kind.isRanked = true ∧ key.rank < entry.1.rank then
        (key, value) :: entry :: entries
      else entry :: kind.put key value entries := by
  rw [put, upsert, updateExisting?]
  by_cases hentry : entry.1.same key = true
  · rw [if_pos hentry, if_pos hentry]
  · rw [if_neg hentry, if_neg hentry, put, upsert]
    rcases updateExisting?_eq key (fun _ => (value, ())) entries with
      ⟨hupdate, hnone⟩ | ⟨old, _, hsome, hupdate, -⟩
    · rw [hupdate, Option.map_none]
      dsimp only
      rw [insert]
      simp only [hnone, true_and, Bool.and_eq_true, decide_eq_true_eq]
    · rw [hupdate, Option.map_some]
      simp only [hsome, reduceCtorEq, false_and, if_false]

/-- The first spelling of a key is kept. -/
theorem put_put (kind : MapKind) (hsame : key.same key' = true) (value value' : α)
    (entries : List (MapKey × α)) :
    kind.put key' value' (kind.put key value entries) = kind.put key value' entries := by
  have hsame' : key'.same key = true := by rwa [MapKey.same_comm]
  induction entries with
  | nil => rw [put_nil, put_nil, put_cons, if_pos hsame]
  | cons entry entries ih =>
    rw [put_cons, put_cons]
    split
    · next hentry => rw [put_cons, if_pos (by rwa [MapKey.same_congr hsame'])]
    · next hentry =>
      split
      · rw [put_cons, if_pos hsame]
      · have hthere : get? key' (kind.put key value entries) = some value := by
          rw [get?_of_same hsame', (get?_put kind key value entries).1]
        rw [put_cons, if_neg (by rwa [MapKey.same_congr hsame']), if_neg (by simp [hthere]), ih]

/-- Different keys of a map in the order of its keys are put there in any order. -/
theorem put_comm (hranked : kind.isRanked = true) (hother : key.same key' = false)
    (value value' : α) (entries : List (MapKey × α)) :
    kind.put key' value' (kind.put key value entries) =
      kind.put key value (kind.put key' value' entries) := by
  have hother' : key'.same key = false := by rwa [MapKey.same_comm]
  have hget : ∀ value (entries : List (MapKey × α)),
      get? key' (kind.put key value entries) = get? key' entries :=
    fun value entries => (get?_put kind key value entries).2 key' hother'
  have hget' : ∀ value (entries : List (MapKey × α)),
      get? key (kind.put key' value entries) = get? key entries :=
    fun value entries => (get?_put kind key' value entries).2 key hother
  have horder : key.rank < key'.rank ∧ ¬key'.rank < key.rank ∨
      key'.rank < key.rank ∧ ¬key.rank < key'.rank := by
    rcases Classical.em (key.rank < key'.rank) with hlt | hge
    · exact .inl ⟨hlt, List.lt_asymm hlt⟩
    · refine .inr ⟨?_, hge⟩
      by_contra hle
      have hsame : key.same key' = true := MapKey.same_iff.2 (List.le_antisymm hle hge)
      exact absurd hsame (by simp [hother])
  induction entries with
  | nil =>
    have hnone : ∀ key : MapKey, get? key ([] : List (MapKey × α)) = none := fun _ => rfl
    rw [put_nil, put_nil, put_cons, put_cons]
    rcases horder with ⟨hlt, hge⟩ | ⟨hlt, hge⟩
    · simp [put_nil, hnone, hother, hother', hranked, hlt, hge]
    · simp [put_nil, hnone, hother, hother', hranked, hlt, hge]
  | cons entry entries ih =>
    -- what stands before a key that stands before the entry stands before the entry
    have htrans : key.rank < key'.rank → key'.rank < entry.1.rank → key.rank < entry.1.rank :=
      List.lt_trans
    have htrans' : key'.rank < key.rank → key.rank < entry.1.rank → key'.rank < entry.1.rank :=
      List.lt_trans
    by_cases hentry : entry.1.same key = true
    · have hentry' : entry.1.same key' = false := by
        rw [MapKey.same_comm, MapKey.same_congr hentry, hother']
      grind [put_cons, get?_cons]
    · by_cases hentry' : entry.1.same key' = true
      · grind [put_cons, get?_cons]
      · rcases horder with ⟨hlt, hge⟩ | ⟨hlt, hge⟩
        · grind [put_cons, get?_cons]
        · grind [put_cons, get?_cons]

end MapKind

/-! ## Items of lists -/

namespace Slot

variable {fresh child child' : Slot} {items others padded padded' both both' : List Slot}
  {n n' : Nat}

/-- Lists of one length that show the same items are the same. -/
theorem eq_of_getD (hlength : items.length = others.length)
    (h : ∀ k : Nat, (items[k]?).getD fresh = (others[k]?).getD fresh) : items = others := by
  apply List.ext_getElem hlength
  intro k hk hk'
  have hitem := h k
  rwa [List.getElem?_eq_getElem hk, List.getElem?_eq_getElem hk', Option.getD_some,
    Option.getD_some] at hitem

theorem getD_padded? (h : padded? fresh items n = some padded) (k : Nat) :
    (padded[k]?).getD fresh = (items[k]?).getD fresh := by
  cases hslot : padded[k]? with
  | some slot => rw [Option.getD_some, eq_of_padded? h hslot]
  | none =>
    have hnone : items[k]? = none := by
      rw [List.getElem?_eq_none_iff, length_padded? h] at hslot
      rw [List.getElem?_eq_none_iff]
      omega
    rw [hnone]

theorem getD_set_padded? (h : padded? fresh items n = some padded) (child : Slot) (k : Nat) :
    ((padded.set n child)[k]?).getD fresh = if k = n then child else (items[k]?).getD fresh := by
  split
  · next hsame =>
    subst hsame
    rw [List.getElem?_set_self (padded?_eq_some h).1, Option.getD_some]
  · next hother => rw [List.getElem?_set_ne (Ne.symm hother), getD_padded? h]

theorem length_set_padded? (h : padded? fresh items n = some padded) (child : Slot) :
    (padded.set n child).length = max items.length (n + 1) := by
  rw [List.length_set, length_padded? h]

/-- There is room at a position that was written. -/
theorem padded?_set (h : padded? fresh items n = some padded) (child : Slot) :
    padded? fresh (padded.set n child) n = some (padded.set n child) := by
  apply if_pos
  rw [length_set_padded? h]
  omega

/-- Different positions of a list are written in any order, if there is room for them. -/
theorem set_padded?_comm (hother : n ≠ n') (h : padded? fresh items n = some padded)
    (hboth : padded? fresh (padded.set n child) n' = some both)
    (h' : padded? fresh items n' = some padded')
    (hboth' : padded? fresh (padded'.set n' child') n = some both') :
    both.set n' child' = both'.set n child := by
  apply eq_of_getD
  · rw [length_set_padded? hboth, length_set_padded? hboth', length_set_padded? h,
      length_set_padded? h']
    omega
  · intro k
    rw [getD_set_padded? hboth, getD_set_padded? hboth', getD_set_padded? h, getD_set_padded? h']
    by_cases hk : k = n
    · rw [if_pos hk, if_pos hk, if_neg (by omega)]
    · rw [if_neg hk, if_neg hk]

end Slot

/-! ## Fields of objects -/

namespace Fields

variable {field field' : Text} {fields before after both both' : Fields}
  {step step' : Slot → Slot → Prop}

theorem put_comm (hother : field ≠ field') (slot slot' : Slot) (fields : Fields) :
    put field' slot' (put field slot fields) = put field slot (put field' slot' fields) := by
  induction fields with
  | nil => rfl
  | cons entry fields ih =>
    rw [put_cons entry, put_cons entry]
    by_cases hentry : entry.1 = field
    · simp [put_cons, hentry, hother]
    · by_cases hentry' : entry.1 = field'
      · simp [put_cons, hentry', Ne.symm hother]
      · simp [put_cons, hentry, hentry', ih]

namespace Stepped

theorem get?_of_ne {other : Text} (h : Stepped field step fields after) (hother : other ≠ field) :
    Entries.get? other after = Entries.get? other fields := by
  cases h with
  | missing => rfl
  | put => rw [get?_put_of_ne hother]

theorem eq_of_missing (h : Stepped field step fields after)
    (hmissing : Entries.get? field fields = none) : after = fields := by
  cases h with
  | missing => rfl
  | put there => exact absurd hmissing (by simp [there])

theorem exists_taken {child : Slot} (h : Stepped field step fields after)
    (hthere : Entries.get? field fields = some child) :
    ∃ child', step child child' ∧ after = Fields.put field child' fields := by
  cases h with
  | missing missing => exact absurd hthere (by simp [missing])
  | put there taken =>
    obtain rfl := Option.some.inj (there.symm.trans hthere)
    exact ⟨_, taken, rfl⟩

theorem unique (hstep : ∀ child first second, step child first → step child second →
      first = second)
    (h : Stepped field step fields before) (h' : Stepped field step fields after) :
    before = after := by
  cases h with
  | missing missing => exact (h'.eq_of_missing missing).symm
  | put there taken =>
    obtain ⟨child', htaken, rfl⟩ := h'.exists_taken there
    rw [hstep _ _ _ taken htaken]

/-- Steps on different fields come to the same in any order. -/
theorem comm (hother : field ≠ field') (h : Stepped field step fields after)
    (hboth : Stepped field' step' after both) (h' : Stepped field' step' fields before)
    (hboth' : Stepped field step before both')
    (hstep : ∀ child first second, step child first → step child second → first = second)
    (hstep' : ∀ child first second, step' child first → step' child second → first = second) :
    both = both' := by
  have hfield : Entries.get? field before = Entries.get? field fields := h'.get?_of_ne hother
  have hfield' : Entries.get? field' after = Entries.get? field' fields :=
    h.get?_of_ne (Ne.symm hother)
  cases h with
  | missing missing =>
    rw [hboth'.eq_of_missing (hfield.trans missing)]
    exact hboth.unique hstep' h'
  | put there taken =>
    obtain ⟨second, htaken, rfl⟩ := hboth'.exists_taken (hfield.trans there)
    rw [hstep _ _ _ taken htaken] at hboth hfield'
    cases h' with
    | missing missing' => exact hboth.eq_of_missing (hfield'.trans missing')
    | put there' taken' =>
      obtain ⟨second', htaken', rfl⟩ := hboth.exists_taken (hfield'.trans there')
      rw [hstep' _ _ _ taken' htaken', put_comm hother]

end Stepped

end Fields

end KeyedText
