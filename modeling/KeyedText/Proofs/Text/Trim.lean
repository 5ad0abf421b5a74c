import KeyedText.Text.Basic
import Mathlib.Data.List.DropRight

/-!
# Outer blanks

Laws of `Text.trim`. Blanks at either end of a text make no difference to it, and it leaves a text
alone exactly when neither end is a blank.

## Main statements

- `Text.trim_cons_of_blank`, `Text.trim_append_of_blank` — an outer blank does not count
- `Text.trim_eq_nil_iff` — the texts of which nothing is left
- `Text.trim_eq_self_iff` — the texts that `trim` leaves alone
- `Text.trim_invariant` — what no outer blank makes a difference to
-/

namespace KeyedText.Text

variable {text : Text} {c : Char}

theorem trimEnd_eq_rdropWhile (text : Text) : trimEnd text = text.rdropWhile isBlank := rfl

theorem trim_cons_of_blank (h : isBlank c = true) : trim (c :: text) = trim text := by
  simp [trim, trimStart, h]

theorem trim_append_of_blank (h : isBlank c = true) : trim (text ++ [c]) = trim text := by
  simp only [trim, trimStart, trimEnd_eq_rdropWhile]
  rw [List.dropWhile_append]
  -- the text may be of blanks only, and then the last one is dropped as one in front
  split
  · next hall =>
    rw [List.isEmpty_iff] at hall
    simp [hall, h]
  · exact List.rdropWhile_concat_pos _ _ _ h

theorem no_blank_of_all (h : (text.all fun c => !isBlank c) = true) :
    ∀ c ∈ text, isBlank c = false := by
  intro c hc
  simpa using List.all_eq_true.1 h c hc

theorem head_trimStart (text : Text) (h : (trimStart text).head? = some c) : isBlank c = false := by
  have hnot := List.head?_dropWhile_not isBlank text
  rw [trimStart] at h
  simpa [h] using hnot

/-- Nothing is left of a text of blanks, and only of such a text. -/
theorem trim_eq_nil_iff : trim text = [] ↔ allBlank text = true := by
  rw [trim, trimEnd_eq_rdropWhile, List.rdropWhile_eq_nil_iff, allBlank, List.all_eq_true]
  constructor
  · intro h
    rw [← List.dropWhile_eq_nil_iff]
    cases hstart : trimStart text with
    | nil => exact hstart
    | cons c rest =>
      have hc : isBlank c = true := h c (by simp [hstart])
      have hnot : isBlank c = false := head_trimStart text (by simp [hstart])
      simp [hnot] at hc
  · intro h x hx
    exact h x (List.dropWhile_subset isBlank hx)

/-- A text is left alone exactly when it neither starts nor ends with a blank. -/
theorem trim_eq_self_iff : trim text = text ↔
    (∀ c, text.head? = some c → isBlank c = false) ∧
      ∀ c, text.getLast? = some c → isBlank c = false := by
  constructor
  · intro h
    -- a text that keeps its length loses nothing at either end
    have hlen : (trim text).length ≤ (trimStart text).length := by
      rw [trim, trimEnd_eq_rdropWhile]
      exact (List.rdropWhile_prefix _ _).length_le
    have hstart : trimStart text = text :=
      (List.dropWhile_suffix isBlank).eq_of_length_le (by rw [h] at hlen; exact hlen)
    have hend : text.rdropWhile isBlank = text := by
      rw [trim, hstart] at h
      exact h
    refine ⟨fun c hc => head_trimStart text (by rw [hstart]; exact hc), ?_⟩
    intro c hc
    obtain ⟨front, rfl⟩ := List.getLast?_eq_some_iff.1 hc
    have hlast := List.rdropWhile_eq_self_iff.1 hend (by simp)
    simpa using hlast
  · rintro ⟨hhead, hlast⟩
    have hstart : trimStart text = text := by
      cases text with
      | nil => rfl
      | cons c rest => simp [trimStart, hhead c rfl]
    rw [trim, hstart, trimEnd_eq_rdropWhile, List.rdropWhile_eq_self_iff]
    intro hne
    simp [hlast _ (List.getLast?_eq_some_getLast hne)]

theorem trim_eq_self_of_no_blank {text : Text} (h : ∀ c ∈ text, isBlank c = false) :
    trim text = text :=
  trim_eq_self_iff.2
    ⟨fun c hc => h c (List.mem_of_head? hc), fun c hc => h c (List.mem_of_getLast? hc)⟩

theorem trim_subset (text : Text) : trim text ⊆ text := by
  intro c hc
  rw [trim, trimEnd_eq_rdropWhile] at hc
  exact List.dropWhile_subset isBlank ((List.rdropWhile_prefix isBlank _).subset hc)

/-- What no outer blank makes a difference to is the same for the text without them. -/
theorem trim_invariant {β : Sort*} (f : Text → β)
    (front : ∀ c text, isBlank c = true → f (c :: text) = f text)
    (back : ∀ c text, isBlank c = true → f (text ++ [c]) = f text) (text : Text) :
    f (trim text) = f text := by
  have hstart : ∀ text, f (trimStart text) = f text := by
    intro text
    induction text with
    | nil => rfl
    | cons c text ih =>
      by_cases hc : isBlank c = true
      · rw [trimStart, List.dropWhile_cons_of_pos hc, ← trimStart, ih, front c text hc]
      · rw [trimStart, List.dropWhile_cons_of_neg hc]
  have hend : ∀ text, f (trimEnd text) = f text := by
    intro text
    rw [trimEnd_eq_rdropWhile]
    induction text using List.reverseRecOn with
    | nil => rfl
    | append_singleton text c ih =>
      by_cases hc : isBlank c = true
      · rw [List.rdropWhile_concat_pos _ _ _ hc, ih, back c text hc]
      · rw [List.rdropWhile_concat_neg _ _ _ hc]
  rw [trim, hend, hstart]

theorem trim_trim (text : Text) : trim (trim text) = trim text :=
  trim_invariant trim (fun _ _ => trim_cons_of_blank) (fun _ _ => trim_append_of_blank) text

/-- A text that is left alone is blank only when it is empty. -/
theorem allBlank_eq_false (h : trim text = text) (hne : text ≠ []) : allBlank text = false := by
  rw [← Bool.not_eq_true, ← trim_eq_nil_iff, h]
  exact hne

end KeyedText.Text
