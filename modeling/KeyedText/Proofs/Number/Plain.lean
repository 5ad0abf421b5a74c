import KeyedText.Number.Shortest
import KeyedText.Proofs.Number.Decimal

/-!
# Characters of numerals

A numeral in plain form has no characters but those that it had before, zeros, a point and a sign.

## Main statements

- `Numeral.mem_plain` — the characters of a numeral in plain form
- `Binary.isBlank_of_mem_text` — no blank stands in the text of a floating number
-/

namespace KeyedText

namespace Numeral

variable {numeral digits : Text} {c : Char}

theorem dropTrailingZeros_subset (text : Text) : dropTrailingZeros text ⊆ text := by
  intro c hc
  rw [dropTrailingZeros, List.mem_reverse] at hc
  exact List.mem_reverse.1 (List.dropWhile_subset _ hc)

theorem dropPoint_subset (text : Text) : dropPoint text ⊆ text := by
  intro c hc
  rw [dropPoint] at hc
  split at hc
  · exact List.dropLast_subset text hc
  · exact hc

theorem trimFraction_subset (numeral : Text) : trimFraction numeral ⊆ numeral := by
  intro c hc
  rw [trimFraction] at hc
  split at hc
  · exact hc
  · next point fraction hrest =>
    have hfraction : point :: fraction ⊆ numeral := hrest ▸ List.dropWhile_subset _
    have hpoint : point = '.' := by
      have hhead := List.head?_dropWhile_not (· ≠ '.') numeral
      rw [hrest] at hhead
      simpa using hhead
    rcases List.mem_append.1 (dropPoint_subset _ hc) with hc | hc
    · exact List.takeWhile_subset _ hc
    · rcases List.mem_cons.1 hc with rfl | hc
      · exact hfraction (by simp [hpoint])
      · exact hfraction (List.mem_cons_of_mem _ (dropTrailingZeros_subset fraction hc))

theorem mem_tidy (h : c ∈ tidy numeral) : c ∈ numeral ∨ c = '0' := by
  rw [tidy] at h
  split at h
  · exact .inr (List.mem_singleton.1 h)
  · exact .inl (trimFraction_subset numeral h)

theorem mem_place {point : Int} (h : c ∈ place digits point) :
    c ∈ digits ∨ c = '0' ∨ c = '.' := by
  rw [place] at h
  split at h
  · simp only [List.mem_append, List.mem_cons, List.not_mem_nil, or_false,
      List.mem_replicate] at h
    rcases h with ((h | h) | h) | h
    · exact .inr (.inl h)
    · exact .inr (.inr h)
    · exact .inr (.inl h.2)
    · exact .inl h
  · dsimp only at h
    split at h
    · rw [List.mem_append, List.mem_replicate] at h
      exact h.imp_right fun h => .inl h.2
    · rw [List.mem_append, List.mem_cons] at h
      rcases h with h | h | h
      · exact .inl (List.mem_of_mem_take h)
      · exact .inr (.inr h)
      · exact .inl (List.mem_of_mem_drop h)

theorem mem_expand (h : c ∈ expand numeral) :
    c ∈ numeral ∨ c = '0' ∨ c = '.' ∨ c = '-' := by
  have hdigits : ∀ c ∈ (numeral.takeWhile fun c => !isExponentMark c).filter Text.isDigit,
      c ∈ numeral := fun c hc => List.takeWhile_subset _ (List.mem_of_mem_filter hc)
  rw [expand] at h
  rcases mem_tidy h with h | h
  · split at h
    · rcases List.mem_cons.1 h with h | h
      · exact .inr (.inr (.inr h))
      · rcases mem_place h with h | h | h
        · exact .inl (hdigits c h)
        · exact .inr (.inl h)
        · exact .inr (.inr (.inl h))
    · rcases mem_place h with h | h | h
      · exact .inl (hdigits c h)
      · exact .inr (.inl h)
      · exact .inr (.inr (.inl h))
  · exact .inr (.inl h)

theorem mem_plain (h : c ∈ plain numeral) : c ∈ numeral ∨ c = '0' ∨ c = '.' ∨ c = '-' := by
  rw [plain] at h
  split at h
  · exact mem_expand h
  · exact (mem_tidy h).imp_right .inl

theorem mem_scientific {power : Int} {n : Nat} (h : c ∈ scientific n power) :
    Text.isDigit c = true ∨ c = '.' ∨ c = 'e' ∨ c = '-' := by
  rw [scientific] at h
  cases hdigits : Text.ofNat n with
  | nil => simp [hdigits] at h
  | cons first rest =>
    have hdigit : ∀ c ∈ first :: rest, Text.isDigit c = true := by
      intro c hc
      rw [← hdigits] at hc
      exact Text.isDigit_of_mem_ofNat hc
    simp only [hdigits, List.cons_append, List.mem_cons, List.mem_append] at h
    rcases h with rfl | h | h | h
    · exact .inl (hdigit c (by simp))
    · split at h
      · simp at h
      · rcases List.mem_cons.1 h with h | h
        · exact .inr (.inl h)
        · exact .inl (hdigit c (by simp [h]))
    · exact .inr (.inr (.inl h))
    · exact (Text.mem_ofInt h).elim (fun h => .inr (.inr (.inr h))) .inl

end Numeral

/-- No blank stands in the text of a floating number. -/
theorem Binary.isBlank_of_mem_text {format : BinaryFormat} {x : Binary} {c : Char}
    (h : c ∈ x.text format) : Text.isBlank c = false := by
  cases x with
  | nan =>
    have hall : ∀ c ∈ "NaN".toList, Text.isBlank c = false := Text.no_blank_of_all (by decide)
    exact hall c h
  | infinite negative =>
    have hall : ∀ c ∈ "-inf".toList, Text.isBlank c = false := Text.no_blank_of_all (by decide)
    cases negative with
    | false => exact hall c (List.mem_cons_of_mem _ h)
    | true => exact hall c h
  | finite negative significand exponent =>
    rw [Binary.text] at h
    split at h
    · obtain rfl := List.mem_singleton.1 h
      decide
    · have hplain : ∀ c, Text.isDigit c = true ∨ c = '.' ∨ c = 'e' ∨ c = '-' →
          Text.isBlank c = false := by
        rintro c (hc | rfl | rfl | rfl)
        · exact Text.isBlank_of_isDigit hc
        · decide
        · decide
        · decide
      rcases Numeral.mem_plain h with h | rfl | rfl | rfl
      · split at h
        · rcases List.mem_cons.1 h with rfl | h
          · decide
          · exact hplain c (Numeral.mem_scientific h)
        · exact hplain c (Numeral.mem_scientific h)
      · decide
      · decide
      · decide

end KeyedText
