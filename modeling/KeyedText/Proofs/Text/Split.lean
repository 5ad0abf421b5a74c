import KeyedText.Proofs.Text.Trim
import Mathlib.Data.List.Flatten

/-!
# Pieces between separators

Laws of `Text.splitOn` and `Text.join`. Splitting goes piece by piece over texts that are joined,
and gives the texts back when none of them holds a separator. Blanks around the separators make no
difference to the pieces without their outer blanks.

## Main statements

- `Text.splitOn_append` — a separator between two texts divides them
- `Text.splitOn_join` — texts that are joined and split again
- `Text.map_trim_splitOn_trim` — outer blanks of the whole are outer blanks of its pieces
- `Text.map_trim_splitOn_join` — texts that are joined with blanks and split again
-/

namespace KeyedText.Text

variable {separator : Char}

/-! ## Splitting and joining -/

theorem join_cons {separator piece : Text} {pieces : List Text} (hne : pieces ≠ []) :
    join separator (piece :: pieces) = piece ++ separator ++ join separator pieces := by
  obtain ⟨next, rest, rfl⟩ := List.exists_cons_of_ne_nil hne
  rfl

theorem splitOn_ne_nil (text : Text) : splitOn separator text ≠ [] := by
  cases text with
  | nil => simp [splitOn]
  | cons d text =>
    rw [splitOn]
    split
    · simp
    · cases splitOn separator text <;> simp [pushFront]

/-- A separator between two texts divides them, whatever other separators they hold. -/
theorem splitOn_append (front rest : Text) :
    splitOn separator (front ++ separator :: rest) =
      splitOn separator front ++ splitOn separator rest := by
  induction front with
  | nil => simp [splitOn]
  | cons d front ih =>
    rw [List.cons_append, splitOn, ih, splitOn]
    split
    · rfl
    · obtain ⟨piece, pieces, hsplit⟩ := List.exists_cons_of_ne_nil (splitOn_ne_nil front)
      rw [hsplit]
      rfl

/-- Another character at the end of a text belongs to the last piece. -/
theorem splitOn_append_other (separator c : Char) (text : Text) (hc : c ≠ separator) :
    ∃ front last, splitOn separator text = front ++ [last] ∧
      splitOn separator (text ++ [c]) = front ++ [last ++ [c]] := by
  induction text with
  | nil => exact ⟨[], [], rfl, by simp [splitOn, hc, pushFront]⟩
  | cons d text ih =>
    obtain ⟨front, last, hsplit, happend⟩ := ih
    rw [List.cons_append, splitOn, splitOn, hsplit, happend]
    split
    · exact ⟨[] :: front, last, rfl, rfl⟩
    · cases front with
      | nil => exact ⟨[], d :: last, rfl, rfl⟩
      | cons piece front => exact ⟨(d :: piece) :: front, last, rfl, rfl⟩

/-- Texts that are joined by a separator and split again fall into the pieces of each. -/
theorem splitOn_join {texts : List Text} (hne : texts ≠ []) :
    splitOn separator (join [separator] texts) = texts.flatMap (splitOn separator) := by
  induction texts, hne using List.recNeNil with
  | singleton text => simp [join]
  | cons text texts hne ih =>
    rw [join_cons hne, List.append_assoc, List.singleton_append, splitOn_append, ih,
      List.flatMap_cons]

theorem length_splitOn (text : Text) :
    (splitOn separator text).length = text.count separator + 1 := by
  induction text with
  | nil => rfl
  | cons c text ih =>
    rw [splitOn, List.count_cons]
    split
    · next hc => simp [ih, hc]
    · next hc =>
      obtain ⟨piece, pieces, hsplit⟩ := List.exists_cons_of_ne_nil (splitOn_ne_nil text)
      rw [hsplit] at ih ⊢
      simpa [pushFront, hc] using ih

theorem splitOn_of_not_mem {text : Text} (h : separator ∉ text) :
    splitOn separator text = [text] := by
  induction text with
  | nil => rfl
  | cons c text ih =>
    rw [List.mem_cons, not_or] at h
    rw [splitOn, if_neg (Ne.symm h.1), ih h.2]
    rfl

/-- Texts fall into more pieces than there are texts, unless none of them holds a separator. -/
theorem length_flatMap_splitOn_iff (texts : List Text) :
    (texts.flatMap (splitOn separator)).length = texts.length ↔
      ∀ text ∈ texts, separator ∉ text := by
  have hpieces : (texts.flatMap (splitOn separator)).length =
      texts.length + (texts.map (List.count separator)).sum := by
    induction texts with
    | nil => rfl
    | cons text texts ih =>
      rw [List.flatMap_cons, List.length_append, ih, length_splitOn, List.map_cons, List.sum_cons,
        List.length_cons]
      omega
  rw [hpieces, Nat.add_eq_left, List.sum_eq_zero_iff_forall_eq_nat, List.forall_mem_map]
  simp only [List.count_eq_zero]

theorem flatMap_splitOn_eq_self {texts : List Text} (h : ∀ text ∈ texts, separator ∉ text) :
    texts.flatMap (splitOn separator) = texts := by
  rw [List.flatMap_congr fun text htext => splitOn_of_not_mem (h text htext)]
  exact List.flatMap_singleton' texts

/-! ## Pieces without their outer blanks -/

theorem ne_of_isBlank {c : Char} (hseparator : isBlank separator = false) (hc : isBlank c = true) :
    c ≠ separator := by
  rintro rfl
  exact absurd hc (by simp [hseparator])

theorem map_trim_pushFront {c : Char} (hc : isBlank c = true) {pieces : List Text}
    (hne : pieces ≠ []) : (pushFront c pieces).map trim = pieces.map trim := by
  obtain ⟨piece, rest, rfl⟩ := List.exists_cons_of_ne_nil hne
  rw [pushFront, List.map_cons, List.map_cons, trim_cons_of_blank hc]

theorem map_trim_splitOn_cons {c : Char} (hc : isBlank c = true) (hother : c ≠ separator)
    (text : Text) :
    (splitOn separator (c :: text)).map trim = (splitOn separator text).map trim := by
  rw [splitOn, if_neg hother, map_trim_pushFront hc (splitOn_ne_nil text)]

/-- Outer blanks of a text are outer blanks of its first and last pieces. -/
theorem map_trim_splitOn_trim (hseparator : isBlank separator = false) (text : Text) :
    (splitOn separator (trim text)).map trim = (splitOn separator text).map trim := by
  refine trim_invariant (fun text => (splitOn separator text).map trim)
    (fun c text hc => map_trim_splitOn_cons hc (ne_of_isBlank hseparator hc) text)
    (fun c text hc => ?_) text
  obtain ⟨front, last, hsplit, happend⟩ :=
    splitOn_append_other separator c text (ne_of_isBlank hseparator hc)
  rw [hsplit, happend, List.map_append, List.map_append, List.map_singleton, List.map_singleton,
    trim_append_of_blank hc]

/-- Texts that are joined by a separator between blanks come back without their outer blanks. -/
theorem map_trim_splitOn_join {before after : Char} (hbefore : isBlank before = true)
    (hafter : isBlank after = true) (hseparator : isBlank separator = false) {texts : List Text}
    (hne : texts ≠ []) (htexts : ∀ text ∈ texts, separator ∉ text) :
    (splitOn separator (join [before, separator, after] texts)).map trim = texts.map trim := by
  induction texts, hne using List.recNeNil with
  | singleton text => rw [join, splitOn_of_not_mem (htexts text (by simp))]
  | cons text texts hne ih =>
    obtain ⟨htext, htexts⟩ := List.forall_mem_cons.1 htexts
    have hfront : separator ∉ text ++ [before] := by
      simp [htext, (ne_of_isBlank hseparator hbefore).symm]
    have hjoin : join [before, separator, after] (text :: texts) =
        (text ++ [before]) ++ separator :: after :: join [before, separator, after] texts := by
      rw [join_cons hne]
      simp
    rw [hjoin, splitOn_append, splitOn_of_not_mem hfront, List.singleton_append, List.map_cons,
      trim_append_of_blank hbefore, map_trim_splitOn_cons hafter (ne_of_isBlank hseparator hafter),
      ih htexts, List.map_cons]

end KeyedText.Text
