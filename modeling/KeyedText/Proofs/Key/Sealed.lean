import KeyedText.Key.Bracket
import KeyedText.Proofs.Text.Trim

/-!
# Sealed texts

A text is sealed against a separator when it closes every bracket that is open before or in it and
has no separator outside brackets. Splitting and cutting pass over such a text as over one
character that is no separator.

## Main definitions

- `Bracket.Sealed` — no separator at depth zero, and depth zero at the end

## Main statements

- `Bracket.sealed_of_cutFrom` — what stands before the first separator is sealed
- `Bracket.cutFrom_append` — cutting behind a sealed text
- `Bracket.splitFrom_append_separator` — splitting behind a sealed text
- `Bracket.bodiesFrom_indices` — the contents of brackets one by one
-/

namespace KeyedText.Bracket

/-- The text leads from the given depth to depth zero, with no separator at depth zero. -/
def Sealed (separator : Char) : Nat → Text → Prop
  | depth, [] => depth = 0
  | depth, c :: rest => ¬(c = separator ∧ depth = 0) ∧ Sealed separator (step depth c) rest

variable {separator : Char} {depth : Nat} {first second content : Text}

theorem Sealed.append (hfirst : Sealed separator depth first)
    (hsecond : Sealed separator 0 second) : Sealed separator depth (first ++ second) := by
  -- along the first text, whose depth is zero where the second one starts
  induction first generalizing depth with
  | nil =>
    rw [Sealed] at hfirst
    rw [hfirst]
    exact hsecond
  | cons c first ih => exact ⟨hfirst.1, ih hfirst.2⟩

theorem sealed_of_plain (h : ∀ c ∈ content, c ≠ separator ∧ c ≠ '[') :
    Sealed separator 0 content := by
  induction content with
  | nil => rfl
  | cons c content ih =>
    obtain ⟨hsep, hopen⟩ := h c (by simp)
    -- a closing bracket too many leaves the depth at zero
    have hstep : step 0 c = 0 := by
      rw [step, if_neg hopen]
      split <;> rfl
    refine ⟨fun hc => hsep hc.1, ?_⟩
    rw [hstep]
    exact ih fun d hd => h d (by simp [hd])

/-- Inside of a bracket the depth is one more than it would be outside. -/
theorem step_succ {c : Char} (h : ¬(c = ']' ∧ depth = 0)) :
    step (depth + 1) c = step depth c + 1 := by
  by_cases hopen : c = '['
  · rw [step, step, if_pos hopen, if_pos hopen]
  · by_cases hclose : c = ']'
    · have hdepth : depth ≠ 0 := fun hdepth => h ⟨hclose, hdepth⟩
      rw [step, step, if_neg hopen, if_neg hopen, if_pos hclose, if_pos hclose]
      omega
    · rw [step, step, if_neg hopen, if_neg hopen, if_neg hclose, if_neg hclose]

/-- What stands inside of a bracket may hold separators. It is sealed against closing brackets, so
that the one behind it is the first that closes the bracket. -/
theorem sealed_inside (h : Sealed ']' depth content) :
    Sealed separator (depth + 1) (content ++ [']']) := by
  induction content generalizing depth with
  | nil =>
    rw [Sealed] at h
    rw [h]
    exact ⟨by simp, rfl⟩
  | cons c content ih =>
    refine ⟨by simp, ?_⟩
    rw [step_succ h.1]
    exact ih h.2

/-- A pair of brackets is sealed, whatever stands inside. -/
theorem sealed_index (h : Sealed ']' 0 content) (hopen : separator ≠ '[') :
    Sealed separator 0 ('[' :: content ++ [']']) :=
  ⟨fun hc => hopen hc.1.symm, sealed_inside h⟩

theorem Sealed.depthAfter_eq (h : Sealed separator depth content) :
    depthAfter depth content = 0 := by
  induction content generalizing depth with
  | nil => exact h
  | cons c content ih => exact ih h.2

theorem cutFrom_of_sealed (h : Sealed separator depth content) :
    cutFrom separator depth content = none := by
  induction content generalizing depth with
  | nil => rfl
  | cons c content ih => rw [cutFrom, if_neg h.1, ih h.2, Option.map_none]

/-- What stands before the first separator is sealed against it. -/
theorem sealed_of_cutFrom {before after : Text}
    (h : cutFrom separator depth content = some (before, after)) :
    Sealed separator depth before ∧ content = before ++ separator :: after := by
  induction content generalizing depth before with
  | nil => exact absurd h (by simp [cutFrom])
  | cons c content ih =>
    rw [cutFrom] at h
    split at h
    · next hsep =>
      obtain ⟨rfl, rfl⟩ := Prod.mk.inj (Option.some.inj h)
      exact ⟨hsep.2, by rw [hsep.1, List.nil_append]⟩
    · next hsep =>
      obtain ⟨⟨before, after⟩, hcut, heq⟩ := Option.map_eq_some_iff.1 h
      obtain ⟨rfl, rfl⟩ := Prod.mk.inj heq
      obtain ⟨hsealed, rfl⟩ := ih hcut
      exact ⟨⟨hsep, hsealed⟩, rfl⟩

theorem step_of_blank {c : Char} (hc : Text.isBlank c = true) : step depth c = depth := by
  have hopen : c ≠ '[' := by
    rintro rfl
    exact absurd hc (by decide)
  have hclose : c ≠ ']' := by
    rintro rfl
    exact absurd hc (by decide)
  rw [step, if_neg hopen, if_neg hclose]

/-- Outer blanks make no difference to what is sealed. -/
theorem Sealed.trim (hseparator : Text.isBlank separator = false) (h : Sealed separator 0 content) :
    Sealed separator 0 (Text.trim content) := by
  have hplain : ∀ c, Text.isBlank c = true → ∀ depth, ¬(c = separator ∧ depth = 0) := by
    rintro c hc depth ⟨rfl, -⟩
    exact absurd hc (by simp [hseparator])
  rw [Text.trim_invariant (Sealed separator 0)]
  · exact h
  · intro c text hc
    have hstep : step 0 c = 0 := step_of_blank hc
    rw [Sealed, hstep]
    exact propext (and_iff_right (hplain c hc 0))
  · intro c text hc
    have hlast : ∀ depth, Sealed separator depth (text ++ [c]) ↔ Sealed separator depth text := by
      induction text with
      | nil =>
        intro depth
        rw [List.nil_append, Sealed, Sealed, Sealed, step_of_blank hc]
        exact and_iff_right (hplain c hc depth)
      | cons d text ih =>
        intro depth
        rw [List.cons_append, Sealed, Sealed, ih]
    exact propext (hlast 0)

theorem cutFrom_append (h : Sealed separator depth first) (rest : Text) :
    cutFrom separator depth (first ++ rest) =
      (cutFrom separator 0 rest).map fun cut => (first ++ cut.1, cut.2) := by
  induction first generalizing depth with
  | nil =>
    rw [Sealed] at h
    simp [h]
  | cons c first ih =>
    rw [List.cons_append, cutFrom, if_neg h.1, ih h.2, Option.map_map]
    rfl

theorem splitFrom_of_sealed (h : Sealed separator depth first) :
    splitFrom separator depth first = [first] := by
  induction first generalizing depth with
  | nil => rfl
  | cons c first ih =>
    rw [splitFrom, if_neg h.1, ih h.2]
    rfl

theorem splitFrom_append_separator (h : Sealed separator depth first) (rest : Text) :
    splitFrom separator depth (first ++ separator :: rest) =
      first :: splitFrom separator 0 rest := by
  induction first generalizing depth with
  | nil =>
    rw [Sealed] at h
    rw [List.nil_append, splitFrom, if_pos ⟨rfl, h⟩]
  | cons c first ih =>
    rw [List.cons_append, splitFrom, if_neg h.1, ih h.2]
    rfl

theorem bodiesFrom_append (h : '[' ∉ first) (rest : Text) :
    bodiesFrom none (first ++ rest) = bodiesFrom none rest := by
  induction first with
  | nil => rfl
  | cons c first ih =>
    have hc : c ≠ '[' := fun hc => h (by simp [hc])
    rw [List.cons_append, bodiesFrom, if_neg hc, ih fun hmem => h (by simp [hmem])]

/-- Inside of a bracket every character but the one that closes it belongs to the content. -/
theorem bodiesFrom_step {c : Char} (h : ¬(c = ']' ∧ depth = 0)) (rest : Text) :
    bodiesFrom (some depth) (c :: rest) =
      Text.pushFront c (bodiesFrom (some (step depth c)) rest) := by
  by_cases hopen : c = '['
  · rw [hopen]
    rfl
  · by_cases hclose : c = ']'
    · obtain ⟨depth, rfl⟩ := Nat.exists_eq_succ_of_ne_zero fun hdepth => h ⟨hclose, hdepth⟩
      rw [hclose]
      rfl
    · rw [step, if_neg hopen, if_neg hclose, bodiesFrom.eq_def]
      exact (if_neg hopen).trans (if_neg hclose)

theorem bodiesFrom_inside (h : Sealed ']' depth content) (rest : Text) :
    bodiesFrom (some depth) (content ++ ']' :: rest) = content :: bodiesFrom none rest := by
  induction content generalizing depth with
  | nil =>
    rw [Sealed] at h
    rw [h]
    rfl
  | cons c content ih =>
    rw [List.cons_append, bodiesFrom_step h.1, ih h.2]
    rfl

/-- The contents of brackets that stand one behind the other. -/
theorem bodiesFrom_indices (contents : List Text) (h : ∀ content ∈ contents, Sealed ']' 0 content) :
    bodiesFrom none (contents.flatMap fun content => '[' :: content ++ [']']) = contents := by
  induction contents with
  | nil => rfl
  | cons content contents ih =>
    have hrest := ih fun other hother => h other (by simp [hother])
    simp only [List.flatMap_cons, List.cons_append, List.append_assoc, List.nil_append] at hrest ⊢
    rw [bodiesFrom, if_pos rfl, bodiesFrom_inside (h content (by simp)), hrest]

/-- The contents of brackets that are all closed are sealed against closing brackets. -/
theorem sealed_of_mem_bodiesFrom {body : Text} (h : depthAfter 0 content = 0)
    (hbody : body ∈ bodiesFrom none content) : Sealed ']' 0 body := by
  -- inside of a bracket the first body is only the rest of one, and it starts at its depth
  have hboth : (depthAfter 0 content = 0 → ∀ body ∈ bodiesFrom none content, Sealed ']' 0 body) ∧
      ∀ depth, depthAfter (depth + 1) content = 0 → ∃ first rest,
        bodiesFrom (some depth) content = first :: rest ∧ Sealed ']' depth first ∧
          ∀ body ∈ rest, Sealed ']' 0 body := by
    clear h hbody
    induction content with
    | nil => exact ⟨fun _ => by simp [bodiesFrom], fun depth h => absurd h (by simp [depthAfter])⟩
    | cons c content ih =>
      obtain ⟨houtside, hinside⟩ := ih
      refine ⟨fun h => ?_, fun depth h => ?_⟩
      · rw [bodiesFrom]
        by_cases hopen : c = '['
        · rw [if_pos hopen]
          rw [depthAfter, List.foldl_cons, step, if_pos hopen] at h
          obtain ⟨first, rest, heq, hfirst, hrest⟩ := hinside 0 h
          rw [heq, List.forall_mem_cons]
          exact ⟨hfirst, hrest⟩
        · rw [if_neg hopen]
          rw [depthAfter, List.foldl_cons, step, if_neg hopen] at h
          refine houtside ?_
          split at h <;> exact h
      · by_cases hend : c = ']' ∧ depth = 0
        · obtain ⟨rfl, rfl⟩ := hend
          exact ⟨[], bodiesFrom none content, rfl, rfl, houtside h⟩
        · rw [depthAfter, List.foldl_cons, step_succ hend] at h
          obtain ⟨first, rest, heq, hfirst, hrest⟩ := hinside (step depth c) h
          refine ⟨c :: first, rest, ?_, ⟨hend, hfirst⟩, hrest⟩
          rw [bodiesFrom_step hend, heq]
          rfl
  exact hboth.1 h body hbody

end KeyedText.Bracket
