import KeyedText.Text.Case
import KeyedText.Proofs.Text.Trim
import Mathlib.Tactic.IntervalCases

/-!
# Capitals of ASCII

A capital of ASCII and its small letter go alike through lowercasing: both have case, neither is
ignorable in words, and neither is a sigma. So it makes no difference to a folded name in which case
its ASCII letters are written, and the shorter ways that ASCII texts take lead to the same results.

## Main statements

- `Text.lowercase_asciiLowercase` — lowercasing after the ASCII letters were made small
- `Text.fold_eq_of_sameIgnoringAsciiCase` — names that differ in the case of ASCII letters only
- `Text.fold_trim` — names that differ in outer blanks only
- `Text.shortcuts_eq_lowercase` — names and texts are compared by their small letters
-/

namespace KeyedText.Text

variable {c : Char} {text before left right : Text}

/-! ## Characters -/

/-- The capitals of ASCII. -/
def capitals : List Char :=
  ['A', 'B', 'C', 'D', 'E', 'F', 'G', 'H', 'I', 'J', 'K', 'L', 'M', 'N', 'O', 'P', 'Q', 'R', 'S',
   'T', 'U', 'V', 'W', 'X', 'Y', 'Z']

theorem mem_capitals (h : c.val ≥ 'A'.val ∧ c.val ≤ 'Z'.val) : c ∈ capitals := by
  have hlow : 65 ≤ c.toNat := UInt32.le_iff_toNat_le.1 h.1
  have hhigh : c.toNat ≤ 90 := UInt32.le_iff_toNat_le.1 h.2
  have hc : c = Char.ofNat c.toNat := (Char.ofNat_toNat c).symm
  generalize c.toNat = n at hc hlow hhigh
  subst hc
  interval_cases n <;> simp [capitals]

/-- What is the same for each capital of ASCII and its small letter is the same for each character
and its small form. -/
theorem toLower_invariant {β : Type} [BEq β] [LawfulBEq β] (f : Char → β)
    (h : (capitals.all fun c => f c.toLower == f c) = true) (c : Char) : f c.toLower = f c := by
  by_cases hcapital : c.val ≥ 'A'.val ∧ c.val ≤ 'Z'.val
  · exact beq_iff_eq.1 (List.all_eq_true.1 h c (mem_capitals hcapital))
  · have hsame : c.toLower = c := dif_neg hcapital
    rw [hsame]

theorem lowerChar_toLower (c : Char) : lowerChar c.toLower = lowerChar c :=
  toLower_invariant lowerChar (by decide) c

theorem isAscii_toLower (c : Char) : isAscii c.toLower = isAscii c :=
  toLower_invariant isAscii (by decide) c

theorem isSigma_toLower (c : Char) : c.toLower = 'Σ' ↔ c = 'Σ' := by
  have hsame := toLower_invariant (fun c => c == 'Σ') (by decide) c
  rw [← beq_iff_eq, hsame, beq_iff_eq]

theorem isCased_toLower (c : Char) :
    inRanges casedRanges c.toLower.toNat = inRanges casedRanges c.toNat :=
  toLower_invariant (fun c => inRanges casedRanges c.toNat) (by decide) c

theorem isIgnorable_toLower (c : Char) :
    inRanges caseIgnorableRanges c.toLower.toNat = inRanges caseIgnorableRanges c.toNat :=
  toLower_invariant (fun c => inRanges caseIgnorableRanges c.toNat) (by decide +kernel) c

/-! ## Texts -/

theorem asciiLowercase_cons (c : Char) (text : Text) :
    asciiLowercase (c :: text) = c.toLower :: asciiLowercase text :=
  rfl

theorem nextIsCased_cons (c : Char) (text : Text) :
    nextIsCased (c :: text) =
      if inRanges caseIgnorableRanges c.toNat then nextIsCased text
      else inRanges casedRanges c.toNat := by
  by_cases hignorable : inRanges caseIgnorableRanges c.toNat = true
  · rw [if_pos hignorable, nextIsCased, List.dropWhile_cons, if_pos hignorable]
    rfl
  · rw [if_neg hignorable, nextIsCased, List.dropWhile_cons, if_neg hignorable]

/-- Small letters have case and are not ignorable, just as capitals. -/
theorem nextIsCased_asciiLowercase (text : Text) :
    nextIsCased (asciiLowercase text) = nextIsCased text := by
  induction text with
  | nil => rfl
  | cons c text ih =>
    rw [asciiLowercase_cons, nextIsCased_cons, nextIsCased_cons, isIgnorable_toLower,
      isCased_toLower, ih]

/-- What stands before a text may be written in either case as well, since it only tells whether a
sigma is final. -/
theorem lowercaseAfter_asciiLowercase (before text : Text) :
    lowercaseAfter (asciiLowercase before) (asciiLowercase text) = lowercaseAfter before text := by
  induction text generalizing before with
  | nil => rfl
  | cons c text ih =>
    rw [asciiLowercase_cons, lowercaseAfter, lowercaseAfter, ← ih (c :: before),
      asciiLowercase_cons, isFinalSigma, nextIsCased_asciiLowercase, nextIsCased_asciiLowercase,
      ← isFinalSigma, lowerChar_toLower]
    simp only [isSigma_toLower]

/-- Lowercasing does not depend on the case in which ASCII letters are written. -/
theorem lowercase_asciiLowercase (text : Text) : lowercase (asciiLowercase text) = lowercase text :=
  lowercaseAfter_asciiLowercase [] text

theorem all_isAscii_asciiLowercase (text : Text) :
    (asciiLowercase text).all isAscii = text.all isAscii := by
  rw [asciiLowercase, List.all_map]
  exact congrArg text.all (funext isAscii_toLower)

/-- **The case of ASCII letters does not count in names.** Nor do outer blanks. -/
theorem fold_eq_of_sameIgnoringAsciiCase
    (h : sameIgnoringAsciiCase (trim left) (trim right) = true) : fold left = fold right := by
  have hsame : asciiLowercase (trim left) = asciiLowercase (trim right) := beq_iff_eq.1 h
  rw [fold, fold, ← all_isAscii_asciiLowercase (trim left),
    ← lowercase_asciiLowercase (trim left), hsame, all_isAscii_asciiLowercase,
    lowercase_asciiLowercase]

theorem fold_trim (name : Text) : fold (trim name) = fold name := by
  rw [fold, fold, trim_trim]

/-! ## Shortcuts for ASCII -/

theorem ne_sigma_of_isAscii (h : isAscii c = true) : c ≠ 'Σ' := by
  rintro rfl
  exact absurd h (by decide)

/-- A text without characters outside ASCII has no sigma, and its letters do not look at their
neighbours. -/
theorem lowercaseAfter_of_isAscii (h : text.all isAscii = true) (before : Text) :
    lowercaseAfter before text = asciiLowercase text := by
  induction text generalizing before with
  | nil => rfl
  | cons c text ih =>
    rw [List.all_cons, Bool.and_eq_true] at h
    rw [lowercaseAfter, if_neg (ne_sigma_of_isAscii h.1), lowerChar, if_pos h.1, ih h.2,
      asciiLowercase_cons]
    rfl

theorem fold_eq_lowercase_trim (name : Text) : fold name = lowercase (trim name) := by
  rw [fold]
  by_cases h : (trim name).all isAscii = true
  · exact (if_pos h).trans (lowercaseAfter_of_isAscii h []).symm
  · exact if_neg h

theorem sameIgnoringCase_iff :
    sameIgnoringCase left right = true ↔ lowercase left = lowercase right := by
  rw [sameIgnoringCase, Bool.or_eq_true, beq_iff_eq, or_iff_right_iff_imp]
  intro h
  -- texts with the same small ASCII letters have the same small letters throughout
  have hsame : asciiLowercase left = asciiLowercase right := beq_iff_eq.1 h
  rw [← lowercase_asciiLowercase left, hsame, lowercase_asciiLowercase]

/-- **The shortcuts for ASCII agree with lowercasing.** A name is folded to the small letters of
what is left without its outer blanks. Texts are the same up to case just when their small letters
are, so to be the same is an equivalence. -/
theorem shortcuts_eq_lowercase :
    (∀ name, fold name = lowercase (trim name)) ∧
      (∀ left right, sameIgnoringCase left right = true ↔ lowercase left = lowercase right) ∧
      Equivalence fun left right => sameIgnoringCase left right = true := by
  refine ⟨fold_eq_lowercase_trim, fun left right => sameIgnoringCase_iff, ?_, ?_, ?_⟩
  · exact fun text => sameIgnoringCase_iff.2 rfl
  · exact fun h => sameIgnoringCase_iff.2 (sameIgnoringCase_iff.1 h).symm
  · intro first second third hfirst hsecond
    exact sameIgnoringCase_iff.2
      ((sameIgnoringCase_iff.1 hfirst).trans (sameIgnoringCase_iff.1 hsecond))

-- whether a sigma is final depends on the ASCII letters next to it, but not on their case
example : fold "\u00a0ODOΣ.B " = "odoσ.b".toList ∧ fold "odoΣ. b" = "odoς. b".toList := by
  decide +kernel

end KeyedText.Text
