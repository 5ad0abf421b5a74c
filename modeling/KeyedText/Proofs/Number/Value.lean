import KeyedText.Proofs.Number.Plain
import Mathlib.Algebra.Field.Rat
import Mathlib.Algebra.Order.Ring.Rat
import Mathlib.Data.List.DropRight
import Mathlib.Tactic.FieldSimp
import Mathlib.Tactic.NormNum
import Mathlib.Tactic.Ring

/-!
# The value of a numeral

A numeral in scientific form and its plain form denote the same rational number. The digits of both
are the same up to zeros in front and behind, and the point stands where the exponent puts it; what
is dropped at the end of a fraction does not count.

## Main definitions

- `Numeral.Decimal` — numbers written without an exponent
- `Numeral.Scientific` — numbers written with or without an exponent
- `Numeral.Decimal.value`, `Numeral.Scientific.value` — the numbers that they denote
- `Numeral.Scientific.Fits` — no part of the number is out of the range of exponents
- `Numeral.Decimal.Tidy` — no zero ends the fraction, and zero is written `0`

## Main statements

- `Numeral.plain_text` — the plain form of a number is tidy and denotes the same number
-/

namespace KeyedText

namespace Text

variable {digits : Text}

theorem digitsValueFrom_eq (total : Nat) (digits : Text) :
    digitsValueFrom total digits = total * 10 ^ digits.length + digitsValue digits := by
  induction digits generalizing total with
  | nil => simp [digitsValueFrom, digitsValue]
  | cons c digits ih =>
    have hvalue : digitsValue (c :: digits) = digitsValueFrom (0 * 10 + digitValue c) digits := rfl
    rw [hvalue, ih, digitsValueFrom, List.foldl_cons, ← digitsValueFrom, ih, List.length_cons]
    ring

/-- The value of two runs of digits that stand one behind the other. -/
theorem digitsValue_append (left right : Text) :
    digitsValue (left ++ right) = digitsValue left * 10 ^ right.length + digitsValue right := by
  rw [digitsValue, List.foldl_append, ← digitsValue]
  exact digitsValueFrom_eq (digitsValue left) right

theorem digitsValue_zeros (n : Nat) : digitsValue (List.replicate n '0') = 0 := by
  induction n with
  | zero => rfl
  | succ n ih =>
    rw [List.replicate_succ', digitsValue_append, ih]
    rfl

theorem digitsValue_eq_zero_iff (hdigits : ∀ c ∈ digits, isDigit c = true) :
    digitsValue digits = 0 ↔ ∀ c ∈ digits, c = '0' := by
  induction digits using List.reverseRecOn with
  | nil => simp [digitsValue]
  | append_singleton digits c ih =>
    have hdigit := isDigit_iff.1 (hdigits c (by simp))
    have hlow : 48 ≤ c.toNat := hdigit.1
    have hlast : digitsValue [c] = 0 ↔ c = '0' := by
      have hvalue : digitsValue [c] = 0 * 10 + (c.toNat - 48) := rfl
      constructor
      · intro h
        exact Char.toNat_inj.1 (show c.toNat = 48 by omega)
      · rintro rfl
        rfl
    rw [digitsValue_append, Nat.add_eq_zero_iff, hlast, Nat.mul_eq_zero,
      ih fun other hother => hdigits other (by simp [hother])]
    simp [or_imp, forall_and]

end Text

namespace Numeral

open Text (isDigit digitsValue)

/-! ## Written numbers -/

/-- A run of digits. -/
structure Digits where
  text : Text
  ne_nil : text ≠ []
  isDigit : ∀ c ∈ text, isDigit c = true

theorem Digits.exists_cons (digits : Digits) : ∃ c rest, digits.text = c :: rest ∧ c ≠ '-' := by
  obtain ⟨c, rest, hdigits⟩ := List.exists_cons_of_ne_nil digits.ne_nil
  refine ⟨c, rest, hdigits, ?_⟩
  rintro rfl
  exact absurd (digits.isDigit '-' (by simp [hdigits])) (by decide)

/-- The digit zero. -/
def Digits.zero : Digits :=
  ⟨['0'], by decide, List.all_eq_true.1 rfl⟩

/-- A number as it is written without an exponent: perhaps a sign, digits, and perhaps a point with
more digits. -/
structure Decimal where
  negative : Bool
  whole : Digits
  fraction : Option Digits

namespace Decimal

/-- The sign of the number. -/
def sign (number : Decimal) : Text :=
  if number.negative then ['-'] else []

/-- The digits behind the point. -/
def decimals (number : Decimal) : Text :=
  (number.fraction.map Digits.text).getD []

/-- The number as a text. -/
def text (number : Decimal) : Text :=
  number.sign ++ number.whole.text ++
    match number.fraction with
    | none => []
    | some digits => '.' :: digits.text

/-- The number without its sign. -/
def size (number : Decimal) : ℚ :=
  digitsValue number.whole.text + digitsValue number.decimals / 10 ^ (number.decimals.length : ℤ)

/-- The number that is denoted. -/
def value (number : Decimal) : ℚ :=
  if number.negative then -number.size else number.size

/-- The fraction does not end with a zero, and zero is written without anything else. -/
structure Tidy (number : Decimal) : Prop where
  fraction : ∀ digits ∈ number.fraction, digits.text.getLast? ≠ some '0'
  zero : number.value = 0 → number.text = ['0']

end Decimal

/-- A number as it is written with an exponent, which has digits and perhaps a sign, or without
one. -/
structure Scientific where
  mantissa : Decimal
  exponent : Option (Bool × Digits)

namespace Scientific

/-- The power of ten that the exponent stands for. -/
def power (number : Scientific) : Int :=
  match number.exponent with
  | none => 0
  | some (true, digits) => -(digitsValue digits.text : Int)
  | some (false, digits) => digitsValue digits.text

/-- The number as a text. -/
def text (number : Scientific) : Text :=
  number.mantissa.text ++
    match number.exponent with
    | none => []
    | some (true, digits) => 'e' :: '-' :: digits.text
    | some (false, digits) => 'e' :: digits.text

/-- The number that is denoted. -/
def value (number : Scientific) : ℚ :=
  number.mantissa.value * 10 ^ number.power

/-- The exponent, the position of the point, and their sum are within the range of exponents. -/
structure Fits (number : Scientific) : Prop where
  power : exponentKind.holds number.power = true
  point : exponentKind.holds number.mantissa.whole.text.length = true
  sum : exponentKind.holds (number.mantissa.whole.text.length + number.power) = true

end Scientific

/-! ## Digits and sizes -/

namespace Decimal

variable {number other : Decimal} {c : Char}

/-- All digits of the number. -/
def digits (number : Decimal) : Text :=
  number.whole.text ++ number.decimals

theorem isDigit_of_mem_decimals (h : c ∈ number.decimals) : isDigit c = true := by
  rw [decimals] at h
  cases hfraction : number.fraction with
  | none => simp [hfraction] at h
  | some digits =>
    rw [hfraction] at h
    exact digits.isDigit c h

theorem isDigit_of_mem_digits (h : c ∈ number.digits) : isDigit c = true :=
  (List.mem_append.1 h).elim (number.whole.isDigit c) isDigit_of_mem_decimals

/-- The size of a number by its digits and the number of those behind the point. -/
theorem size_eq (number : Decimal) :
    number.size = digitsValue number.digits * (10 : ℚ) ^ (-(number.decimals.length : ℤ)) := by
  rw [size, digits, Text.digitsValue_append, zpow_neg, zpow_natCast]
  push_cast
  field_simp

/-- The size of a number by its digits without some zeros in front and behind. -/
theorem size_of_digits (digits : Text) (front behind : Nat)
    (h : number.digits = List.replicate front '0' ++ digits ++ List.replicate behind '0') :
    number.size = digitsValue digits * (10 : ℚ) ^ ((behind : ℤ) - number.decimals.length) := by
  rw [size_eq, h, Text.digitsValue_append, Text.digitsValue_append, Text.digitsValue_zeros,
    Text.digitsValue_zeros, List.length_replicate, sub_eq_add_neg, zpow_add₀ (by decide),
    zpow_natCast]
  push_cast
  ring

theorem size_eq_zero_iff (number : Decimal) :
    number.size = 0 ↔ ∀ c ∈ number.digits, c = '0' := by
  rw [size_eq, mul_eq_zero_iff_right (zpow_ne_zero _ (by decide)), Nat.cast_eq_zero]
  exact Text.digitsValue_eq_zero_iff fun c => isDigit_of_mem_digits

theorem value_eq_zero_iff (number : Decimal) : number.value = 0 ↔ number.size = 0 := by
  rw [value]
  split
  · exact neg_eq_zero
  · exact Iff.rfl

/-! ## The text of a number -/

theorem mem_text (h : c ∈ number.text) : c = '-' ∨ c = '.' ∨ isDigit c = true := by
  rw [text, sign, List.mem_append, List.mem_append] at h
  rcases h with (h | h) | h
  · split at h
    · exact .inl (List.mem_singleton.1 h)
    · simp at h
  · exact .inr (.inr (number.whole.isDigit c h))
  · split at h
    · simp at h
    · next digits _ =>
      exact .inr ((List.mem_cons.1 h).imp_right (digits.isDigit c))

end Decimal

theorem isExponentMark_of_isDigit {c : Char} (h : isDigit c = true) : isExponentMark c = false := by
  by_contra hmark
  rw [Bool.not_eq_false, isExponentMark, Bool.or_eq_true, beq_iff_eq, beq_iff_eq] at hmark
  rcases hmark with rfl | rfl
  · exact absurd h (by decide)
  · exact absurd h (by decide)

theorem Decimal.isExponentMark_of_mem_text {number : Decimal} {c : Char} (h : c ∈ number.text) :
    isExponentMark c = false := by
  rcases mem_text h with rfl | rfl | hdigit
  · decide
  · decide
  · exact isExponentMark_of_isDigit hdigit

/-! ## Moving the point -/

theorem isDigit_of_mem_zeros {n : Nat} {c : Char} (h : c ∈ List.replicate n '0') :
    isDigit c = true := by
  rw [List.eq_of_mem_replicate h]
  decide

/-- The digits behind some zeros. -/
def Digits.behindZeros (n : Nat) (digits : Digits) : Digits where
  text := List.replicate n '0' ++ digits.text
  ne_nil := by simp [digits.ne_nil]
  isDigit := fun c hc => (List.mem_append.1 hc).elim isDigit_of_mem_zeros (digits.isDigit c)

/-- The digits with some zeros behind them. -/
def Digits.withZeros (n : Nat) (digits : Digits) : Digits where
  text := digits.text ++ List.replicate n '0'
  ne_nil := by simp [digits.ne_nil]
  isDigit := fun c hc => (List.mem_append.1 hc).elim (digits.isDigit c) isDigit_of_mem_zeros

/-- The first of some digits. -/
def Digits.take (n : Nat) (digits : Digits) (h : 0 < n) : Digits where
  text := digits.text.take n
  ne_nil := by simp [digits.ne_nil, Nat.ne_of_gt h]
  isDigit := fun c hc => digits.isDigit c (List.mem_of_mem_take hc)

/-- The digits behind the first ones. -/
def Digits.drop (n : Nat) (digits : Digits) (h : n < digits.text.length) : Digits where
  text := digits.text.drop n
  ne_nil := by simpa using h
  isDigit := fun c hc => digits.isDigit c (List.mem_of_mem_drop hc)

/-- Digits with a point in front of, behind or among them make up a number. -/
theorem exists_place (digits : Digits) (point : Int) (negative : Bool) : ∃ number : Decimal,
    number.negative = negative ∧ number.text = number.sign ++ place digits.text point ∧
      number.size = digitsValue digits.text * (10 : ℚ) ^ (point - digits.text.length) := by
  -- the size follows from the zeros around the digits and the number of digits behind the point
  have hsize : ∀ (number : Decimal) (front behind : Nat), number.digits =
        List.replicate front '0' ++ digits.text ++ List.replicate behind '0' →
      (behind : ℤ) - number.decimals.length = point - digits.text.length →
      number.size = digitsValue digits.text * (10 : ℚ) ^ (point - digits.text.length) := by
    intro number front behind hdigits hpower
    rw [number.size_of_digits digits.text front behind hdigits, hpower]
  rw [place]
  split
  · next hpoint =>
    let fraction := digits.behindZeros point.natAbs
    refine ⟨⟨negative, .zero, some fraction⟩, rfl, ?_, ?_⟩
    · simp [Decimal.text, fraction, Digits.behindZeros, Digits.zero]
    · refine hsize _ (point.natAbs + 1) 0 ?_ ?_
      · simp [Decimal.digits, Decimal.decimals, fraction, Digits.behindZeros, Digits.zero,
          List.replicate_succ]
      · simp only [Decimal.decimals, fraction, Digits.behindZeros, Option.map_some,
          Option.getD_some, List.length_append, List.length_replicate]
        omega
  · next hpoint =>
    dsimp only
    split
    · next hlength =>
      let whole := digits.withZeros (point.toNat - digits.text.length)
      refine ⟨⟨negative, whole, none⟩, rfl, ?_, ?_⟩
      · simp [Decimal.text, whole, Digits.withZeros]
      · refine hsize _ 0 (point.toNat - digits.text.length) ?_ ?_
        · simp [Decimal.digits, Decimal.decimals, whole, Digits.withZeros]
        · simp only [Decimal.decimals, Option.map_none, Option.getD_none, List.length_nil]
          omega
    · next hlength =>
      let whole := digits.take point.toNat (by omega)
      let fraction := digits.drop point.toNat (by omega)
      refine ⟨⟨negative, whole, some fraction⟩, rfl, ?_, ?_⟩
      · simp [Decimal.text, whole, fraction, Digits.take, Digits.drop]
      · refine hsize _ 0 0 ?_ ?_
        · simp [Decimal.digits, Decimal.decimals, whole, fraction, Digits.take, Digits.drop]
        · simp only [Decimal.decimals, fraction, Digits.drop, Option.map_some, Option.getD_some,
            List.length_drop]
          omega

/-! ## Dropping zeros -/

theorem dropTrailingZeros_eq_rdropWhile (text : Text) :
    dropTrailingZeros text = text.rdropWhile (· == '0') := rfl

/-- Nothing but zeros is dropped. -/
theorem exists_zeros_dropped (text : Text) :
    ∃ n, text = dropTrailingZeros text ++ List.replicate n '0' := by
  rw [dropTrailingZeros_eq_rdropWhile]
  induction text using List.reverseRecOn with
  | nil => exact ⟨0, rfl⟩
  | append_singleton text c ih =>
    by_cases hc : c = '0'
    · obtain ⟨n, hn⟩ := ih
      rw [List.rdropWhile_concat_pos _ _ _ (by simpa using hc)]
      refine ⟨n + 1, ?_⟩
      rw [List.replicate_succ', ← List.append_assoc, ← hn, hc]
    · rw [List.rdropWhile_concat_neg _ _ _ (by simpa using hc)]
      exact ⟨0, by simp⟩

/-- The texts that lose nothing are those that do not end with a zero. -/
theorem dropTrailingZeros_eq_self_iff {text : Text} :
    dropTrailingZeros text = text ↔ text.getLast? ≠ some '0' := by
  rw [dropTrailingZeros_eq_rdropWhile, List.rdropWhile_eq_self_iff]
  constructor
  · intro h hlast
    have hne : text ≠ [] := by
      rintro rfl
      simp at hlast
    rw [List.getLast?_eq_some_getLast hne] at hlast
    exact h hne (by simpa using hlast)
  · intro h hne hlast
    rw [List.getLast?_eq_some_getLast hne] at h
    exact h (congrArg some (by simpa using hlast))

theorem getLast?_dropTrailingZeros (text : Text) :
    (dropTrailingZeros text).getLast? ≠ some '0' :=
  dropTrailingZeros_eq_self_iff.1 (List.rdropWhile_idempotent _ text)

namespace Decimal

variable {number : Decimal}

/-- No point is in front of the point. -/
theorem front_ne_point (number : Decimal) :
    ∀ c ∈ number.sign ++ number.whole.text, decide (c ≠ '.') = true := by
  refine fun c h => decide_eq_true ?_
  rintro rfl
  rcases List.mem_append.1 h with h | h
  · rw [sign] at h
    split at h
    · simp at h
    · simp at h
  · exact absurd (number.whole.isDigit _ h) (by decide)

/-- The text of a number falls into what stands in front of the point and what stands behind. -/
theorem trimFraction_text (number : Decimal) : trimFraction number.text =
    match dropTrailingZeros number.decimals with
    | [] => number.sign ++ number.whole.text
    | digits => number.sign ++ number.whole.text ++ '.' :: digits := by
  rw [trimFraction, text, decimals]
  cases number.fraction with
  | none =>
    rw [List.append_nil, List.dropWhile_eq_nil_iff.2 number.front_ne_point]
    rfl
  | some digits =>
    dsimp only
    rw [List.takeWhile_append_of_pos number.front_ne_point,
      List.dropWhile_append_of_pos number.front_ne_point]
    cases hleft : dropTrailingZeros digits.text with
    | nil => simp [dropPoint, hleft]
    | cons c rest =>
      -- the last digit that is left is no point
      have hlast : (c :: rest).getLast? ≠ some '.' := by
        intro hlast
        have hmem := dropTrailingZeros_subset _ (hleft ▸ List.mem_of_getLast? hlast)
        exact absurd (digits.isDigit _ hmem) (by decide)
      simp [dropPoint, hleft, hlast]

/-- What is left of a number without the zeros that end its fraction. -/
theorem exists_trimFraction (number : Decimal) : ∃ other : Decimal,
    other.negative = number.negative ∧ other.text = trimFraction number.text ∧
      other.size = number.size ∧ ∀ digits ∈ other.fraction, digits.text.getLast? ≠ some '0' := by
  obtain ⟨n, hzeros⟩ := exists_zeros_dropped number.decimals
  -- whatever number has the digits that are left has the same size
  have hsize : ∀ other : Decimal, other.whole = number.whole →
      other.decimals = dropTrailingZeros number.decimals → other.size = number.size := by
    intro other hwhole hdecimals
    have hdigits : number.digits = other.digits ++ List.replicate n '0' := by
      rw [digits, digits, hwhole, hdecimals, List.append_assoc, ← hzeros]
    have hlength : number.decimals.length = other.decimals.length + n := by
      rw [hdecimals, ← List.length_replicate (n := n) (a := '0'), ← List.length_append, ← hzeros]
    rw [number.size_of_digits other.digits 0 n (by simpa using hdigits), hlength, other.size_eq]
    congr 2
    push_cast
    ring
  rw [trimFraction_text]
  cases hleft : dropTrailingZeros number.decimals with
  | nil =>
    refine ⟨⟨number.negative, number.whole, none⟩, rfl, ?_, hsize _ rfl hleft.symm, by simp⟩
    simp [text, sign]
  | cons c rest =>
    let fraction : Digits :=
      { text := dropTrailingZeros number.decimals
        ne_nil := by simp [hleft]
        isDigit := fun c hc => isDigit_of_mem_decimals (dropTrailingZeros_subset _ hc) }
    refine ⟨⟨number.negative, number.whole, some fraction⟩, rfl, ?_, hsize _ rfl rfl, ?_⟩
    · simp [text, sign, fraction, hleft]
    · rintro digits hdigits
      obtain rfl := Option.some.inj hdigits
      exact getLast?_dropTrailingZeros number.decimals

/-- A number is found to be zero by its characters. -/
theorem isZero_text (number : Decimal) : isZero number.text = true ↔ number.size = 0 := by
  have hminus : number.text.dropWhile (· == '-') = number.whole.text ++
      match number.fraction with
      | none => []
      | some digits => '.' :: digits.text := by
    obtain ⟨c, rest, hwhole, hne⟩ := number.whole.exists_cons
    rw [text, sign]
    split <;> simp [hwhole, hne]
  have hzero : ∀ c, isDigit c = true → ((c == '0' || c == '.') = true ↔ c = '0') := by
    intro c hc
    have hne : c ≠ '.' := by
      rintro rfl
      exact absurd hc (by decide)
    simp [hne]
  rw [isZero, hminus, size_eq_zero_iff, digits, decimals, List.all_append, Bool.and_eq_true,
    List.forall_mem_append, List.all_eq_true]
  refine and_congr (forall₂_congr fun c hc => hzero c (number.whole.isDigit c hc)) ?_
  cases number.fraction with
  | none => simp
  | some digits =>
    rw [List.all_cons]
    simp only [beq_self_eq_true, Bool.or_true, Bool.true_and, List.all_eq_true]
    exact forall₂_congr fun c hc => hzero c (digits.isDigit c hc)

/-! ## The plain form -/

/-- A number in its final form is tidy and has the same value. -/
theorem exists_tidy (number : Decimal) : ∃ other : Decimal,
    other.text = tidy number.text ∧ other.value = number.value ∧ other.Tidy := by
  obtain ⟨other, hsign, htext, hsize, hfraction⟩ := number.exists_trimFraction
  have hvalue : other.value = number.value := by
    rw [value, value, hsign, hsize]
  rw [tidy, ← htext]
  by_cases hzero : other.size = 0
  · have hnumber : number.value = 0 := number.value_eq_zero_iff.2 (hsize ▸ hzero)
    refine ⟨⟨false, .zero, none⟩, ?_, ?_, ⟨by simp, fun _ => rfl⟩⟩
    · rw [if_pos (other.isZero_text.2 hzero)]
      rfl
    · rw [hnumber, value_eq_zero_iff, size_eq_zero_iff]
      simp [digits, decimals, Digits.zero]
  · refine ⟨other, ?_, hvalue, hfraction, fun h => absurd (other.value_eq_zero_iff.1 h) hzero⟩
    rw [if_neg (mt other.isZero_text.1 hzero)]

/-- A tidy number is in its final form. -/
theorem Tidy.tidy_text (h : number.Tidy) : tidy number.text = number.text := by
  have htrim : trimFraction number.text = number.text := by
    rw [trimFraction_text, decimals, text]
    cases hfraction : number.fraction with
    | none => simp [dropTrailingZeros]
    | some digits =>
      have hlast := dropTrailingZeros_eq_self_iff.2 (h.fraction digits hfraction)
      obtain ⟨c, rest, hdigits⟩ := List.exists_cons_of_ne_nil digits.ne_nil
      rw [hdigits] at hlast
      simp only [Option.map_some, Option.getD_some, hdigits, hlast]
  rw [tidy, htrim]
  split
  · next hzero => exact (h.zero (number.value_eq_zero_iff.2 (number.isZero_text.1 hzero))).symm
  · rfl

theorem plain_text_eq (number : Decimal) : plain number.text = tidy number.text := by
  rw [plain, if_neg]
  simpa using fun c => isExponentMark_of_mem_text

end Decimal

/-! ## Exponents -/

theorem exponent_of_read {text : Text} {n : Int} (h : exponentKind.read text = .ok n) :
    exponent text = n := by
  rw [exponent, h]

/-- An exponent within the range counts as the power of ten that it stands for. -/
theorem exponent_digits (digits : Digits)
    (h : exponentKind.holds (digitsValue digits.text) = true) :
    exponent digits.text = digitsValue digits.text := by
  refine exponent_of_read ?_
  rw [IntegerKind.read_of_digits digits.ne_nil digits.isDigit]
  exact IntegerKind.readUp_digits exponentKind.greatest 0 digits.isDigit
    (IntegerKind.holds_iff.1 h).2

theorem exponent_minus_digits (digits : Digits)
    (h : exponentKind.holds (-(digitsValue digits.text : Int)) = true) :
    exponent ('-' :: digits.text) = -(digitsValue digits.text : Int) := by
  refine exponent_of_read ?_
  rw [IntegerKind.read_minus_digits digits.ne_nil rfl]
  exact IntegerKind.readDown_digits exponentKind.least 0 digits.isDigit
    (IntegerKind.holds_iff.1 h).1

namespace Decimal

variable {number : Decimal}

theorem filter_sign (number : Decimal) : number.sign.filter isDigit = [] := by
  rw [sign]
  split <;> rfl

theorem filter_text (number : Decimal) : number.text.filter isDigit = number.digits := by
  have hpoint : isDigit '.' = false := by decide
  rw [text, digits, decimals, List.filter_append, List.filter_append, filter_sign, List.nil_append,
    List.filter_eq_self.2 number.whole.isDigit]
  cases number.fraction with
  | none => rfl
  | some digits => simp [hpoint, List.filter_eq_self.2 digits.isDigit]

/-- The only point of a number is its last one. -/
theorem front_text (number : Decimal) : front number.text = number.sign ++ number.whole.text := by
  have hfront : ∀ c ∈ (number.sign ++ number.whole.text).reverse, decide (c ≠ '.') = true :=
    fun c hc => number.front_ne_point c (List.mem_reverse.1 hc)
  rw [front, text]
  cases number.fraction with
  | none => rw [List.append_nil, List.dropWhile_eq_nil_iff.2 hfront]
  | some digits =>
    have hbehind : ∀ c ∈ digits.text.reverse, decide (c ≠ '.') = true := by
      intro c hc
      refine decide_eq_true ?_
      rintro rfl
      exact absurd (digits.isDigit _ (List.mem_reverse.1 hc)) (by decide)
    simp only [List.reverse_append, List.reverse_cons, List.append_assoc,
      List.dropWhile_append_of_pos hbehind]
    simp

theorem filter_front_text (number : Decimal) :
    (front number.text).filter isDigit = number.whole.text := by
  rw [front_text, List.filter_append, filter_sign, List.nil_append,
    List.filter_eq_self.2 number.whole.isDigit]

theorem head?_text (number : Decimal) : (number.text.head? == some '-') = number.negative := by
  obtain ⟨c, rest, hwhole, hne⟩ := number.whole.exists_cons
  rw [text, sign]
  cases number.negative with
  | false => simp [hwhole, hne]
  | true => rfl

/-- A number with its exponent carried out is one whose point is moved by the exponent. -/
theorem exists_expand (number : Decimal) (mark : Text) : ∃ other : Decimal,
    expand (number.text ++ 'e' :: mark) = tidy other.text ∧
      other.value = number.value * (10 : ℚ) ^ exponent mark := by
  let digits : Digits :=
    { text := number.digits
      ne_nil := by simp [Decimal.digits, number.whole.ne_nil]
      isDigit := fun c => isDigit_of_mem_digits }
  let point : Int := number.whole.text.length + exponent mark
  obtain ⟨other, hsign, htext, hsize⟩ := exists_place digits point number.negative
  have hmantissa : ∀ c ∈ number.text, (!isExponentMark c) = true := fun c hc => by
    rw [isExponentMark_of_mem_text hc]
    rfl
  refine ⟨other, ?_, ?_⟩
  · have hmark : (!isExponentMark 'e') = false := rfl
    rw [expand, List.takeWhile_append_of_pos hmantissa, List.dropWhile_append_of_pos hmantissa]
    simp only [List.takeWhile_cons, List.dropWhile_cons, hmark, Bool.false_eq_true, if_false,
      List.append_nil, List.drop_succ_cons, List.drop_zero, head?_text, filter_text,
      filter_front_text]
    rw [htext, sign, hsign]
    split <;> rfl
  · have hlength : number.digits.length = number.whole.text.length + number.decimals.length :=
      List.length_append
    have hpower : point - digits.text.length = -(number.decimals.length : ℤ) + exponent mark := by
      change number.whole.text.length + exponent mark - (number.digits.length : ℤ) = _
      omega
    have hmoved : other.size = number.size * (10 : ℚ) ^ exponent mark := by
      rw [hsize, hpower, zpow_add₀ (by decide), number.size_eq, mul_assoc]
    rw [value, value, hsign, hmoved]
    split
    · rw [neg_mul]
    · rfl

end Decimal

/-- The plain form of a number with or without an exponent. -/
theorem Scientific.exists_plain {number : Scientific} (hfits : number.Fits) : ∃ other : Decimal,
    plain number.text = tidy other.text ∧ other.value = number.value := by
  obtain ⟨mantissa, exponent⟩ := number
  have hmark : ∀ mark, plain (mantissa.text ++ 'e' :: mark) =
      expand (mantissa.text ++ 'e' :: mark) := fun mark => if_pos (by simp [isExponentMark])
  rcases exponent with - | ⟨negative, digits⟩
  · refine ⟨mantissa, ?_, ?_⟩
    · rw [text, List.append_nil, mantissa.plain_text_eq]
    · rw [value, power, zpow_zero, mul_one]
  · cases negative with
    | false =>
      obtain ⟨other, htext, hvalue⟩ := mantissa.exists_expand digits.text
      rw [exponent_digits digits hfits.power] at hvalue
      exact ⟨other, (hmark _).trans htext, hvalue⟩
    | true =>
      obtain ⟨other, htext, hvalue⟩ := mantissa.exists_expand ('-' :: digits.text)
      rw [exponent_minus_digits digits hfits.power] at hvalue
      exact ⟨other, (hmark _).trans htext, hvalue⟩

/-- **The plain form of a number** denotes the same number. It has no exponent, no zero ends its
fraction, no point is bare, and zero is written `0`. It is its own plain form. -/
theorem plain_text (number : Scientific) (hfits : number.Fits) : ∃ other : Decimal,
    plain number.text = other.text ∧ other.value = number.value ∧
      (∀ digits ∈ other.fraction, digits.text.getLast? ≠ some '0') ∧
      (number.value = 0 → plain number.text = ['0']) ∧
      plain (plain number.text) = plain number.text := by
  obtain ⟨expanded, hplain, hexpanded⟩ := Scientific.exists_plain hfits
  obtain ⟨other, htext, hvalue, htidy⟩ := expanded.exists_tidy
  rw [hplain, ← htext]
  refine ⟨other, rfl, hvalue.trans hexpanded, htidy.fraction, fun hzero => ?_, ?_⟩
  · exact htidy.zero (hvalue.trans (hexpanded.trans hzero))
  · rw [other.plain_text_eq, htidy.tidy_text]

/-- A number whose point is moved past all of its digits. -/
def small : Scientific where
  mantissa :=
    { negative := true
      whole := ⟨['1', '2'], by decide, List.all_eq_true.1 rfl⟩
      fraction := some ⟨['5', '0'], by decide, List.all_eq_true.1 rfl⟩ }
  exponent := some (true, ⟨['3'], by decide, List.all_eq_true.1 rfl⟩)

theorem small_plain : small.Fits ∧ ∃ other : Decimal, plain "-12.50e-3" = other.text ∧
    other.value = -1 / 80 ∧ plain (plain "-12.50e-3") = plain "-12.50e-3" := by
  have hfits : small.Fits := ⟨by decide, by decide, by decide⟩
  have hwhole : digitsValue ['1', '2'] = 12 := by decide
  have hfraction : digitsValue ['5', '0'] = 50 := by decide
  have hexponent : digitsValue ['3'] = 3 := by decide
  have hvalue : small.value = -1 / 80 := by
    norm_num [small, Scientific.value, Decimal.value, Decimal.size, Decimal.decimals,
      Scientific.power, hwhole, hfraction, hexponent]
  obtain ⟨other, htext, hother, -, -, hplain⟩ := plain_text small hfits
  exact ⟨hfits, other, htext, hother.trans hvalue, hplain⟩

example : plain "-12.50e-3" = "-0.0125" ∧ plain "-0.0e7" = "0" ∧ plain "1.5e3" = "1500" := by
  decide

end Numeral

end KeyedText
