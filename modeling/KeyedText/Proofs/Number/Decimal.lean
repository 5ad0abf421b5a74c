import KeyedText.Number.Integer
import KeyedText.Proofs.Text.Trim

/-!
# Decimal numbers

An integer in decimal is read as itself by every kind that holds it, and so is a list position. A
position may also be written with a plus sign and with zeros in front.

## Main definitions

- `Text.NamesPosition` — the texts of list positions

## Main statements

- `IntegerKind.read_ofInt` — an integer reads back
- `readPosition?_ofNat` — a position reads back
- `readPosition?_eq_some_iff` — the texts that are read as positions
-/

namespace KeyedText

namespace Text

variable {c : Char} {n : Nat}

/-- The value of digits that follow those of a total. -/
def digitsValueFrom (total : Nat) (digits : Text) : Nat :=
  digits.foldl (fun total c => total * 10 + digitValue c) total

theorem isDigit_iff : isDigit c = true ↔ '0' ≤ c ∧ c ≤ '9' := by
  simp [isDigit]

theorem isDigit_of_mem_ofNat (h : c ∈ ofNat n) : isDigit c = true := by
  have hdigit := Nat.isDigit_of_mem_toDigits (by decide) (by decide) h
  simpa [Char.isDigit, isDigit, Char.le_def] using hdigit

theorem ofNat_ne_nil (n : Nat) : ofNat n ≠ [] :=
  Nat.toDigits_ne_nil

theorem digitsValueFrom_ofNat (n : Nat) : digitsValueFrom 0 (ofNat n) = n := by
  have hvalue : Nat.ofDigitChars 10 (ofNat n) 0 = n :=
    Nat.ofDigitChars_toDigits (by decide) (by decide)
  rw [Nat.ofDigitChars_eq_foldl] at hvalue
  simpa only [digitsValueFrom, digitValue, Nat.mul_comm] using hvalue

/-- More digits make no number smaller. -/
theorem le_digitsValueFrom (total : Nat) (digits : Text) :
    total ≤ digitsValueFrom total digits := by
  induction digits generalizing total with
  | nil => exact Nat.le_refl _
  | cons c digits ih =>
    have hrest := ih (total * 10 + digitValue c)
    rw [digitsValueFrom, List.foldl_cons, ← digitsValueFrom]
    omega

theorem isBlank_of_isDigit (h : isDigit c = true) : isBlank c = false := by
  obtain ⟨hlow, hhigh⟩ := isDigit_iff.1 h
  have hlow' : 48 ≤ c.toNat := hlow
  have hhigh' : c.toNat ≤ 57 := hhigh
  simp only [isBlank, Bool.or_eq_false_iff, Bool.and_eq_false_iff, beq_eq_false_iff_ne,
    decide_eq_false_iff_not]
  omega

theorem ofInt_cases (n : Int) :
    n < 0 ∧ ofInt n = '-' :: ofNat n.natAbs ∨ 0 ≤ n ∧ ofInt n = ofNat n.natAbs := by
  rw [ofInt]
  split
  · next h => exact .inl ⟨h, rfl⟩
  · next h => exact .inr ⟨by omega, rfl⟩

theorem mem_ofInt {n : Int} (h : c ∈ ofInt n) : c = '-' ∨ isDigit c = true := by
  rcases ofInt_cases n with ⟨-, heq⟩ | ⟨-, heq⟩
  · rw [heq, List.mem_cons] at h
    exact h.imp_right isDigit_of_mem_ofNat
  · rw [heq] at h
    exact .inr (isDigit_of_mem_ofNat h)

theorem not_isBlank_of_mem_ofInt {n : Int} (h : c ∈ ofInt n) : isBlank c = false := by
  rcases mem_ofInt h with rfl | hdigit
  · decide
  · exact isBlank_of_isDigit hdigit

theorem trim_ofInt (n : Int) : trim (ofInt n) = ofInt n :=
  trim_eq_self_of_no_blank fun _ => not_isBlank_of_mem_ofInt

theorem trim_ofNat (n : Nat) : trim (ofNat n) = ofNat n :=
  trim_eq_self_of_no_blank fun _ hc => isBlank_of_isDigit (isDigit_of_mem_ofNat hc)

/-- A text names a position: digits, perhaps behind a plus sign, with a value of 64 bits. -/
def NamesPosition (text : Text) (n : Nat) : Prop :=
  ∃ digits, (text = digits ∨ text = '+' :: digits) ∧ digits ≠ [] ∧
    (∀ c ∈ digits, isDigit c = true) ∧ digitsValue digits = n ∧ n < 2 ^ 64

end Text

namespace IntegerKind

variable {kind : IntegerKind} {digits : Text}

theorem holds_iff {n : Int} : kind.holds n = true ↔ kind.least ≤ n ∧ n ≤ kind.greatest := by
  rw [holds, Bool.and_eq_true, decide_eq_true_eq, decide_eq_true_eq]

/-- Digits read upwards as their value, if it is not too great. -/
theorem readUp_digits (greatest : Int) (total : Nat) (hdigits : ∀ c ∈ digits, Text.isDigit c = true)
    (hle : (Text.digitsValueFrom total digits : Int) ≤ greatest) :
    readUp greatest total digits = .ok (Text.digitsValueFrom total digits : Int) := by
  induction digits generalizing total with
  | nil => rfl
  | cons c digits ih =>
    have hvalue : Text.digitsValueFrom total (c :: digits) =
        Text.digitsValueFrom (total * 10 + Text.digitValue c) digits := rfl
    rw [hvalue] at hle ⊢
    -- the total so far is within the bound, since the digits to come make it no smaller
    have hnext := Text.le_digitsValueFrom (total * 10 + Text.digitValue c) digits
    have hcast : (total : Int) * 10 + (Text.digitValue c : Int) =
        ((total * 10 + Text.digitValue c : Nat) : Int) := by push_cast; rfl
    rw [readUp, hdigits c (by simp), hcast, if_neg (by simp), if_pos (by omega)]
    exact ih _ (fun other hother => hdigits other (by simp [hother])) hle

/-- Only digits read upwards, and as nothing but their value. -/
theorem readUp_eq_ok_iff {greatest m : Int} {total : Nat} (htotal : (total : Int) ≤ greatest) :
    readUp greatest total digits = .ok m ↔ (∀ c ∈ digits, Text.isDigit c = true) ∧
      (Text.digitsValueFrom total digits : Int) = m ∧ m ≤ greatest := by
  constructor
  · intro h
    induction digits generalizing total with
    | nil =>
      obtain rfl := Except.ok.inj h
      exact ⟨by simp, rfl, htotal⟩
    | cons c digits ih =>
      have hcast : (total : Int) * 10 + (Text.digitValue c : Int) =
          ((total * 10 + Text.digitValue c : Nat) : Int) := by push_cast; rfl
      rw [readUp, hcast] at h
      split at h
      · exact absurd h (by simp)
      · next hdigit =>
        split at h
        · next hnext =>
          obtain ⟨hdigits, hvalue, hle⟩ := ih hnext h
          exact ⟨List.forall_mem_cons.2 ⟨by simpa using hdigit, hdigits⟩, hvalue, hle⟩
        · exact absurd h (by simp)
  · rintro ⟨hdigits, rfl, hle⟩
    exact readUp_digits greatest total hdigits hle

/-- Digits read downwards as the opposite of their value, if it is not too small. -/
theorem readDown_digits (least : Int) (total : Nat)
    (hdigits : ∀ c ∈ digits, Text.isDigit c = true)
    (hle : least ≤ -(Text.digitsValueFrom total digits : Int)) :
    readDown least (-(total : Int)) digits = .ok (-(Text.digitsValueFrom total digits : Int)) := by
  induction digits generalizing total with
  | nil => rfl
  | cons c digits ih =>
    have hvalue : Text.digitsValueFrom total (c :: digits) =
        Text.digitsValueFrom (total * 10 + Text.digitValue c) digits := rfl
    rw [hvalue] at hle ⊢
    have hnext := Text.le_digitsValueFrom (total * 10 + Text.digitValue c) digits
    have hcast : -(total : Int) * 10 - (Text.digitValue c : Int) =
        -((total * 10 + Text.digitValue c : Nat) : Int) := by push_cast; omega
    rw [readDown, hdigits c (by simp), hcast, if_neg (by simp), if_pos (by omega)]
    exact ih _ (fun other hother => hdigits other (by simp [hother])) hle

theorem isSigned_of_holds {n : Int} (h : kind.holds n = true) (hneg : n < 0) :
    kind.isSigned = true := by
  cases kind with
  | signed bits => rfl
  | unsigned bits =>
    have hlow : (0 : Int) ≤ n := (holds_iff.1 h).1
    omega

theorem read_of_digits (hne : digits ≠ []) (hdigits : ∀ c ∈ digits, Text.isDigit c = true) :
    kind.read digits = readUp kind.greatest 0 digits := by
  obtain ⟨c, rest, rfl⟩ := List.exists_cons_of_ne_nil hne
  have hplus : c ≠ '+' := by
    rintro rfl
    exact absurd (hdigits '+' (by simp)) (by decide)
  have hminus : c ≠ '-' := by
    rintro rfl
    exact absurd (hdigits '-' (by simp)) (by decide)
  rw [read] <;> simp [hplus, hminus]

theorem read_minus_digits (hne : digits ≠ []) (hsigned : kind.isSigned = true) :
    kind.read ('-' :: digits) = readDown kind.least 0 digits := by
  obtain ⟨c, rest, rfl⟩ := List.exists_cons_of_ne_nil hne
  simp [read, hsigned]

/-- **An integer reads back** in every kind that holds it. -/
theorem read_ofInt {n : Int} (h : kind.holds n = true) : kind.read (Text.ofInt n) = .ok n := by
  have hvalue := Text.digitsValueFrom_ofNat n.natAbs
  have hdigits : ∀ c ∈ Text.ofNat n.natAbs, Text.isDigit c = true :=
    fun c => Text.isDigit_of_mem_ofNat
  obtain ⟨hlow, hhigh⟩ := holds_iff.1 h
  rcases Text.ofInt_cases n with ⟨hneg, heq⟩ | ⟨hpos, heq⟩
  · have hdown := readDown_digits kind.least 0 hdigits (by omega)
    rw [heq, read_minus_digits (Text.ofNat_ne_nil _) (isSigned_of_holds h hneg)]
    rw [hvalue] at hdown
    refine hdown.trans (congrArg _ ?_)
    omega
  · have hup := readUp_digits kind.greatest 0 hdigits (by omega)
    rw [heq, read_of_digits (Text.ofNat_ne_nil _) hdigits]
    rw [hvalue] at hup
    refine hup.trans (congrArg _ ?_)
    omega

end IntegerKind

theorem readPosition?_ofNat {n : Nat} (h : n < 2 ^ 64) : readPosition? (Text.ofNat n) = some n := by
  have hholds : IntegerKind.position.holds n = true := by
    refine IntegerKind.holds_iff.2 ⟨Int.natCast_nonneg n, ?_⟩
    rw [IntegerKind.position, IntegerKind.greatest]
    omega
  have hread := IntegerKind.read_ofInt hholds
  have htext : Text.ofInt n = Text.ofNat n := by
    rw [Text.ofInt, if_neg (by omega), Int.natAbs_natCast]
  rw [htext] at hread
  rw [readPosition?, hread]
  rfl

theorem IntegerKind.read_position_of_ok {text : Text} {m : Int}
    (h : IntegerKind.position.read text = .ok m) : ∃ digits,
      (text = digits ∨ text = '+' :: digits) ∧ digits ≠ [] ∧
        readUp IntegerKind.position.greatest 0 digits = .ok m := by
  unfold IntegerKind.read at h
  split at h
  · exact absurd h (by simp)
  · exact absurd h (by simp)
  · exact absurd h (by simp)
  · next digits hne => exact ⟨digits, .inr rfl, hne, h⟩
  · exact absurd h (by simp [isSigned, position])
  · next hne _ _ _ _ => exact ⟨text, .inl rfl, hne, h⟩

/-- **A position is read** from digits, perhaps behind a plus sign, and from nothing else. -/
theorem readPosition?_eq_some_iff {text : Text} {n : Nat} :
    readPosition? text = some n ↔ text.NamesPosition n := by
  have hgreatest : IntegerKind.position.greatest = 2 ^ 64 - 1 := by decide
  have hup : ∀ digits (m : Int), IntegerKind.readUp IntegerKind.position.greatest 0 digits = .ok m ↔
      (∀ c ∈ digits, Text.isDigit c = true) ∧ (Text.digitsValue digits : Int) = m ∧
        m ≤ IntegerKind.position.greatest := by
    intro digits m
    have hzero : ((0 : Nat) : Int) ≤ IntegerKind.position.greatest := by decide
    exact IntegerKind.readUp_eq_ok_iff hzero
  constructor
  · intro h
    rw [readPosition?] at h
    split at h
    · next m hread =>
      obtain ⟨digits, htext, hne, hdigits⟩ := IntegerKind.read_position_of_ok hread
      obtain ⟨hdigits, hvalue, hle⟩ := (hup digits m).1 hdigits
      obtain rfl := Option.some.inj h
      exact ⟨digits, htext, hne, hdigits, by omega, by omega⟩
    · exact absurd h (by simp)
  · rintro ⟨digits, htext, hne, hdigits, rfl, hlt⟩
    have hread : IntegerKind.readUp IntegerKind.position.greatest 0 digits =
        .ok (Text.digitsValue digits : Int) := (hup digits _).2 ⟨hdigits, rfl, by omega⟩
    have hposition : IntegerKind.position.read text = .ok (Text.digitsValue digits : Int) := by
      rcases htext with rfl | rfl
      · rw [IntegerKind.read_of_digits hne hdigits, hread]
      · obtain ⟨c, rest, rfl⟩ := List.exists_cons_of_ne_nil hne
        rw [IntegerKind.read, hread]
        simp
    rw [readPosition?, hposition]
    rfl

example : readPosition? "+01" = some 1 ∧ readPosition? "18446744073709551616" = none := by decide

end KeyedText
