import KeyedText.Number.Plain

/-!
# Binary numbers

A floating number is not a number, an infinity, or a sign with a whole significand times a power of
two. A format bounds the significand and the exponent; every exact quotient is rounded to the
nearest number of a format, a tie going to the even significand.

## Main definitions

- `Binary` — a floating number
- `BinaryFormat` — the single and the double format
- `BinaryFormat.roundQuotient` — the number of a format that is nearest to a quotient
- `Binary.read` — reads a decimal numeral
-/

namespace KeyedText

/-- A floating number. The finite ones are `significand * 2 ^ exponent` with a sign. -/
inductive Binary where
  | nan
  | infinite (negative : Bool)
  | finite (negative : Bool) (significand : Nat) (exponent : Int)
  deriving DecidableEq, Repr, Inhabited

/-- The shape of a binary format: the bits of its significand, and the least and the greatest
exponent of its unit in the last place. -/
structure BinaryFormat where
  precision : Nat
  leastExponent : Int
  greatestExponent : Int
  deriving DecidableEq, Repr

/-- The quotient that equals `significand * 2 ^ exponent`. -/
def Binary.magnitude (significand : Nat) (exponent : Int) : Nat × Nat :=
  if exponent < 0 then (significand, 2 ^ exponent.natAbs)
  else (significand * 2 ^ exponent.natAbs, 1)

namespace BinaryFormat

open Binary (magnitude)

/-- The format of 32 bits. -/
def single : BinaryFormat := ⟨24, -149, 104⟩

/-- The format of 64 bits. -/
def double : BinaryFormat := ⟨53, -1074, 971⟩

/-- The quotient `num / den` in units of `2 ^ exponent`, rounded to a whole number with ties to
even. -/
def roundUnits (num den : Nat) (exponent : Int) : Nat :=
  let num := if exponent < 0 then num * 2 ^ exponent.natAbs else num
  let den := if exponent < 0 then den else den * 2 ^ exponent.natAbs
  let quotient := num / den
  let rest := num % den
  if 2 * rest < den then quotient
  else if 2 * rest > den then quotient + 1
  else if quotient % 2 = 0 then quotient else quotient + 1

/-- The exponent of the greatest power of two that is not above a positive quotient. -/
def quotientLog (num den : Nat) : Int :=
  let guess : Int := (num.log2 : Int) - den.log2
  let reached :=
    if guess < 0 then den ≤ num * 2 ^ guess.natAbs else den * 2 ^ guess.natAbs ≤ num
  if reached then guess else guess - 1

/-- The number of the format that is nearest to the quotient `num / den`. -/
def roundQuotient (format : BinaryFormat) (negative : Bool) (num den : Nat) : Binary :=
  if num = 0 then .finite negative 0 format.leastExponent
  else
    let exponent := max (quotientLog num den - (format.precision - 1 : Nat)) format.leastExponent
    let units := roundUnits num den exponent
    let carried := units = 2 ^ format.precision
    let units := if carried then units / 2 else units
    let exponent := if carried then exponent + 1 else exponent
    if exponent > format.greatestExponent then .infinite negative
    else .finite negative units exponent

/-- The number of the format that is nearest to `digits * 10 ^ power`. Powers far outside the
format are decided without being worked out. -/
def roundDecimal (format : BinaryFormat) (negative : Bool) (digits : Nat) (power : Int) : Binary :=
  let size : Int := (Nat.toDigits 10 digits).length
  if digits = 0 then .finite negative 0 format.leastExponent
  else if power + size > 400 then .infinite negative
  else if power + size < -400 then .finite negative 0 format.leastExponent
  else if power < 0 then format.roundQuotient negative digits (10 ^ power.natAbs)
  else format.roundQuotient negative (digits * 10 ^ power.natAbs) 1

/-- The number of the format that is nearest to a given one. -/
def convert (format : BinaryFormat) : Binary → Binary
  | .nan => .nan
  | .infinite negative => .infinite negative
  | .finite negative significand exponent =>
    let (num, den) := magnitude significand exponent
    format.roundQuotient negative num den

/-- The product of two finite numbers, rounded to the format; anything else passes through. -/
def product (format : BinaryFormat) : Binary → Binary → Binary
  | .finite leftNegative left leftExponent, .finite rightNegative right rightExponent =>
    let (num, den) := magnitude (left * right) (leftExponent + rightExponent)
    format.roundQuotient (leftNegative != rightNegative) num den
  | left, _ => left

/-- The quotient of two finite numbers, rounded to the format; anything else passes through. -/
def quotient (format : BinaryFormat) : Binary → Binary → Binary
  | .finite leftNegative left leftExponent, .finite rightNegative right rightExponent =>
    let (num, den) := magnitude left (leftExponent - rightExponent)
    format.roundQuotient (leftNegative != rightNegative) num (den * right)
  | left, _ => left

/-- The number that a pattern of bits stands for: a sign, the exponent with its offset and the
fraction. -/
def ofBits (format : BinaryFormat) (bits : Nat) : Binary :=
  let fractionBits := format.precision - 1
  let exponentBits := if format.precision = 24 then 8 else 11
  let fraction := bits % 2 ^ fractionBits
  let biased := bits / 2 ^ fractionBits % 2 ^ exponentBits
  let negative := bits / 2 ^ (fractionBits + exponentBits) % 2 = 1
  if biased = 2 ^ exponentBits - 1 then
    if fraction = 0 then .infinite negative else .nan
  else if biased = 0 then .finite negative fraction format.leastExponent
  else .finite negative (fraction + 2 ^ fractionBits) (format.leastExponent + biased - 1)

end BinaryFormat

/-- Why a text is no floating number. -/
inductive BinaryFault where
  | empty
  | invalid
  deriving DecidableEq, Repr

namespace Binary

/-- The value of the digits of an exponent, which stops growing beyond four digits. -/
def exponentValue (digits : Text) : Nat :=
  digits.foldl
    (fun total c => if total < 0x10000 then total * 10 + Text.digitValue c else total) 0

/-- The exponent behind its mark: a sign and at least one digit, with nothing after them. -/
def readExponent? (text : Text) : Option Int :=
  let negative := text.head? == some '-'
  let digits := if negative || text.head? == some '+' then text.drop 1 else text
  if digits.isEmpty || !digits.all Text.isDigit then none
  else some (if negative then -(exponentValue digits : Int) else exponentValue digits)

/-- The digits and the power of ten of an unsigned numeral such as `1`, `.5`, `5.` or `1.5e-3`. -/
def readNumeral? (text : Text) : Option (Nat × Int) :=
  let whole := text.takeWhile Text.isDigit
  let rest := text.dropWhile Text.isDigit
  let pointed := rest.head? == some '.'
  let fraction := if pointed then (rest.drop 1).takeWhile Text.isDigit else []
  let rest := if pointed then (rest.drop 1).dropWhile Text.isDigit else rest
  if whole.isEmpty && fraction.isEmpty then none
  else
    let digits := Text.digitsValue (whole ++ fraction)
    match rest with
    | [] => some (digits, -(fraction.length : Int))
    | mark :: rest =>
      if Numeral.isExponentMark mark then
        (readExponent? rest).map fun power => (digits, power - fraction.length)
      else none

/-- Reads a number of a format: a sign, then a numeral or one of the words `nan`, `inf` and
`infinity` in any case. -/
def read (format : BinaryFormat) (text : Text) : Except BinaryFault Binary :=
  if text.isEmpty then .error .empty
  else
    let negative := text.head? == some '-'
    let body := if negative || text.head? == some '+' then text.drop 1 else text
    if Text.sameIgnoringAsciiCase body "nan" then .ok .nan
    else if Text.sameIgnoringAsciiCase body "inf" || Text.sameIgnoringAsciiCase body "infinity" then
      .ok (.infinite negative)
    else
      match readNumeral? body with
      | none => .error .invalid
      | some (digits, power) => .ok (format.roundDecimal negative digits power)

end Binary

end KeyedText
