import KeyedText.Number.Binary

/-!
# Shortest numerals

A floating number is written with the fewest digits that read back to it, and of those with the
ones nearest to it; of two equally near the even last digit wins. A numeral reads back when it lies
between the two points halfway to the neighbours of the number, the points themselves included when
the significand is even.

## Main definitions

- `Interval` — the numerals that read back to a number
- `Interval.shortest` — the fewest digits in it, nearest to the number
- `Binary.text` — the text of a floating number
-/

namespace KeyedText

/-- The multiples of a unit `num / den` around a number: it equals `mid` units, and the numerals
that read back to it lie from `low` to `high` units, the ends included when `closed` says so. -/
structure Interval where
  low : Nat
  mid : Nat
  high : Nat
  num : Nat
  den : Nat
  closed : Bool
  deriving DecidableEq, Repr

namespace Interval

/-- The interval of a positive number of a format. Below a power of two the neighbour is only half
as far away, unless the exponent is the least one. -/
def of (format : BinaryFormat) (significand : Nat) (exponent : Int) : Interval :=
  let (num, den) := Binary.magnitude 1 (exponent - 2)
  let narrow := significand = 2 ^ (format.precision - 1) ∧ exponent > format.leastExponent
  { low := if narrow then 4 * significand - 1 else 4 * significand - 2
    mid := 4 * significand
    high := 4 * significand + 2
    num
    den
    closed := significand % 2 = 0 }

/-- Whether `digits * 10 ^ power` lies in the interval. -/
def holds (interval : Interval) (digits : Nat) (power : Int) : Bool :=
  let point := digits * interval.den * (if power < 0 then 1 else 10 ^ power.natAbs)
  let scale := interval.num * (if power < 0 then 10 ^ power.natAbs else 1)
  if interval.closed then interval.low * scale ≤ point && point ≤ interval.high * scale
  else interval.low * scale < point && point < interval.high * scale

/-- The number in units of `10 ^ power`, as a quotient. -/
def inPower (interval : Interval) (power : Int) : Nat × Nat :=
  (interval.mid * interval.num * (if power < 0 then 10 ^ power.natAbs else 1),
    interval.den * (if power < 0 then 1 else 10 ^ power.natAbs))

/-- The power of ten of the first digit of the number. The guess from its power of two is off by
one at most. -/
def leadingPower (interval : Interval) : Int :=
  let log := BinaryFormat.quotientLog (interval.mid * interval.num) interval.den
  let guess := (log * 1233).fdiv 4096
  let (num, den) := interval.inPower guess
  if num < den then guess - 1 else if num < 10 * den then guess else guess + 1

/-- The digits that the interval holds at a power of ten: of the two neighbours of the number the
one that reads back, or the nearer one when both do. -/
def digitsAt? (interval : Interval) (power : Int) : Option Nat :=
  let (num, den) := interval.inPower power
  let below := num / den
  let rest := num % den
  let nearer :=
    if 2 * rest < den then below
    else if 2 * rest > den then below + 1
    else if below % 2 = 0 then below else below + 1
  match interval.holds below power, interval.holds (below + 1) power with
  | true, true => some nearer
  | true, false => some below
  | false, true => some (below + 1)
  | false, false => none

/-- The first digits that read back, from a power of ten downwards. -/
def search (interval : Interval) : Nat → Int → Nat × Int
  | 0, power => let (num, den) := interval.inPower power; (num / den, power)
  | tries + 1, power =>
    match interval.digitsAt? power with
    | some digits => (digits, power)
    | none => search interval tries (power - 1)

/-- The fewest digits that read back, with the power of ten of the last one. No format needs more
than twenty. -/
def shortest (interval : Interval) : Nat × Int :=
  interval.search 20 interval.leadingPower

end Interval

/-- Digits in scientific form: one digit, the others behind a point, and the exponent. -/
def Numeral.scientific (digits : Nat) (power : Int) : Text :=
  match Text.ofNat digits with
  | [] => []
  | first :: rest =>
    let fraction := if rest.isEmpty then [] else '.' :: rest
    first :: fraction ++ 'e' :: Text.ofInt (power + rest.length)

/-- The text of a floating number of a format: the shortest numeral that reads back to it, in plain
form. -/
def Binary.text (format : BinaryFormat) : Binary → Text
  | .nan => "NaN"
  | .infinite negative => if negative then "-inf" else "inf"
  | .finite negative significand exponent =>
    if significand = 0 then ['0']
    else
      let (digits, power) := (Interval.of format significand exponent).shortest
      let numeral := Numeral.scientific digits power
      Numeral.plain (if negative then '-' :: numeral else numeral)

end KeyedText
