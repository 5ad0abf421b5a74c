import KeyedText.Number.Integer

/-!
# Plain numerals

Numbers are written without an exponent. A numeral in scientific form is turned into a plain one by
moving its point and filling up with zeros; zeros that end a fraction are dropped, and zero has no
sign.

## Main definitions

- `Numeral.plain` — the plain form of a numeral
-/

namespace KeyedText.Numeral

open Text (isDigit)

/-- A character that divides the digits of a numeral from its exponent. -/
def isExponentMark (c : Char) : Bool :=
  c == 'e' || c == 'E'

/-- The text without the zeros that it ends with. -/
def dropTrailingZeros (text : Text) : Text :=
  (text.reverse.dropWhile (· == '0')).reverse

/-- The text without the point that it ends with, if it does. -/
def dropPoint (text : Text) : Text :=
  if text.getLast? = some '.' then text.dropLast else text

/-- The numeral without the zeros that end its fraction, and without a bare point. -/
def trimFraction (numeral : Text) : Text :=
  match numeral.dropWhile (· ≠ '.') with
  | [] => numeral
  | _ :: fraction =>
    dropPoint (numeral.takeWhile (· ≠ '.') ++ '.' :: dropTrailingZeros fraction)

/-- Whether a numeral denotes zero: besides its sign it has only zeros and points. -/
def isZero (numeral : Text) : Bool :=
  (numeral.dropWhile (· == '-')).all fun c => c == '0' || c == '.'

/-- The numeral in its final form: no zeros at the end of a fraction, and `0` for every zero. -/
def tidy (numeral : Text) : Text :=
  let trimmed := trimFraction numeral
  if isZero trimmed then ['0'] else trimmed

/-- The digits with the point after the given number of them, where zeros fill the places that the
digits do not reach. -/
def place (digits : Text) (point : Int) : Text :=
  if point ≤ 0 then ['0', '.'] ++ List.replicate point.natAbs '0' ++ digits
  else
    let whole := point.toNat
    if digits.length ≤ whole then digits ++ List.replicate (whole - digits.length) '0'
    else digits.take whole ++ '.' :: digits.drop whole

/-- The kind of exponents. An exponent that is none of them counts as zero. -/
def exponentKind : IntegerKind := .signed 32

/-- The value of an exponent as it is written. -/
def exponent (text : Text) : Int :=
  match exponentKind.read text with
  | .ok n => n
  | .error _ => 0

/-- What stands in front of the last point of a mantissa: all of it when it has no point. -/
def front (mantissa : Text) : Text :=
  match mantissa.reverse.dropWhile (· ≠ '.') with
  | [] => mantissa
  | _ :: before => before.reverse

/-- A numeral with its exponent carried out. -/
def expand (numeral : Text) : Text :=
  let mantissa := numeral.takeWhile fun c => !isExponentMark c
  let power := exponent ((numeral.dropWhile fun c => !isExponentMark c).drop 1)
  let negative := mantissa.head? == some '-'
  let digits := mantissa.filter isDigit
  let point := ((front mantissa).filter isDigit).length
  let placed := place digits (point + power)
  tidy (if negative then '-' :: placed else placed)

/-- The plain form of a numeral: without an exponent, without zeros at the end of a fraction, and
with `0` for every zero. -/
def plain (numeral : Text) : Text :=
  if numeral.any isExponentMark then expand numeral else tidy numeral

end KeyedText.Numeral
