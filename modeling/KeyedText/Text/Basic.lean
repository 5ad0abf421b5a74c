/-!
# Text

Keys, values and whole sources are sequences of characters. This module fixes that representation
and the two operations on it that the whole library shares: dropping outer blanks and comparing
without regard to the case of ASCII letters.

## Main definitions

- `Text` — a sequence of characters
- `Text.isBlank` — the characters that `trim` drops
- `Text.trim` — a text without its outer blanks
- `Text.sameIgnoringAsciiCase` — equality up to the case of ASCII letters
-/

namespace KeyedText

/-- A piece of text as the sequence of its characters. -/
abbrev Text := List Char

instance : Coe String Text := ⟨String.toList⟩

namespace Text

/-- The text as a string. -/
def toString (text : Text) : String :=
  String.ofList text

/-- The number of bytes that the text takes in UTF-8. -/
def byteSize (text : Text) : Nat :=
  (text.map Char.utf8Size).foldr (· + ·) 0

/-- The characters that separate words: the code points with the property White_Space. -/
def isBlank (c : Char) : Bool :=
  let n := c.toNat
  (0x9 ≤ n && n ≤ 0xd) || n == 0x20 || n == 0x85 || n == 0xa0 || n == 0x1680 ||
    (0x2000 ≤ n && n ≤ 0x200a) || n == 0x2028 || n == 0x2029 || n == 0x202f || n == 0x205f ||
    n == 0x3000

/-- The text without the blanks that it starts with. -/
def trimStart (text : Text) : Text :=
  text.dropWhile isBlank

/-- The text without the blanks that it ends with. -/
def trimEnd (text : Text) : Text :=
  (text.reverse.dropWhile isBlank).reverse

/-- The text without its outer blanks. -/
def trim (text : Text) : Text :=
  trimEnd (trimStart text)

/-- A text that holds nothing but blanks, if anything. -/
def allBlank (text : Text) : Bool :=
  text.all isBlank

/-- Adds a character in front of the first piece of a sequence of pieces. -/
def pushFront (c : Char) : List Text → List Text
  | [] => [[c]]
  | piece :: pieces => (c :: piece) :: pieces

/-- The pieces between the occurrences of a separator; there is always one more piece than
separators. -/
def splitOn (separator : Char) : Text → List Text
  | [] => [[]]
  | c :: rest =>
    if c = separator then [] :: splitOn separator rest else pushFront c (splitOn separator rest)

/-- The pieces with a separator between each two neighbours. -/
def join (separator : Text) : List Text → Text
  | [] => []
  | [piece] => piece
  | piece :: pieces => piece ++ separator ++ join separator pieces

/-- A character of the ASCII range. -/
def isAscii (c : Char) : Bool :=
  c.toNat < 0x80

/-- The text with its ASCII capitals made small. -/
def asciiLowercase (text : Text) : Text :=
  text.map Char.toLower

/-- Equality up to the case of ASCII letters. -/
def sameIgnoringAsciiCase (left right : Text) : Bool :=
  asciiLowercase left == asciiLowercase right

/-- A character of the control range: `U+0000` to `U+001F` and `U+007F` to `U+009F`. -/
def isControl (c : Char) : Bool :=
  c.toNat < 0x20 || (0x7f ≤ c.toNat && c.toNat ≤ 0x9f)

/-- An ASCII digit. -/
def isDigit (c : Char) : Bool :=
  '0' ≤ c && c ≤ '9'

/-- The value of an ASCII digit. -/
def digitValue (c : Char) : Nat :=
  c.toNat - '0'.toNat

/-- The value of a run of digits. -/
def digitsValue (digits : Text) : Nat :=
  digits.foldl (fun total c => total * 10 + digitValue c) 0

/-- Whether a code point lies in one of the ranges, each given by its first and last member. -/
def inRanges (ranges : List (Nat × Nat)) (n : Nat) : Bool :=
  ranges.any fun range => range.1 ≤ n && n ≤ range.2

/-- The decimal digits of a natural number. -/
def ofNat (n : Nat) : Text :=
  Nat.toDigits 10 n

/-- An integer in decimal, with a minus sign when it is negative. -/
def ofInt (n : Int) : Text :=
  if n < 0 then '-' :: ofNat n.natAbs else ofNat n.natAbs

/-- The number in decimal, filled up with leading zeros to the given width. -/
def padded (width n : Nat) : Text :=
  let digits := ofNat n
  List.replicate (width - digits.length) '0' ++ digits

end Text

end KeyedText
