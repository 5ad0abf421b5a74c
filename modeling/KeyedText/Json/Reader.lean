import KeyedText.Json.Basic

/-!
# Reading JSON

A text is read as one JSON value with blanks around it. Whole numbers of 64 bits are kept exactly;
any other number is worked out in double width from at most as many digits as fit 64 bits, one
rounding after the other. A fault is reported with the line and the column that it was noticed at,
where columns count bytes.

## Main definitions

- `Json.read` — reads a value
- `JsonFault` — what is wrong with a text
- `JsonFailure` — a fault with its place
-/

namespace KeyedText

/-- What is wrong with a JSON text. -/
inductive JsonFault where
  | endInList
  | endInObject
  | endInString
  | endInValue
  | expectedColon
  | expectedListEnd
  | expectedObjectEnd
  | expectedWord
  | expectedValue
  | invalidEscape
  | invalidNumber
  | numberOutOfRange
  | controlCharacter
  | keyNotString
  | loneSurrogate
  | trailingComma
  | trailingText
  | brokenSurrogate
  | tooDeep
  deriving DecidableEq, Repr

/-- The wording of a fault. -/
def JsonFault.message : JsonFault → Text
  | endInList => "EOF while parsing a list"
  | endInObject => "EOF while parsing an object"
  | endInString => "EOF while parsing a string"
  | endInValue => "EOF while parsing a value"
  | expectedColon => "expected `:`"
  | expectedListEnd => "expected `,` or `]`"
  | expectedObjectEnd => "expected `,` or `\x7d`"
  | expectedWord => "expected ident"
  | expectedValue => "expected value"
  | invalidEscape => "invalid escape"
  | invalidNumber => "invalid number"
  | numberOutOfRange => "number out of range"
  | controlCharacter => "control character (\\u0000-\\u001F) found while parsing a string"
  | keyNotString => "key must be a string"
  | loneSurrogate => "lone leading surrogate in hex escape"
  | trailingComma => "trailing comma"
  | trailingText => "trailing characters"
  | brokenSurrogate => "unexpected end of hex escape"
  | tooDeep => "recursion limit exceeded"

/-- A fault in a JSON text with its line and its column. -/
structure JsonFailure where
  fault : JsonFault
  line : Nat
  column : Nat
  deriving DecidableEq, Repr

/-- The wording of a fault with its place. -/
def JsonFailure.message (failure : JsonFailure) : Text :=
  failure.fault.message ++ " at line ".toList ++ Text.ofNat failure.line ++ " column ".toList ++
    Text.ofNat failure.column

namespace Json

/-- A fault with the number of bytes that follow the place where it was noticed. -/
structure Stop where
  fault : JsonFault
  left : Nat
  deriving DecidableEq, Repr

/-- A fault noticed in front of a rest of the text. -/
def stopBefore {α : Type} (fault : JsonFault) (rest : Text) : Except Stop α :=
  .error ⟨fault, Text.byteSize rest⟩

/-- A fault noticed at the first byte of a rest of the text. -/
def stopAt {α : Type} (fault : JsonFault) (rest : Text) : Except Stop α :=
  .error ⟨fault, Text.byteSize rest - 1⟩

/-- The blanks of JSON. -/
def isSpace (c : Char) : Bool :=
  c == ' ' || c == '\n' || c == '\t' || c == '\r'

/-- The text without the blanks that it starts with. -/
def skipSpace (text : Text) : Text :=
  text.dropWhile isSpace

/-- Reads the rest of a word. -/
def readWord : Text → Text → Except Stop Text
  | [], text => .ok text
  | _ :: _, [] => stopBefore .endInValue []
  | expected :: word, c :: rest =>
    if c = expected then readWord word rest else stopAt .expectedWord (c :: rest)

/-! ### Numbers -/

/-- The greatest whole number that the digits of a number are collected up to. -/
def significandLimit : Nat := 2 ^ 64

/-- Reads digits as long as the collected number stays below the limit, and counts them. -/
def collectDigits (collected count : Nat) : Text → Nat × Nat × Text
  | [] => (collected, count, [])
  | c :: rest =>
    let next := collected * 10 + Text.digitValue c
    if Text.isDigit c && next < significandLimit then collectDigits next (count + 1) rest
    else (collected, count, c :: rest)

/-- Whether a text starts with a digit. -/
def startsWithDigit (text : Text) : Bool :=
  match text with
  | [] => false
  | c :: _ => Text.isDigit c

/-- A whole number in double width. -/
def doubleOfNat (n : Nat) : Binary :=
  BinaryFormat.double.roundQuotient false n 1

/-- A floating number with the given sign. -/
def signed (negative : Bool) : Binary → Binary
  | .finite _ significand exponent => .finite negative significand exponent
  | x => x

/-- The number of times that a quotient can be divided by `10 ^ 308` before nothing is left of
it. -/
def scaleSteps : Nat := 3

/-- The number `x * 10 ^ power`, with a rounding after each division by at most `10 ^ 308`; `none`
when it is too great. -/
def scale : Nat → Binary → Int → Option Binary
  | steps, x, power =>
    if power.natAbs ≤ 308 then
      let factor := doubleOfNat (10 ^ power.natAbs)
      if power < 0 then some (BinaryFormat.double.quotient x factor)
      else
        match BinaryFormat.double.product x factor with
        | .infinite _ => none
        | product => some product
    else
      match x with
      | .finite _ 0 _ => some x
      | _ =>
        if power ≥ 0 then none
        else
          match steps with
          | 0 => some (.finite false 0 BinaryFormat.double.leastExponent)
          | steps + 1 =>
            scale steps (BinaryFormat.double.quotient x (doubleOfNat (10 ^ 308))) (power + 308)

/-- The number `significand * 10 ^ power` with a sign. -/
def float (negative : Bool) (significand : Nat) (power : Int) (rest : Text) :
    Except Stop (Json × Text) :=
  match scale scaleSteps (doubleOfNat significand) power with
  | none => stopBefore .numberOutOfRange rest
  | some x => .ok (.binary (signed negative x), rest)

/-- The greatest exponent that is worked out. -/
def exponentLimit : Nat := 2 ^ 31

/-- Reads the digits of an exponent; `none` with the rest behind the digit that makes it too
great. -/
def readExponentDigits (total : Nat) : Text → Option Nat × Text
  | [] => (some total, [])
  | c :: rest =>
    let next := total * 10 + Text.digitValue c
    if !Text.isDigit c then (some total, c :: rest)
    else if next < exponentLimit then readExponentDigits next rest
    else (none, rest)

/-- An exponent kept within the range of 32 bits. -/
def clampExponent (power : Int) : Int :=
  max (-(exponentLimit : Int)) (min power (exponentLimit - 1))

/-- Reads an exponent behind its mark, and with it the number. -/
def readExponent (negative : Bool) (significand : Nat) (power : Int) (text : Text) :
    Except Stop (Json × Text) :=
  let below := text.head? == some '-'
  let digits := if below || text.head? == some '+' then text.drop 1 else text
  match digits with
  | [] => stopBefore .endInValue []
  | c :: rest =>
    if !Text.isDigit c then stopAt .invalidNumber digits
    else
      match readExponentDigits (Text.digitValue c) rest with
      | (some exponent, rest) =>
        float negative significand
          (clampExponent (if below then power - exponent else power + exponent)) rest
      | (none, rest) =>
        if significand ≠ 0 ∧ !below then stopBefore .numberOutOfRange rest
        else float negative 0 0 (rest.dropWhile Text.isDigit)

/-- Reads an exponent if there is one, and with it the number. -/
def readPower (negative : Bool) (significand : Nat) (power : Int) (text : Text) :
    Except Stop (Json × Text) :=
  match text with
  | 'e' :: rest => readExponent negative significand power rest
  | 'E' :: rest => readExponent negative significand power rest
  | rest => float negative significand power rest

/-- Reads the digits behind the point. Those that the collected number has no room for are
dropped. -/
def readFraction (negative : Bool) (significand : Nat) (power : Int) (text : Text) :
    Except Stop (Json × Text) :=
  let (collected, count, rest) := collectDigits significand 0 text
  if startsWithDigit rest then
    readPower negative collected (power - count) (rest.dropWhile Text.isDigit)
  else if count = 0 then
    if rest.isEmpty then stopBefore .endInValue [] else stopAt .invalidNumber rest
  else readPower negative collected (power - count) rest

/-- A whole number, which is kept exactly when it has 64 bits and is no zero below zero. -/
def whole (negative : Bool) (significand : Nat) : Json :=
  if !negative then .integer significand
  else if significand = 0 ∨ significand > 2 ^ 63 then
    .binary (signed true (doubleOfNat significand))
  else .integer (-(significand : Int))

/-- Reads what follows the digits in front of the point. Digits that the collected number has no
room for only count. -/
def readAfterDigits (negative : Bool) (significand : Nat) (text : Text) :
    Except Stop (Json × Text) :=
  let dropped := text.takeWhile Text.isDigit
  match text.dropWhile Text.isDigit with
  | '.' :: rest => readFraction negative significand dropped.length rest
  | rest =>
    if dropped.isEmpty && !(rest.head? == some 'e' || rest.head? == some 'E') then
      .ok (whole negative significand, rest)
    else readPower negative significand dropped.length rest

/-- Reads a number behind its sign. A zero is not followed by another digit. -/
def readNumber (negative : Bool) (text : Text) : Except Stop (Json × Text) :=
  match text with
  | [] => stopBefore .endInValue []
  | '0' :: rest =>
    if startsWithDigit rest then stopAt .invalidNumber rest
    else readAfterDigits negative 0 rest
  | c :: _ =>
    if Text.isDigit c then
      let (significand, _, rest) := collectDigits 0 0 text
      readAfterDigits negative significand rest
    else stopAt .invalidNumber text

/-! ### Strings -/

/-- The value of a digit in base sixteen. -/
def hexValue? (c : Char) : Option Nat :=
  if Text.isDigit c then some (Text.digitValue c)
  else if 'a' ≤ c ∧ c ≤ 'f' then some (c.toNat - 'a'.toNat + 10)
  else if 'A' ≤ c ∧ c ≤ 'F' then some (c.toNat - 'A'.toNat + 10)
  else none

/-- The value of four digits in base sixteen at the front of a text, with the rest. -/
def hexFour? : Text → Option (Nat × Text)
  | a :: b :: c :: d :: rest =>
    match hexValue? a, hexValue? b, hexValue? c, hexValue? d with
    | some a, some b, some c, some d => some (((a * 16 + b) * 16 + c) * 16 + d, rest)
    | _, _, _, _ => none
  | _ => none

/-- Reads four digits in base sixteen. -/
def readHexFour (text : Text) : Except Stop (Nat × Text) :=
  match hexFour? text with
  | some read => .ok read
  | none =>
    let size := Text.byteSize text
    if size < 4 then .error ⟨.endInString, 0⟩ else .error ⟨.invalidEscape, size - 4⟩

/-- A unit of UTF-16 that starts a pair. -/
def isLeading (unit : Nat) : Bool :=
  0xd800 ≤ unit && unit ≤ 0xdbff

/-- A unit of UTF-16 that ends a pair. -/
def isTrailing (unit : Nat) : Bool :=
  0xdc00 ≤ unit && unit ≤ 0xdfff

/-- Reads the second unit of a pair, behind the first one. -/
def readPair (leading : Nat) (text : Text) : Except Stop (Char × Text) :=
  match text with
  | [] => stopBefore .endInString []
  | '\\' :: [] => stopBefore .endInString []
  | '\\' :: 'u' :: rest => do
    let (trailing, rest) ← readHexFour rest
    if isTrailing trailing then
      .ok (Char.ofNat (0x10000 + (leading - 0xd800) * 0x400 + (trailing - 0xdc00)), rest)
    else stopBefore .loneSurrogate rest
  | '\\' :: rest => stopAt .brokenSurrogate rest
  | text => stopAt .brokenSurrogate text

/-- Reads the units of an escape `\u`, behind these two characters. -/
def readUnits (text : Text) : Except Stop (Char × Text) := do
  let (unit, rest) ← readHexFour text
  if isTrailing unit then stopBefore .loneSurrogate rest
  else if isLeading unit then readPair unit rest
  else .ok (Char.ofNat unit, rest)

/-- The character that a short escape stands for. -/
def shortEscape? (c : Char) : Option Char :=
  match c with
  | '"' => some '"'
  | '\\' => some '\\'
  | '/' => some '/'
  | 'b' => some '\x08'
  | 'f' => some '\x0c'
  | 'n' => some '\n'
  | 'r' => some '\r'
  | 't' => some '\t'
  | _ => none

/-- Reads an escape behind its backslash. -/
def readEscape (text : Text) : Except Stop (Char × Text) :=
  match text with
  | [] => stopBefore .endInString []
  | 'u' :: rest => readUnits rest
  | c :: rest =>
    match shortEscape? c with
    | some c => .ok (c, rest)
    | none => stopAt .invalidEscape text

/-- Reads a string behind its opening quotation mark. The characters read so far are given with the
last one first. -/
def readString : Nat → Text → Text → Except Stop (Text × Text)
  | 0, _, text => stopBefore .endInString text
  | fuel + 1, found, text =>
    match text with
    | [] => stopBefore .endInString []
    | '"' :: rest => .ok (found.reverse, rest)
    | '\\' :: rest => do
      let (c, rest) ← readEscape rest
      readString fuel (c :: found) rest
    | c :: rest =>
      if c.toNat < 0x20 then stopAt .controlCharacter text
      else readString fuel (c :: found) rest

/-- Reads the name of a member behind its opening quotation mark, and the colon after it. -/
def readName (fuel : Nat) (text : Text) : Except Stop (Text × Text) := do
  let (name, rest) ← readString fuel [] text
  match skipSpace rest with
  | [] => stopBefore .endInObject []
  | ':' :: rest => .ok (name, rest)
  | rest => stopAt .expectedColon rest

/-! ### Values -/

/-- How many arrays and objects may lie inside one another. -/
def depthLimit : Nat := 127

mutual

/-- Reads a value that may hold the given number of levels. -/
def readValue : Nat → Nat → Text → Except Stop (Json × Text)
  | 0, _, text => stopBefore .endInValue text
  | fuel + 1, depth, text =>
    match skipSpace text with
    | [] => stopBefore .endInValue []
    | 'n' :: rest => (readWord ['u', 'l', 'l'] rest).map fun rest => (.null, rest)
    | 't' :: rest => (readWord ['r', 'u', 'e'] rest).map fun rest => (.bool true, rest)
    | 'f' :: rest => (readWord ['a', 'l', 's', 'e'] rest).map fun rest => (.bool false, rest)
    | '-' :: rest => readNumber true rest
    | '"' :: rest =>
      (readString fuel [] rest).map fun (text, rest) => (.string text, rest)
    | '[' :: rest =>
      match depth with
      | 0 => stopAt .tooDeep ('[' :: rest)
      | depth + 1 =>
        match skipSpace rest with
        | [] => stopBefore .endInList []
        | ']' :: rest => .ok (.array [], rest)
        | rest => (readItems fuel depth rest).map fun (items, rest) => (.array items, rest)
    | '\x7b' :: rest =>
      match depth with
      | 0 => stopAt .tooDeep ('\x7b' :: rest)
      | depth + 1 =>
        match skipSpace rest with
        | [] => stopBefore .endInObject []
        | '\x7d' :: rest => .ok (.object [], rest)
        | '"' :: rest =>
          (readEntries fuel depth rest).map fun (entries, rest) => (.object entries, rest)
        | rest => stopAt .keyNotString rest
    | c :: rest =>
      if Text.isDigit c then readNumber false (c :: rest)
      else stopAt .expectedValue (c :: rest)

/-- Reads the items of an array from its first one on, and its closing bracket. -/
def readItems : Nat → Nat → Text → Except Stop (List Json × Text)
  | 0, _, text => stopBefore .endInList text
  | fuel + 1, depth, text => do
    let (item, rest) ← readValue fuel depth text
    match skipSpace rest with
    | [] => stopBefore .endInList []
    | ']' :: rest => .ok ([item], rest)
    | ',' :: rest =>
      match skipSpace rest with
      | [] => stopBefore .endInValue []
      | ']' :: rest => stopAt .trailingComma (']' :: rest)
      | rest => (readItems fuel depth rest).map fun (items, rest) => (item :: items, rest)
    | rest => stopAt .expectedListEnd rest

/-- Reads the members of an object behind the quotation mark of its first name, and its closing
brace. -/
def readEntries : Nat → Nat → Text → Except Stop (List (Text × Json) × Text)
  | 0, _, text => stopBefore .endInObject text
  | fuel + 1, depth, text => do
    let (name, rest) ← readName fuel text
    let (value, rest) ← readValue fuel depth rest
    match skipSpace rest with
    | [] => stopBefore .endInObject []
    | '\x7d' :: rest => .ok ([(name, value)], rest)
    | ',' :: rest =>
      match skipSpace rest with
      | [] => stopBefore .endInValue []
      | '"' :: rest =>
        (readEntries fuel depth rest).map fun (entries, rest) => ((name, value) :: entries, rest)
      | '\x7d' :: rest => stopAt .trailingComma ('\x7d' :: rest)
      | rest => stopAt .keyNotString rest
    | rest => stopAt .expectedObjectEnd rest

end

/-- The line and the column of a byte, in a text that starts at the given place. -/
def placeOf (line column : Nat) : Nat → Text → Nat × Nat
  | _, [] => (line, column)
  | offset, c :: rest =>
    let size := c.utf8Size
    if offset < size then (line, column + offset)
    else if c = '\n' then placeOf (line + 1) 0 (offset - size) rest
    else placeOf line (column + size) (offset - size) rest

/-- A fault with its place in the text. -/
def Stop.toFailure (stop : Stop) (text : Text) : JsonFailure :=
  let (line, column) := placeOf 1 0 (Text.byteSize text - stop.left) text
  ⟨stop.fault, line, column⟩

/-- Reads a value and makes sure that nothing but blanks follows it. -/
def readWhole (text : Text) : Except Stop Json := do
  let (value, rest) ← readValue (2 * text.length + 2) depthLimit text
  match skipSpace rest with
  | [] => .ok value
  | rest => stopAt .trailingText rest

/-- Reads a text as one value. Names that occur again in an object count once. -/
def read (text : Text) : Except JsonFailure Json :=
  match readWhole text with
  | .ok value => .ok value.merged
  | .error stop => .error (stop.toFailure text)

end Json

end KeyedText
