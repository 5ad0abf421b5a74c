import KeyedText.Calendar.Moment
import KeyedText.Number.Integer

/-!
# Reading dates and times

Dates, times and moments are read from left to right; the first part that does not fit decides the
fault. Plain dates and times allow blanks between their parts and short numbers; a moment with an
offset has a fixed layout.

## Main definitions

- `CalendarFault` — why a text is no date or time
- `Date.read`, `TimeOfDay.read` — a date, a time
- `Moment.readLocal` — a date and a time without an offset
- `Moment.readStamp` — a date and a time with an offset
-/

namespace KeyedText

/-- Why a text is no date or time. -/
inductive CalendarFault where
  | invalid
  | tooShort
  | trailing
  | outOfRange
  deriving DecidableEq, Repr

namespace Calendar

open Text (isDigit digitsValue)

/-- The greatest number that a run of digits may reach. -/
def greatestNumber : Nat := 2 ^ 63 - 1

/-- A number of one digit up to a given count of them, or of any length without a count. -/
def number (limit : Option Nat) (text : Text) : Except CalendarFault (Nat × Text) :=
  match text with
  | [] => .error .tooShort
  | _ =>
    let window := match limit with
      | some count => text.take count
      | none => text
    let digits := window.takeWhile isDigit
    if digits.isEmpty then .error .invalid
    else if digitsValue digits > greatestNumber then .error .outOfRange
    else .ok (digitsValue digits, text.drop digits.length)

/-- Passes over one expected character. -/
def expect (c : Char) : Text → Except CalendarFault Text
  | [] => .error .tooShort
  | d :: rest => if d = c then .ok rest else .error .invalid

/-- Passes over one expected character with blanks before it. -/
def expectSpaced (c : Char) (text : Text) : Except CalendarFault Text :=
  expect c (Text.trimStart text)

/-- A number after blanks, of two digits at most, that must lie between two bounds. -/
def field (least greatest : Nat) (text : Text) : Except CalendarFault (Nat × Text) := do
  let (n, rest) ← number (some 2) (Text.trimStart text)
  if least ≤ n ∧ n ≤ greatest then .ok (n, rest) else .error .outOfRange

/-- A year after blanks: four digits at most, or any number of them behind a sign. -/
def year (text : Text) : Except CalendarFault (Int × Text) := do
  let (n, rest) ← match Text.trimStart text with
    | '-' :: digits => (number none digits).map fun (n, rest) => (-(n : Int), rest)
    | '+' :: digits => (number none digits).map fun (n, rest) => ((n : Int), rest)
    | digits => (number (some 4) digits).map fun (n, rest) => ((n : Int), rest)
  if -(2 ^ 31 : Int) ≤ n ∧ n < 2 ^ 31 then .ok (n, rest) else .error .outOfRange

/-- The fraction of a second in nanoseconds. Digits after the ninth are passed over. -/
def fraction (text : Text) : Except CalendarFault (Nat × Text) := do
  let (n, rest) ← number (some 9) text
  let digits := text.length - rest.length
  .ok (n * 10 ^ (9 - digits), rest.dropWhile isDigit)

/-- A fraction of a second if a point announces one. -/
def optionalFraction : Text → Except CalendarFault (Nat × Text)
  | '.' :: rest => fraction rest
  | rest => .ok (0, rest)

/-- Nothing may be left. -/
def finish (rest : Text) : Except CalendarFault Unit :=
  if rest.isEmpty then .ok () else .error .trailing

end Calendar

open Calendar
open Text (isDigit)

/-- Reads a date such as `2024-05-01`, with blanks around its parts. -/
def Date.read (text : Text) : Except CalendarFault Date := do
  let (y, rest) ← Calendar.year text
  let rest ← expectSpaced '-' rest
  let (month, rest) ← field 1 12 rest
  let rest ← expectSpaced '-' rest
  let (day, rest) ← field 1 31 rest
  finish (Text.trimStart rest)
  let date : Date := ⟨y, month, day⟩
  if date.isValid then .ok date else .error .outOfRange

namespace TimeOfDay

/-- The seconds of a time with their fraction, behind a colon. -/
def readSeconds (text : Text) : Except CalendarFault ((Nat × Nat) × Text) := do
  let rest ← expectSpaced ':' text
  let (second, rest) ← field 0 60 rest
  let (nanosecond, rest) ← optionalFraction rest
  .ok ((second, nanosecond), Text.trimStart rest)

/-- Reads a time such as `10:30:00.5`, with blanks around its parts. Seconds that cannot be read
are left over, and only then a fault. -/
def read (text : Text) : Except CalendarFault TimeOfDay := do
  let (hour, rest) ← field 0 23 text
  let rest ← expectSpaced ':' rest
  let (minute, rest) ← field 0 59 rest
  let ((second, nanosecond), rest) := match readSeconds rest with
    | .ok found => found
    | .error _ => ((0, 0), rest)
  finish (Text.trimStart rest)
  match ofClock? hour minute second nanosecond with
  | some time => .ok time
  | none => .error .outOfRange

end TimeOfDay

namespace Moment

/-- Reads a date and a time such as `2024-05-01T10:30:00.5`. -/
def readLocal (text : Text) : Except CalendarFault Moment := do
  let (y, rest) ← Calendar.year text
  let rest ← expect '-' rest
  let (month, rest) ← field 1 12 rest
  let rest ← expect '-' rest
  let (day, rest) ← field 1 31 rest
  let rest ← expect 'T' rest
  let (hour, rest) ← field 0 23 rest
  let rest ← expect ':' rest
  let (minute, rest) ← field 0 59 rest
  let rest ← expect ':' rest
  let (second, rest) ← field 0 60 rest
  let (nanosecond, rest) ← optionalFraction rest
  finish rest
  let date : Date := ⟨y, month, day⟩
  if !date.isValid then .error .outOfRange
  else
    match TimeOfDay.ofClock? hour minute second nanosecond with
    | some time => .ok ⟨date, time, 0⟩
    | none => .error .outOfRange

/-- A number of exactly the given count of digits. -/
def fixedNumber : Nat → Nat → Text → Except CalendarFault (Nat × Text)
  | 0, total, rest => .ok (total, rest)
  | _ + 1, _, [] => .error .tooShort
  | count + 1, total, c :: rest =>
    if isDigit c then fixedNumber count (total * 10 + Text.digitValue c) rest
    else .error .invalid

/-- Two digits of an offset. Too few bytes are a fault of their own. -/
def offsetDigits (text : Text) : Except CalendarFault ((Nat × Nat) × Text) :=
  if Text.byteSize text < 2 then .error .tooShort
  else
    match text with
    | c :: d :: rest =>
      if isDigit c && isDigit d then .ok ((Text.digitValue c, Text.digitValue d), rest)
      else .error .invalid
    | _ => .error .invalid

/-- The offset of a clock in minutes: `Z`, or a sign with hours and minutes. -/
def readOffset (text : Text) : Except CalendarFault (Int × Text) :=
  match text with
  | [] => .error .tooShort
  | c :: rest =>
    if c = 'Z' ∨ c = 'z' then .ok (0, rest)
    else if c ≠ '+' ∧ c ≠ '-' ∧ c ≠ '\u2212' then .error .invalid
    else do
      let ((tens, ones), rest) ← offsetDigits rest
      let rest ← expect ':' rest
      let ((minuteTens, minuteOnes), rest) ← offsetDigits rest
      if minuteTens > 5 then .error .outOfRange
      else
        let minutes : Nat := (tens * 10 + ones) * 60 + minuteTens * 10 + minuteOnes
        .ok (if c = '+' then (minutes : Int) else -(minutes : Int), rest)

/-- Reads a date and a time with an offset, such as `2024-05-01T10:30:00.5+02:00`. -/
def readStamp (text : Text) : Except CalendarFault Moment := do
  if Text.byteSize text < 19 then .error .tooShort
  let (y, rest) ← fixedNumber 4 0 text
  let rest ← expect '-' rest
  let (month, rest) ← fixedNumber 2 0 rest
  let rest ← expect '-' rest
  let (day, rest) ← fixedNumber 2 0 rest
  let date : Date := ⟨y, month, day⟩
  if !date.isValid then .error .outOfRange
  let rest ← match rest with
    | c :: rest => if c = 'T' ∨ c = 't' ∨ c = ' ' then .ok rest else .error .invalid
    | [] => .error .tooShort
  let (hour, rest) ← fixedNumber 2 0 rest
  let rest ← expect ':' rest
  let (minute, rest) ← fixedNumber 2 0 rest
  let rest ← expect ':' rest
  let (second, rest) ← fixedNumber 2 0 rest
  let (nanosecond, rest) ← optionalFraction rest
  let time ← match TimeOfDay.ofClock? hour minute second nanosecond with
    | some time => .ok time
    | none => .error .outOfRange
  let (offset, rest) ← readOffset rest
  finish rest
  if offset.natAbs < 1440 then .ok ⟨date, time, offset⟩ else .error .outOfRange

end Moment

end KeyedText
