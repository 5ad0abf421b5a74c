import KeyedText.Text.Basic

/-!
# Dates and times

Days of the proleptic Gregorian calendar, times of day with nanoseconds, and moments that combine
both with the distance of the local clock from universal time. A leap second is the second 59 with
more than a full second of nanoseconds.

## Main definitions

- `Date`, `TimeOfDay`, `Moment` — the domain
- `Date.isValid` — the days that exist
- `Moment.toUniversal` — the same moment on the universal clock
-/

namespace KeyedText

/-- A day by year, month and day of the month. -/
structure Date where
  year : Int
  month : Nat
  day : Nat
  deriving DecidableEq, Repr, Inhabited

namespace Date

/-- The first day of the year 1970. -/
def epoch : Date := ⟨1970, 1, 1⟩

/-- A year with a 29th of February. -/
def isLeapYear (year : Int) : Bool :=
  year % 4 = 0 && (year % 100 ≠ 0 || year % 400 = 0)

/-- The number of days of a month. -/
def daysInMonth (year : Int) (month : Nat) : Nat :=
  if month = 2 then if isLeapYear year then 29 else 28
  else if month = 4 ∨ month = 6 ∨ month = 9 ∨ month = 11 then 30
  else 31

/-- The first and the last year that dates reach. -/
def yearRange : Int × Int := (-262143, 262142)

/-- The days that exist, within the years that dates reach. -/
def isValid (date : Date) : Bool :=
  yearRange.1 ≤ date.year && date.year ≤ yearRange.2 && 1 ≤ date.month && date.month ≤ 12 &&
    1 ≤ date.day && date.day ≤ daysInMonth date.year date.month

/-- The day after. -/
def next (date : Date) : Date :=
  if date.day < daysInMonth date.year date.month then { date with day := date.day + 1 }
  else if date.month < 12 then ⟨date.year, date.month + 1, 1⟩
  else ⟨date.year + 1, 1, 1⟩

/-- The day before. -/
def previous (date : Date) : Date :=
  if 1 < date.day then { date with day := date.day - 1 }
  else if 1 < date.month then ⟨date.year, date.month - 1, daysInMonth date.year (date.month - 1)⟩
  else ⟨date.year - 1, 12, 31⟩

/-- A year in four digits; a year that does not fit has a sign. -/
def yearText (year : Int) : Text :=
  let digits := Text.padded 4 year.natAbs
  if year < 0 then '-' :: digits else if year > 9999 then '+' :: digits else digits

/-- The date as year, month and day. -/
def text (date : Date) : Text :=
  yearText date.year ++ '-' :: Text.padded 2 date.month ++ '-' :: Text.padded 2 date.day

end Date

/-- A time of day. A leap second has a second of 59 and a thousand million nanoseconds or more. -/
structure TimeOfDay where
  hour : Nat
  minute : Nat
  second : Nat
  nanosecond : Nat
  deriving DecidableEq, Repr, Inhabited

namespace TimeOfDay

/-- The start of a day. -/
def midnight : TimeOfDay := ⟨0, 0, 0, 0⟩

/-- The nanoseconds of a second. -/
def nanosPerSecond : Nat := 1000000000

/-- The time at a second of a minute, where the second 60 is a leap second. -/
def ofClock? (hour minute second nanosecond : Nat) : Option TimeOfDay :=
  if hour < 24 ∧ minute < 60 ∧ second ≤ 60 ∧ nanosecond < nanosPerSecond then
    some (if second = 60 then ⟨hour, minute, 59, nanosPerSecond + nanosecond⟩
      else ⟨hour, minute, second, nanosecond⟩)
  else none

/-- The fraction of a second behind its point, in three, six or nine digits; nothing when there is
none. -/
def fractionText (nanosecond : Nat) : Text :=
  if nanosecond = 0 then []
  else if nanosecond % 1000000 = 0 then '.' :: Text.padded 3 (nanosecond / 1000000)
  else if nanosecond % 1000 = 0 then '.' :: Text.padded 6 (nanosecond / 1000)
  else '.' :: Text.padded 9 nanosecond

/-- The time as hour, minute and second, with the fraction of the second if there is one. -/
def text (time : TimeOfDay) : Text :=
  let second := time.second + time.nanosecond / nanosPerSecond
  Text.padded 2 time.hour ++ ':' :: Text.padded 2 time.minute ++ ':' :: Text.padded 2 second ++
    fractionText (time.nanosecond % nanosPerSecond)

end TimeOfDay

/-- A moment as a local clock shows it, with the minutes by which that clock is ahead of universal
time. -/
structure Moment where
  date : Date
  time : TimeOfDay
  offset : Int
  deriving DecidableEq, Repr, Inhabited

namespace Moment

/-- The start of the year 1970 in universal time. -/
def epoch : Moment := ⟨Date.epoch, TimeOfDay.midnight, 0⟩

/-- The same moment on the universal clock. -/
def toUniversal (moment : Moment) : Moment :=
  let minutes : Int := moment.time.hour * 60 + moment.time.minute - moment.offset
  let date :=
    if minutes < 0 then moment.date.previous
    else if minutes < 1440 then moment.date
    else moment.date.next
  let minutes := (minutes % 1440).toNat
  ⟨date, { moment.time with hour := minutes / 60, minute := minutes % 60 }, 0⟩

/-- The date and the time with a `T` between them. -/
def localText (moment : Moment) : Text :=
  moment.date.text ++ 'T' :: moment.time.text

/-- The local date and time with the offset of the clock in hours and minutes. -/
def text (moment : Moment) : Text :=
  let minutes := moment.offset.natAbs
  moment.localText ++ (if moment.offset < 0 then '-' else '+') :: Text.padded 2 (minutes / 60) ++
    ':' :: Text.padded 2 (minutes % 60)

end Moment

end KeyedText
