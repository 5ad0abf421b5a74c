import KeyedText.Number.Shortest
import KeyedText.Scalar.Enum
import KeyedText.Scalar.Path

/-!
# Scalars

A scalar is a value that one piece of text can hold: a number, a truth value, a character, a text, a
date or time, or a named value. Each type of scalars has a default, reads its values from text and
writes them so that they read back.

## Main definitions

- `ScalarType` — the types of scalars
- `Scalar` — their values
- `ScalarType.read`, `Scalar.render` — from and to text
- `Scalar.rank` — the order of the values of one type
-/

namespace KeyedText

/-- The two widths of floating numbers. -/
inductive BinaryKind where
  | single
  | double
  deriving DecidableEq, Repr, Inhabited

/-- The format of a width. -/
def BinaryKind.format : BinaryKind → BinaryFormat
  | single => .single
  | double => .double

/-- Types that hold text as it is. A path is compared by its parts, the others by their characters;
apart from that they differ in nothing but their identity. -/
inductive TextKind where
  | plain
  | short
  | path
  deriving DecidableEq, Repr, Inhabited

/-- The types of scalars. The list is closed, while a program may add types with a text form of its
own. The last two stand for such types: for those with named values or flags, whose table is a
parameter, and for integers with a mark in front of their digits. Other forms of text have no type
here. -/
inductive ScalarType where
  | integer (kind : IntegerKind)
  | binary (kind : BinaryKind)
  | bool
  | char
  | text (kind : TextKind)
  | date
  | time
  | dateTime
  | stamp
  | universal
  | enum (table : EnumTable)
  | marked (mark : Char) (kind : IntegerKind)
  deriving DecidableEq, Repr, Inhabited

/-- The values of the scalar types. -/
inductive Scalar where
  | integer (kind : IntegerKind) (n : Int)
  | binary (kind : BinaryKind) (x : Binary)
  | bool (b : Bool)
  | char (c : Char)
  | text (kind : TextKind) (t : Text)
  | date (d : Date)
  | time (t : TimeOfDay)
  | dateTime (m : Moment)
  | stamp (m : Moment)
  | universal (m : Moment)
  | enum (table : EnumTable) (value : Nat)
  | marked (mark : Char) (kind : IntegerKind) (n : Int)
  deriving DecidableEq, Repr, Inhabited

namespace ScalarType

/-- The value that a slot of the type starts with. -/
def initial : ScalarType → Scalar
  | integer kind => .integer kind 0
  | binary kind => .binary kind (.finite false 0 kind.format.leastExponent)
  | bool => .bool false
  | char => .char '\x00'
  | text kind => .text kind []
  | date => .date Date.epoch
  | time => .time TimeOfDay.midnight
  | dateTime => .dateTime Moment.epoch
  | stamp => .stamp Moment.epoch
  | universal => .universal Moment.epoch
  | enum table => .enum table 0
  | marked mark kind => .marked mark kind 0

/-- Reads a truth value in any case, with blanks around it. -/
def readBool (raw : Text) : Except Cause Bool :=
  let word := Text.trim raw
  if Text.sameIgnoringAsciiCase word "true" then .ok true
  else if Text.sameIgnoringAsciiCase word "false" then .ok false
  else .error (.invalidBool raw)

/-- Reads one character, as it is or with blanks around it. -/
def readChar (raw : Text) : Except Cause Char :=
  match raw, Text.trim raw with
  | [c], _ => .ok c
  | _, [c] => .ok c
  | _, _ => .error (.invalidChar raw)

/-- Reads an integer with blanks around it. -/
def readInteger (kind : IntegerKind) (raw : Text) : Except Cause Int :=
  (kind.read (Text.trim raw)).mapError .integer

/-- Reads a value of the type. Texts are taken as they are; everything else may have blanks around
it. -/
def read : ScalarType → Text → Except Cause Scalar
  | integer kind, raw => (readInteger kind raw).map (.integer kind)
  | binary kind, raw =>
    ((Binary.read kind.format (Text.trim raw)).mapError .binary).map (.binary kind)
  | bool, raw => (readBool raw).map .bool
  | char, raw => (readChar raw).map .char
  | text kind, raw => .ok (.text kind raw)
  | date, raw => ((Date.read (Text.trim raw)).mapError .calendar).map .date
  | time, raw => ((TimeOfDay.read (Text.trim raw)).mapError .calendar).map .time
  | dateTime, raw => ((Moment.readLocal (Text.trim raw)).mapError .calendar).map .dateTime
  | stamp, raw => ((Moment.readStamp (Text.trim raw)).mapError .calendar).map .stamp
  | universal, raw =>
    ((Moment.readStamp (Text.trim raw)).mapError .calendar).map (.universal ·.toUniversal)
  | enum table, raw => (table.read raw).map (.enum table)
  | marked mark kind, raw =>
    ((kind.read ((Text.trim raw).dropWhile (· == mark))).mapError .integer).map (.marked mark kind)

end ScalarType

namespace Scalar

/-- The type of a scalar. -/
def type : Scalar → ScalarType
  | integer kind _ => .integer kind
  | binary kind _ => .binary kind
  | bool _ => .bool
  | char _ => .char
  | text kind _ => .text kind
  | date _ => .date
  | time _ => .time
  | dateTime _ => .dateTime
  | stamp _ => .stamp
  | universal _ => .universal
  | enum table _ => .enum table
  | marked mark kind _ => .marked mark kind

/-- The text of a truth value. -/
def boolText (b : Bool) : Text :=
  if b then "true" else "false"

/-- The text of a scalar. -/
def render : Scalar → Text
  | integer _ n => Text.ofInt n
  | binary kind x => x.text kind.format
  | bool b => boolText b
  | char c => [c]
  | text _ t => t
  | date d => d.text
  | time t => t.text
  | dateTime m => m.localText
  | stamp m => m.text
  | universal m => m.text
  | enum table value => table.render value
  | marked mark _ n => mark :: Text.ofInt n

/-- The place of a text in the order of its characters. -/
def textRank (text : Text) : List Int :=
  text.map fun c => (c.toNat : Int)

/-- The place of a path in the order of its parts. -/
def pathRank (path : Text) : List Int :=
  (PathPart.ofPath path).flatMap PathPart.rank

/-- The place of a date in the calendar. -/
def dateRank (date : Date) : List Int :=
  [date.year, date.month, date.day]

/-- The place of a time in its day. -/
def timeRank (time : TimeOfDay) : List Int :=
  [time.hour, time.minute, time.second, time.nanosecond]

/-- The place of a scalar among those of its type, as a sequence that is compared from its front.
Scalars of one type with the same place are the same key of a map. -/
def rank : Scalar → List Int
  | integer _ n => [n]
  | binary _ .nan => []
  | binary _ (.infinite negative) => [if negative then -1 else 1]
  | binary _ (.finite negative significand exponent) =>
    [0, if negative then -significand else significand, exponent]
  | bool b => [if b then 1 else 0]
  | char c => [c.toNat]
  | text .path t => pathRank t
  | text _ t => textRank t
  | date d => dateRank d
  | time t => timeRank t
  | dateTime m => dateRank m.date ++ timeRank m.time
  | stamp m => dateRank m.toUniversal.date ++ timeRank m.toUniversal.time
  | universal m => dateRank m.date ++ timeRank m.time
  | enum _ value => [value]
  | marked _ _ n => [n]

end Scalar

end KeyedText
