import KeyedText.Text.Basic

/-!
# Integers

Integers come in kinds of fixed width, signed or not. A text is read digit by digit, so of two
faults the one further left is reported.

## Main definitions

- `IntegerKind` — the range of an integer
- `IntegerKind.read` — reads an integer of a kind
- `IntegerFault` — why a text is no integer of a kind
-/

namespace KeyedText

-- so that a power means the same here and next to a library with powers of its own
@[default_instance 20000]
instance (priority := 20000) instPowNumber {α : Type} [NatPow α] : Pow α Nat := instPowNat

/-- The integers of a given number of bits, with or without a sign. -/
inductive IntegerKind where
  | signed (bits : Nat)
  | unsigned (bits : Nat)
  deriving DecidableEq, Repr, Inhabited

/-- Why a text is no integer of a kind. -/
inductive IntegerFault where
  | empty
  | invalidDigit
  | tooLarge
  | tooSmall
  deriving DecidableEq, Repr

namespace IntegerKind

/-- The least integer of the kind. -/
def least : IntegerKind → Int
  | signed bits => -(2 ^ (bits - 1) : Nat)
  | unsigned _ => 0

/-- The greatest integer of the kind. -/
def greatest : IntegerKind → Int
  | signed bits => (2 ^ (bits - 1) : Nat) - 1
  | unsigned bits => (2 ^ bits : Nat) - 1

/-- Whether an integer belongs to the kind. -/
def holds (kind : IntegerKind) (n : Int) : Bool :=
  kind.least ≤ n && n ≤ kind.greatest

/-- The integers of the kind can be negative. -/
def isSigned : IntegerKind → Bool
  | signed _ => true
  | unsigned _ => false

/-- Reads the digits after those of `total`, upwards as long as the result stays at or below the
greatest value. -/
def readUp (greatest : Int) (total : Int) : Text → Except IntegerFault Int
  | [] => .ok total
  | c :: rest =>
    let next := total * 10 + Text.digitValue c
    if !Text.isDigit c then .error .invalidDigit
    else if next ≤ greatest then readUp greatest next rest
    else .error .tooLarge

/-- Reads the digits after those of `total`, downwards as long as the result stays at or above the
least value. -/
def readDown (least : Int) (total : Int) : Text → Except IntegerFault Int
  | [] => .ok total
  | c :: rest =>
    let next := total * 10 - Text.digitValue c
    if !Text.isDigit c then .error .invalidDigit
    else if least ≤ next then readDown least next rest
    else .error .tooSmall

/-- Reads an integer of the kind: a sign, which may be a minus only for signed kinds, and at least
one digit. -/
def read (kind : IntegerKind) : Text → Except IntegerFault Int
  | [] => .error .empty
  | ['+'] => .error .invalidDigit
  | ['-'] => .error .invalidDigit
  | '+' :: digits => readUp kind.greatest 0 digits
  | '-' :: digits =>
    if kind.isSigned then readDown kind.least 0 digits else .error .invalidDigit
  | digits => readUp kind.greatest 0 digits

end IntegerKind

/-- The kind of list positions. -/
def IntegerKind.position : IntegerKind := .unsigned 64

/-- Reads a list position. -/
def readPosition? (text : Text) : Option Nat :=
  match IntegerKind.position.read text with
  | .ok n => some n.toNat
  | .error _ => none

end KeyedText
