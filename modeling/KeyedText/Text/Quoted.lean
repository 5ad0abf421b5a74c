import KeyedText.Text.Basic
import KeyedText.Text.Quoted.Table

/-!
# Quoted text

Messages show raw text between quotation marks, with everything escaped that a reader could not
see or could mistake for the end of the text.

## Main definitions

- `Text.quoted` — a text between quotation marks
-/

namespace KeyedText.Text

/-- The digits of a code point in base sixteen, without leading zeros. -/
def hexDigits (n : Nat) : Text :=
  Nat.toDigits 16 n

/-- A character that a quoted text shows as it is. -/
def isVisible (c : Char) : Bool :=
  !inRanges hiddenRanges c.toNat && !inRanges extendingRanges c.toNat

/-- One character of a quoted text. -/
def escapeChar (c : Char) : Text :=
  match c with
  | '\x00' => ['\\', '0']
  | '\t' => ['\\', 't']
  | '\r' => ['\\', 'r']
  | '\n' => ['\\', 'n']
  | '"' => ['\\', '"']
  | '\\' => ['\\', '\\']
  | c => if isVisible c then [c] else ['\\', 'u', '\x7b'] ++ hexDigits c.toNat ++ ['\x7d']

/-- The text between quotation marks, with quotation marks, backslashes and all characters that
have no shape of their own escaped. -/
def quoted (text : Text) : Text :=
  '"' :: text.flatMap escapeChar ++ ['"']

end KeyedText.Text
