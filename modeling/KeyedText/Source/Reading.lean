import KeyedText.Text.Basic

/-!
# Reading sources

The bytes of a source must be the UTF-8 form of a text. A file that is not there, a directory and a
refusal by whatever provides the text are faults of their own.

## Main definitions

- `AccessFault` — why a source cannot be read or a file not written
- `Text.ofBytes` — the text of some bytes
-/

namespace KeyedText

/-- Why a source cannot be read or a file not written. -/
inductive AccessFault where
  | missing
  | notDirectory
  | directory
  | nameTooLong
  | nulInName
  | notText
  | refused (message : Text)
  deriving DecidableEq, Repr

/-- The wording of a fault. -/
def AccessFault.message : AccessFault → Text
  | missing => "No such file or directory (os error 2)"
  | notDirectory => "Not a directory (os error 20)"
  | directory => "Is a directory (os error 21)"
  | nameTooLong => "File name too long (os error 36)"
  | nulInName => "file name contained an unexpected NUL byte"
  | notText => "stream did not contain valid UTF-8"
  | refused message => message

/-- The text of some bytes, which must be in UTF-8. -/
def Text.ofBytes (bytes : ByteArray) : Except AccessFault Text :=
  match String.fromUTF8? bytes with
  | some text => .ok text.toList
  | none => .error .notText

end KeyedText
