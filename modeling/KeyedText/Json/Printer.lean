import KeyedText.Json.Basic

/-!
# Printing JSON

A JSON value is printed on one line or over several lines, with each level moved in by the same
number of blanks. Strings escape quotation marks, backslashes and the characters below `U+0020`.

## Main definitions

- `Json.quote` — a string between quotation marks
- `Json.print` — the text of a value
-/

namespace KeyedText.Json

/-- The two digits in base sixteen of a number below 256. -/
def hexByte (n : Nat) : Text :=
  let digits := Nat.toDigits 16 n
  List.replicate (2 - digits.length) '0' ++ digits

/-- One character of a string. -/
def quoteChar (c : Char) : Text :=
  match c with
  | '"' => ['\\', '"']
  | '\\' => ['\\', '\\']
  | '\x08' => ['\\', 'b']
  | '\x0c' => ['\\', 'f']
  | '\n' => ['\\', 'n']
  | '\r' => ['\\', 'r']
  | '\t' => ['\\', 't']
  | c => if c.toNat < 0x20 then ['\\', 'u', '0', '0'] ++ hexByte c.toNat else [c]

/-- A string between quotation marks. -/
def quote (text : Text) : Text :=
  '"' :: text.flatMap quoteChar ++ ['"']

/-- The line break before something at a given level; there is none when everything stands on one
line. -/
def lineBreak (indent level : Nat) : Text :=
  if indent = 0 then [] else '\n' :: List.replicate (indent * level) ' '

/-- What stands between a name and its value. -/
def colon (indent : Nat) : Text :=
  if indent = 0 then [':'] else [':', ' ']

/-- Parts at a level between an opening and a closing character. -/
def enclose (indent level : Nat) (opening closing : Char) (parts : List Text) : Text :=
  if parts.isEmpty then [opening, closing]
  else
    let separator := ',' :: lineBreak indent (level + 1)
    opening :: lineBreak indent (level + 1) ++ Text.join separator parts ++
      lineBreak indent level ++ [closing]

mutual

/-- The text of a value at a level, where each level is moved in by the given number of blanks and
zero stands for a single line. -/
def printAt (indent level : Nat) : Json → Text
  | .null => "null"
  | .bool b => if b then "true" else "false"
  | .integer n => Text.ofInt n
  | .binary x => numeral x
  | .string t => quote t
  | .array items => enclose indent level '[' ']' (printItems indent (level + 1) items)
  | .object entries => enclose indent level '\x7b' '\x7d' (printEntries indent (level + 1) entries)

/-- The texts of the items of an array. -/
def printItems (indent level : Nat) : List Json → List Text
  | [] => []
  | item :: items => item.printAt indent level :: printItems indent level items

/-- The texts of the members of an object. -/
def printEntries (indent level : Nat) : List (Text × Json) → List Text
  | [] => []
  | (name, value) :: rest =>
    (quote name ++ colon indent ++ value.printAt indent level) :: printEntries indent level rest

end

/-- The text of a value. -/
def print (indent : Nat) (value : Json) : Text :=
  value.printAt indent 0

end KeyedText.Json
