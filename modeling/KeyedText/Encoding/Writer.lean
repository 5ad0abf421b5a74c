import KeyedText.Key.Path
import KeyedText.Source.RawPair

/-!
# Writing pairs

A pair is written on one line, or as a block when its value has several lines, outer blanks or the
look of a block's start. Values that would not read back are refused, and so are names and indices
that would not be the same parts of a key.

## Main definitions

- `EncodeOptions` — spacing and line ends
- `writePair` — the text of a pair
- `checkName`, `checkIndex` — the names and indices that can be written
- `EncodeFault` — what cannot be written
-/

namespace KeyedText

/-- How pairs are written: without spaces around the equals sign, and with carriage returns at the
ends of lines. -/
structure EncodeOptions where
  compact : Bool := false
  crlf : Bool := false
  deriving DecidableEq, Repr, Inhabited

/-- The end of a line. -/
def EncodeOptions.lineEnd (options : EncodeOptions) : Text :=
  if options.crlf then ['\r', '\n'] else ['\n']

/-- What cannot be written. -/
inductive EncodeFault where
  | blankText (key : Text)
  | earlyClose (key : Text)
  | outerBlanks (name : Text)
  | delimiter (name : Text)
  | badIndex (index : Text)
  deriving DecidableEq, Repr

/-- Whether a value needs a block. -/
def needsBlock (value : Text) : Bool :=
  value.any (fun c => c == '\n' || c == '\r') || Text.trim value != value || value == ['\x7b']

/-- A block must not be blank, and no line in it may look like its end. -/
def checkBlock (key value : Text) : Except EncodeFault Unit :=
  if Text.allBlank value then .error (.blankText key)
  else if (Text.splitOn '\n' value).any closesBlock then .error (.earlyClose key)
  else .ok ()

/-- The line of a pair up to its value. -/
def assignment (options : EncodeOptions) (key value : Text) : Text :=
  let sign :=
    if options.compact then ['='] else if value.isEmpty then [' ', '='] else [' ', '=', ' ']
  key ++ sign ++ value

/-- The text of a pair. -/
def writePair (options : EncodeOptions) (key value : Text) : Except EncodeFault Text :=
  if needsBlock value then do
    checkBlock key value
    .ok (assignment options key ['\x7b'] ++ options.lineEnd ++ value ++ options.lineEnd ++
      ['\x7d'] ++ options.lineEnd)
  else .ok (assignment options key value ++ options.lineEnd)

/-- A character that divides the parts of a key. -/
def isStructural (c : Char) : Bool :=
  c == '.' || c == '[' || c == ']' || c == '='

/-- A name must be the same part of a key when it is read back. -/
def checkName (name : Text) : Except EncodeFault Unit :=
  if name.isEmpty || Text.trim name != name then .error (.outerBlanks name)
  else if name.any fun c => isStructural c || Text.isControl c then .error (.delimiter name)
  else .ok ()

/-- The text of an index must be the same index when it is read back. -/
def checkIndex (index : Text) : Except EncodeFault Unit :=
  if Text.trim index != index ||
      index.any fun c => c == '[' || c == ']' || c == '\n' || c == '\r' then
    .error (.badIndex index)
  else .ok ()

/-- The key of an item. -/
def indexedKey (key index : Text) : Except EncodeFault Text := do
  checkIndex index
  .ok (key ++ '[' :: index ++ [']'])

/-- The key of a member; a member of the target itself is addressed by its name alone. -/
def memberKey (key name : Text) : Text :=
  if key.isEmpty then name else key ++ '.' :: name

/-- The wording of what cannot be written. -/
def EncodeFault.message : EncodeFault → Text
  | blankText key =>
    '`' :: key ++ "`: whitespace-only text reads back as an absent value".toList
  | earlyClose key =>
    '`' :: key ++ "`: a line consisting of `\x7d` would close the block early".toList
  | outerBlanks name =>
    "member name `".toList ++ name ++ "` is empty or has outer whitespace".toList
  | delimiter name => "member name `".toList ++ name ++ "` contains a key delimiter".toList
  | badIndex index => "index `".toList ++ index ++ "` cannot be written as a key".toList

end KeyedText
