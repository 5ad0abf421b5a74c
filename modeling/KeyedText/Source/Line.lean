import KeyedText.Text.Basic

/-!
# Lines

A source is cut into lines at its line feeds. A carriage return directly before a line feed belongs
to the line's end, any other one to its content. The last line is the one without an end, so every
text has at least one line.

## Main definitions

- `Line` — the content of a line and the characters that end it
- `Line.ofText` — the lines of a text
- `Span` — where a line lies in the text, in bytes
- `Span.ofText` — the places of all lines
-/

namespace KeyedText

/-- One line of a source: its content, and the line feed that ends it with the carriage return
before it, if any. The last line has no end. -/
structure Line where
  content : Text
  ending : Text
  deriving DecidableEq, Repr, Inhabited

namespace Line

/-- The line with one more character at its front. -/
def push (c : Char) (line : Line) : Line :=
  { line with content := c :: line.content }

/-- Adds a character in front of the first of some lines. -/
def pushFront (c : Char) : List Line → List Line
  | [] => [⟨[c], []⟩]
  | line :: rest => line.push c :: rest

/-- The lines of a text. -/
def ofText : Text → List Line
  | [] => [⟨[], []⟩]
  | '\n' :: rest => ⟨[], ['\n']⟩ :: ofText rest
  | '\r' :: '\n' :: rest => ⟨[], ['\r', '\n']⟩ :: ofText rest
  | c :: rest => pushFront c (ofText rest)

/-- The line with its end. -/
def full (line : Line) : Text :=
  line.content ++ line.ending

/-- The text of consecutive lines without the end of the last one. -/
def joined : List Line → Text
  | [] => []
  | [line] => line.content
  | line :: rest => line.full ++ joined rest

end Line

/-- Where a line lies in its source: its number, counted from one, and the byte offsets of its
start, of the end of its content and of the line after it. -/
structure Span where
  number : Nat
  start : Nat
  stop : Nat
  next : Nat
  deriving DecidableEq, Repr, Inhabited

namespace Span

/-- A line that has an end. -/
def isTerminated (span : Span) : Bool :=
  span.next > span.stop

/-- The places of consecutive lines, the first of which has the given number and offset. -/
def ofLines (number start : Nat) : List Line → List Span
  | [] => []
  | line :: rest =>
    let stop := start + Text.byteSize line.content
    let next := stop + Text.byteSize line.ending
    ⟨number, start, stop, next⟩ :: ofLines (number + 1) next rest

/-- The places of the lines of a text. -/
def ofText (text : Text) : List Span :=
  ofLines 1 0 (Line.ofText text)

end Span

end KeyedText
