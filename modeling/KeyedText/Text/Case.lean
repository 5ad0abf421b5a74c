import KeyedText.Text.Basic
import KeyedText.Text.Case.Table

/-!
# Lowercase

Lowercasing follows the Unicode tables character by character, with one rule that looks at the
neighbours: a capital sigma that ends a word becomes `ς`, any other one `σ`. Names of members are
compared after `fold`, which trims and lowercases; all-ASCII names take a shorter way to the same
result.

## Main definitions

- `Text.lowercase` — the text in small letters
- `Text.fold` — the form in which names are compared
- `Text.sameIgnoringCase` — equality up to case
-/

namespace KeyedText.Text

/-- The small letter that the table gives for a character, if it gives one. -/
def tabledLower? (c : Char) : Option Char :=
  let n := c.toNat
  (lowerRuns.find? fun run => run.first ≤ n && n ≤ run.last && (n - run.first) % run.step == 0).map
    fun run => Char.ofNat ((n : Int) + run.shift).toNat

/-- The small form of one character away from its context. Only `İ` has a form of two
characters. -/
def lowerChar (c : Char) : Text :=
  if isAscii c then [c.toLower]
  else if c = 'İ' then ['i', '\u0307']
  else [(tabledLower? c).getD c]

/-- Whether the first character that is not ignorable in words has case. -/
def nextIsCased (text : Text) : Bool :=
  match text.dropWhile fun c => inRanges caseIgnorableRanges c.toNat with
  | [] => false
  | c :: _ => inRanges casedRanges c.toNat

/-- A sigma is final when a cased letter stands before it in the word and none after it. The text
before it is given from the nearest character outwards. -/
def isFinalSigma (before after : Text) : Bool :=
  nextIsCased before && !nextIsCased after

/-- The small form of a text that follows the given characters, nearest first. -/
def lowercaseAfter (before : Text) : Text → Text
  | [] => []
  | c :: rest =>
    (if c = 'Σ' then [if isFinalSigma before rest then 'ς' else 'σ'] else lowerChar c) ++
      lowercaseAfter (c :: before) rest

/-- The text in small letters. -/
def lowercase (text : Text) : Text :=
  lowercaseAfter [] text

/-- The form in which names are compared: outer blanks and case do not count. -/
def fold (name : Text) : Text :=
  let trimmed := trim name
  if trimmed.all isAscii then asciiLowercase trimmed else lowercase trimmed

/-- Equality up to case. -/
def sameIgnoringCase (left right : Text) : Bool :=
  sameIgnoringAsciiCase left right || lowercase left == lowercase right

end KeyedText.Text
