import KeyedText.Proofs.Source.Grammar
import Mathlib.Data.List.Count

/-!
# Texts one behind the other

Blocks are looked for without bound, so what a text is read as might depend on what follows it. It
does not when the text consists of whole lines and closes every block that it opens: then a text
behind it is read as if it stood alone, apart from the numbers of its lines.

## Main definitions

- `RawPair.Whole` — lines in which every block that is opened is closed
- `RawPair.ClosedIn` — the block that a pair opens, if it opens one, is closed
- `RawPair.shift` — a pair some lines further down

## Main statements

- `RawPair.Whole.scan_append` — whole lines are read the same whatever follows them
- `RawPair.scan_shift` — the number of the first line adds to the numbers of the pairs
- `RawPair.ofText_append_closed` — the pairs of a text behind another one
-/

namespace KeyedText

namespace Line

/-- A text that is empty or ends in a line feed is made of ended lines. -/
theorem exists_ended_of_getLast? {text : Text} (h : text = [] ∨ text.getLast? = some '\n') :
    ∃ front, (∀ line ∈ front, line.Ended) ∧ front.flatMap full = text ∧
      ofText text = front ++ [⟨[], []⟩] := by
  rcases h with rfl | hlast
  · exact ⟨[], by simp, rfl, rfl⟩
  · obtain ⟨init, rfl⟩ := List.getLast?_eq_some_iff.1 hlast
    exact exists_ended init

end Line

namespace RawPair

variable {key value : Text} {number : Nat} {line : Line} {front lines rest : List Line}

/-! ## Whole lines -/

/-- Lines in which every block that is opened is closed. Lines inside of a block open none. -/
inductive Whole : List Line → Prop
  | nil : Whole []
  | skip {line : Line} {rest : List Line} (hsplit : splitAssignment line.content = none)
      (hrest : Whole rest) : Whole (line :: rest)
  | single {line : Line} {key value : Text} {rest : List Line}
      (hsplit : splitAssignment line.content = some (key, value))
      (hplain : opensBlock value = false) (hrest : Whole rest) : Whole (line :: rest)
  | block {line close : Line} {key value : Text} {body rest : List Line}
      (hsplit : splitAssignment line.content = some (key, value)) (hopen : opensBlock value = true)
      (hbody : ∀ inner ∈ body, closesBlock inner.content = false)
      (hclose : closesBlock close.content = true) (hrest : Whole rest) :
      Whole (line :: (body ++ close :: rest))

/-- Whole lines are read the same whatever follows them, and what follows is read from its first
line on. -/
theorem Whole.scan_append (h : Whole front) (number : Nat) (rest : List Line) :
    scan .between number (front ++ rest) =
      scan .between number front ++ scan .between (number + front.length) rest := by
  induction h generalizing number with
  | nil => rfl
  | @skip line front hsplit _ ih =>
    rw [List.cons_append, scan_skip hsplit, scan_skip hsplit, ih, List.length_cons]
    rw [show number + 1 + front.length = number + (front.length + 1) by omega]
  | @single line key value front hsplit hplain _ ih =>
    have hnone : ∀ later : List Line, ¬(opensBlock value = true ∧
        ∃ line ∈ later, closesBlock line.content = true) := by
      rintro later ⟨hopen, -⟩
      exact absurd hopen (by simp [hplain])
    rw [List.cons_append, scan_single hsplit (hnone _), scan_single hsplit (hnone _), ih,
      List.length_cons, List.cons_append]
    rw [show number + 1 + front.length = number + (front.length + 1) by omega]
  | @block line close key value body front hsplit hopen hbody hclose _ ih =>
    have hblock : ∀ later : List Line, scan .between number (line :: (body ++ close :: later)) =
        ⟨key, blockValue body, number⟩ :: scan .between (number + body.length + 2) later :=
      fun _ => scan_block hsplit hopen hbody hclose
    have hlength : number + body.length + 2 + front.length =
        number + (line :: (body ++ close :: front)).length := by
      rw [List.length_cons, List.length_append, List.length_cons]
      omega
    rw [List.cons_append, List.append_assoc, List.cons_append, hblock, hblock, ih,
      List.cons_append, hlength]

/-- The block that the line of a pair opens, if it opens one, is closed by a later line. The first
of the lines has the given number. -/
def ClosedIn (number : Nat) (lines : List Line) (pair : RawPair) : Prop :=
  ∀ earlier line later rest, lines = earlier ++ line :: later →
    pair.line = number + earlier.length → splitAssignment line.content = some (pair.key, rest) →
    Text.trim rest = ['\x7b'] → ∃ close ∈ later, Text.trim close.content = ['\x7d']

theorem ClosedIn.behind {pair : RawPair} (seen : List Line)
    (h : pair.ClosedIn number (seen ++ rest)) : pair.ClosedIn (number + seen.length) rest := by
  rintro earlier line later value rfl hline
  refine h (seen ++ earlier) line later value (List.append_assoc ..).symm ?_
  rw [hline, List.length_append]
  omega

/-- Lines whose pairs close the blocks that they open are whole. -/
theorem whole_of_closedIn (number : Nat) (lines : List Line)
    (h : ∀ pair ∈ scan .between number lines, pair.ClosedIn number lines) : Whole lines := by
  -- by induction on the number of lines, since a block takes several of them at once
  match lines with
  | [] => exact .nil
  | line :: rest =>
    match hsplit : splitAssignment line.content with
    | none =>
      rw [scan_skip hsplit] at h
      refine .skip hsplit (whole_of_closedIn (number + 1) rest fun pair hpair => ?_)
      exact (h pair hpair).behind [line]
    | some (key, value) =>
      by_cases hopen : opensBlock value = true
      · by_cases hlater : ∃ later ∈ rest, closesBlock later.content = true
        · obtain ⟨body, close, after, rfl, hbody, hclose⟩ := exists_first_close hlater
          rw [scan_block hsplit hopen hbody hclose] at h
          refine .block hsplit hopen hbody hclose
            (whole_of_closedIn (number + body.length + 2) after fun pair hpair => ?_)
          have hpair := h pair (List.mem_cons_of_mem _ hpair)
          have hbehind : pair.ClosedIn number ((line :: (body ++ [close])) ++ after) := by
            simpa using hpair
          have hlength : number + (line :: (body ++ [close])).length =
              number + body.length + 2 := by
            rw [List.length_cons, List.length_append, List.length_singleton]
            omega
          rw [← hlength]
          exact hbehind.behind _
        · -- the pair of this line would be left open
          rw [scan_single hsplit fun hblock => hlater hblock.2] at h
          obtain ⟨close, hmem, hclose⟩ := h _ List.mem_cons_self [] line rest value rfl rfl hsplit
            (opensBlock_iff.1 hopen)
          exact absurd ⟨close, hmem, closesBlock_iff.2 hclose⟩ hlater
      · rw [scan_single hsplit fun hblock => hopen hblock.1] at h
        refine .single hsplit (by simpa using hopen)
          (whole_of_closedIn (number + 1) rest fun pair hpair => ?_)
        exact (h pair (List.mem_cons_of_mem _ hpair)).behind [line]
termination_by lines.length

/-! ## Numbers of lines -/

/-- The pair some lines further down. -/
def shift (count : Nat) (pair : RawPair) : RawPair :=
  { pair with line := pair.line + count }

/-- What is left open, with its first line some lines further down. -/
def Mode.shift (count : Nat) : Mode → Mode
  | between => between
  | block key opened body => block key (opened + count) body

/-- The number of the first line adds to the numbers of the pairs, and to nothing else. -/
theorem scan_shift (count : Nat) (mode : Mode) (number : Nat) (lines : List Line) :
    scan (mode.shift count) (number + count) lines =
      (scan mode number lines).map (shift count) := by
  have hnext : number + count + 1 = number + 1 + count := by omega
  induction lines generalizing mode number with
  | nil => cases mode <;> rfl
  | cons line lines ih =>
    have hrest := fun mode => ih mode (number + 1) (by omega)
    cases mode with
    | between =>
      rw [Mode.shift, scan, scan]
      cases hsplit : splitAssignment line.content with
      | none =>
        dsimp only
        rw [hnext]
        exact hrest .between
      | some own =>
        dsimp only
        split
        · rw [hnext]
          exact hrest (.block own.1 number [])
        · rw [hnext, List.map_cons]
          exact congrArg _ (hrest .between)
    | block key opened body =>
      rw [Mode.shift, scan, scan]
      split
      · rw [hnext, List.map_cons]
        exact congrArg _ (hrest .between)
      · rw [hnext]
        exact hrest (.block key opened (line :: body))

/-- The line behind the last line feed of a text makes no difference. -/
theorem scan_append_empty (mode : Mode) (number : Nat) (lines : List Line) :
    scan mode number (lines ++ [⟨[], []⟩]) = scan mode number lines := by
  induction lines generalizing mode number with
  | nil => cases mode <;> rfl
  | cons line lines ih =>
    cases mode with
    | between =>
      have hany : ((lines ++ [(⟨[], []⟩ : Line)]).any fun later => closesBlock later.content) =
          lines.any fun later => closesBlock later.content := by
        rw [List.any_append]
        exact Bool.or_false _
      rw [List.cons_append, scan, scan, hany]
      simp only [ih]
    | block key opened body =>
      rw [List.cons_append, scan, scan]
      simp only [ih]

theorem ClosedIn.of_append_empty {pair : RawPair}
    (h : pair.ClosedIn number (lines ++ [⟨[], []⟩])) : pair.ClosedIn number lines := by
  rintro earlier line later value rfl hline hsplit hopen
  obtain ⟨close, hmem, hclose⟩ := h earlier line (later ++ [⟨[], []⟩]) value (by simp) hline hsplit
    hopen
  rcases List.mem_append.1 hmem with hmem | hmem
  · exact ⟨close, hmem, hclose⟩
  · -- an empty line closes no block
    obtain rfl := List.mem_singleton.1 hmem
    exact absurd hclose (by decide)

/-! ## Texts -/

/-- **Reading goes along with putting texts together.** When a text is empty or ends in a line feed,
and each of its pairs that opens a block closes it in the text, then the pairs of a text behind it
follow its own, with the same keys and values, and with their lines counted on. -/
theorem ofText_append_closed {text : Text} (hend : text = [] ∨ text.getLast? = some '\n')
    (hclosed : ∀ pair ∈ ofText text, pair.ClosedIn 1 (Line.ofText text)) (later : Text) :
    ofText (text ++ later) = ofText text ++ (ofText later).map (shift (text.count '\n')) := by
  obtain ⟨front, hfront, rfl, hlines⟩ := Line.exists_ended_of_getLast? hend
  have hpairs : ofText (front.flatMap Line.full) = scan .between 1 front := by
    rw [ofText, ofLines, hlines, scan_append_empty]
  rw [hpairs, hlines] at hclosed
  have hwhole : Whole front :=
    whole_of_closedIn 1 front fun pair hpair => (hclosed pair hpair).of_append_empty
  have hlater := scan_shift front.length .between 1 (Line.ofText later)
  rw [hpairs, ofText, ofLines, Line.ofText_append hfront, hwhole.scan_append,
    Line.count_flatMap_full hfront, ofText, ofLines, ← hlater]
  rfl

/-- A block with a line that looks like the start of another one, closed by the last line. -/
def blockText : Text := "a = \x7b\r\n b = \x7b\r\n\x7d\r\n"

/-- An empty line, a closing line that belongs to no block, and a block that nothing closes. -/
def strayLines : Text := "\n\x7d\nc = \x7b\nd = 1"

/-- A block is not opened, nor a closed one opened again, by what follows it. -/
theorem blockText_append_strayLines :
    blockText.getLast? = some '\n' ∧
      (∀ pair ∈ ofText blockText, pair.ClosedIn 1 (Line.ofText blockText)) ∧
      ofText (blockText ++ strayLines) =
        ofText blockText ++ (ofText strayLines).map (shift (blockText.count '\n')) := by
  have hend : blockText.getLast? = some '\n' := by decide
  have hpairs : ofText blockText = [⟨"a".toList, some " b = \x7b".toList, 1⟩] := by decide
  have hlines : Line.ofText blockText = ⟨"a = \x7b".toList, "\r\n".toList⟩ ::
      [⟨" b = \x7b".toList, "\r\n".toList⟩, ⟨"\x7d".toList, "\r\n".toList⟩, ⟨[], []⟩] := by
    decide
  have hclosed : ∀ pair ∈ ofText blockText, pair.ClosedIn 1 (Line.ofText blockText) := by
    rw [hpairs, List.forall_mem_singleton, hlines]
    intro earlier line later value hcut hline _ _
    -- the pair stands on the first line, so that all other lines are later ones
    obtain rfl : earlier = [] := List.length_eq_zero_iff.1 (by simp only at hline; omega)
    obtain ⟨-, rfl⟩ := List.cons.inj hcut
    exact ⟨⟨"\x7d".toList, "\r\n".toList⟩, by simp, by decide⟩
  exact ⟨hend, hclosed, ofText_append_closed (.inr hend) hclosed strayLines⟩

end RawPair

end KeyedText
