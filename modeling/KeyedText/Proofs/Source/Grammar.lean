import KeyedText.Source.RawPair
import KeyedText.Proofs.Source.Lines

/-!
# The grammar of a source

What the pairs of a source are, said line by line: a line is skipped, is a pair of its own, or opens
a block that runs to the first line which closes it. The pairs that are found are the ones that the
grammar gives, and no others.

## Main definitions

- `RawPair.between` — the value of a block, from the source text inside of it
- `RawPair.Reads` — the pairs that lines stand for
- `RawPair.StandsAt` — where the key of a pair is written

## Main statements

- `RawPair.scan_block` — a block is read up to the first line that closes it
- `RawPair.reads_iff` — the pairs that lines stand for are those that are found in them
- `RawPair.ofText_iff_grammar` — the same for the lines of a text, with the numbers of the lines
-/

namespace KeyedText

theorem opensBlock_iff {rest : Text} : opensBlock rest = true ↔ Text.trim rest = ['\x7b'] := by
  simp [opensBlock]

theorem closesBlock_iff {line : Text} : closesBlock line = true ↔ Text.trim line = ['\x7d'] := by
  simp [closesBlock]

theorem closesBlock_eq_false_iff {line : Text} :
    closesBlock line = false ↔ Text.trim line ≠ ['\x7d'] := by
  rw [Ne, ← closesBlock_iff, Bool.not_eq_true]

namespace RawPair

/-- The value of a block whose inner lines have the given source text: the end of the last of them
does not belong to it, and it is absent when it is blank. -/
def between (source : Text) : Option Text :=
  if Text.allBlank (Text.dropTerminator source) then none
  else some (Text.dropTerminator source)

/-- The pairs that lines stand for, the first of which has the given number. -/
inductive Reads : Nat → List Line → List RawPair → Prop
  | done (number : Nat) : Reads number [] []
  | skip {number : Nat} {line : Line} {rest : List Line} {pairs : List RawPair}
      (hsplit : splitAssignment line.content = none)
      (hrest : Reads (number + 1) rest pairs) : Reads number (line :: rest) pairs
  | block {number : Nat} {line close : Line} {key value : Text} {body rest : List Line}
      {pairs : List RawPair}
      (hsplit : splitAssignment line.content = some (key, value))
      (hopen : Text.trim value = ['\x7b']) (hended : line.ending ≠ [])
      (hbody : ∀ inner ∈ body, Text.trim inner.content ≠ ['\x7d'])
      (hclose : Text.trim close.content = ['\x7d'])
      (hrest : Reads (number + body.length + 2) rest pairs) :
      Reads number (line :: (body ++ close :: rest))
        (⟨key, between (body.flatMap Line.full), number⟩ :: pairs)
  | single {number : Nat} {line : Line} {key value : Text} {rest : List Line}
      {pairs : List RawPair}
      (hsplit : splitAssignment line.content = some (key, value))
      (hplain : ¬(Text.trim value = ['\x7b'] ∧ line.ending ≠ [] ∧
        ∃ later ∈ rest, Text.trim later.content = ['\x7d']))
      (hrest : Reads (number + 1) rest pairs) :
      Reads number (line :: rest) (⟨key, some (Text.trim value), number⟩ :: pairs)

/-- The line with the number of the pair is there, and the key of the pair is written on it. -/
def StandsAt (lines : List Line) (pair : RawPair) : Prop :=
  1 ≤ pair.line ∧ ∃ line value, lines[pair.line - 1]? = some line ∧
    splitAssignment line.content = some (pair.key, value)

/-! ## Steps of the scan -/

variable {key value text : Text} {number opened : Nat} {line close : Line}
  {body rest lines seen : List Line} {pairs : List RawPair}

theorem scan_skip (hsplit : splitAssignment line.content = none) :
    scan .between number (line :: rest) = scan .between (number + 1) rest := by
  simp [scan, hsplit]

/-- An assignment that opens no block, or one that nothing closes, is a pair of its own. -/
theorem scan_single (hsplit : splitAssignment line.content = some (key, value))
    (hplain : ¬(opensBlock value = true ∧ ∃ later ∈ rest, closesBlock later.content = true)) :
    scan .between number (line :: rest) =
      ⟨key, some (Text.trim value), number⟩ :: scan .between (number + 1) rest := by
  simp only [scan, hsplit]
  rw [if_neg]
  simpa [List.any_eq_true] using hplain

/-- Inside of a block, lines are collected up to the first one that closes it. -/
theorem scan_inside (hbody : ∀ inner ∈ body, closesBlock inner.content = false)
    (hclose : closesBlock close.content = true) :
    scan (.block key opened seen) number (body ++ close :: rest) =
      ⟨key, blockValue (seen.reverse ++ body), opened⟩ ::
        scan .between (number + body.length + 1) rest := by
  induction body generalizing seen number with
  | nil => simp [scan, hclose]
  | cons inner body ih =>
    have hinner := hbody inner (by simp)
    rw [List.cons_append, scan, if_neg (by simp [hinner]),
      ih fun other hother => hbody other (by simp [hother])]
    simp only [List.reverse_cons, List.append_assoc, List.singleton_append, List.length_cons]
    rw [show number + 1 + body.length + 1 = number + (body.length + 1) + 1 by omega]

/-- A block is read up to the first line that closes it. -/
theorem scan_block (hsplit : splitAssignment line.content = some (key, value))
    (hopen : opensBlock value = true)
    (hbody : ∀ inner ∈ body, closesBlock inner.content = false)
    (hclose : closesBlock close.content = true) :
    scan .between number (line :: (body ++ close :: rest)) =
      ⟨key, blockValue body, number⟩ :: scan .between (number + body.length + 2) rest := by
  simp only [scan, hsplit]
  rw [if_pos (by simp [hopen, hclose]), scan_inside hbody hclose]
  simp only [List.reverse_nil, List.nil_append]
  rw [show number + 1 + body.length + 1 = number + body.length + 2 by omega]

theorem blockValue_eq_between (h : ∀ line ∈ body, line.Ended) :
    blockValue body = between (body.flatMap Line.full) := by
  rw [blockValue, between, Line.joined_eq_dropTerminator h]

theorem exists_first_close (h : ∃ later ∈ lines, closesBlock later.content = true) :
    ∃ body close rest, lines = body ++ close :: rest ∧
      (∀ inner ∈ body, closesBlock inner.content = false) ∧ closesBlock close.content = true := by
  induction lines with
  | nil => simp at h
  | cons line lines ih =>
    by_cases hline : closesBlock line.content = true
    · exact ⟨[], line, lines, rfl, by simp, hline⟩
    · obtain ⟨body, close, rest, rfl, hbody, hclose⟩ := ih (by simpa [hline] using h)
      refine ⟨line :: body, close, rest, rfl, ?_, hclose⟩
      simpa [hline] using hbody

/-! ## The scan and the grammar -/

/-- What the grammar gives is found: every pair in turn, with the lines after it. The lines are the
last ones of a text, so that all of them but the very last are ended. -/
theorem Reads.scan_eq (h : Reads number lines pairs) (earlier : List Line)
    (htext : Line.ofText text = earlier ++ lines) : scan .between number lines = pairs := by
  induction h generalizing earlier with
  | done => rfl
  | skip hsplit hrest ih =>
    rw [scan_skip hsplit]
    exact ih (earlier ++ [_]) (by simpa using htext)
  | @block number line close key value body rest pairs hsplit hopen hended hbody hclose hrest ih =>
    -- the closing line follows the lines of the block
    have hinner : ∀ inner ∈ body, inner.Ended := by
      intro inner hmem
      refine Line.ended_of_ofText (earlier ++ line :: body) (close :: rest)
        (by simpa using htext) (by simp) inner (by simp [hmem])
    rw [scan_block hsplit (opensBlock_iff.2 hopen)
      (fun inner hmem => closesBlock_eq_false_iff.2 (hbody inner hmem)) (closesBlock_iff.2 hclose),
      blockValue_eq_between hinner,
      ih (earlier ++ line :: (body ++ [close])) (by simpa using htext)]
  | @single number line key value rest pairs hsplit hplain hrest ih =>
    rw [scan_single hsplit, ih (earlier ++ [line]) (by simpa using htext)]
    -- a line that closes a block later on is enough for the line to be ended
    rintro ⟨hopen, later, hmem, hlater⟩
    refine hplain ⟨opensBlock_iff.1 hopen, ?_, later, hmem, closesBlock_iff.1 hlater⟩
    exact (Line.ended_of_ofText (earlier ++ [line]) rest (by simpa using htext)
      (List.ne_nil_of_mem hmem) line (by simp)).ending_ne_nil

/-- What is found is what the grammar gives. -/
theorem reads_scan (number : Nat) (earlier lines : List Line)
    (htext : Line.ofText text = earlier ++ lines) :
    Reads number lines (scan .between number lines) := by
  -- by induction on the number of lines, since a block takes several of them at once
  match lines with
  | [] => exact .done number
  | line :: rest =>
    match hsplit : splitAssignment line.content with
    | none =>
      rw [scan_skip hsplit]
      exact .skip hsplit (reads_scan (number + 1) (earlier ++ [line]) rest (by simpa using htext))
    | some (key, value) =>
      by_cases hopen : opensBlock value = true ∧ ∃ later ∈ rest, closesBlock later.content = true
      · obtain ⟨hvalue, hlater⟩ := hopen
        obtain ⟨body, close, after, rfl, hbody, hclose⟩ := exists_first_close hlater
        have hended : ∀ inner ∈ line :: body, inner.Ended := fun inner hmem =>
          Line.ended_of_ofText (earlier ++ line :: body) (close :: after)
            (by simpa using htext) (by simp) inner (List.mem_append_right _ hmem)
        rw [scan_block hsplit hvalue hbody hclose,
          blockValue_eq_between fun inner hmem => hended inner (by simp [hmem])]
        exact .block hsplit (opensBlock_iff.1 hvalue) (hended line (by simp)).ending_ne_nil
          (fun inner hmem => closesBlock_eq_false_iff.1 (hbody inner hmem))
          (closesBlock_iff.1 hclose)
          (reads_scan (number + body.length + 2) (earlier ++ line :: (body ++ [close])) after
            (by simpa using htext))
      · rw [scan_single hsplit hopen]
        refine .single hsplit ?_
          (reads_scan (number + 1) (earlier ++ [line]) rest (by simpa using htext))
        rintro ⟨hvalue, -, later, hmem, hlater⟩
        exact hopen ⟨opensBlock_iff.2 hvalue, later, hmem, closesBlock_iff.2 hlater⟩
termination_by lines.length

/-- The pairs of the last lines of a text are those that the grammar gives. -/
theorem reads_iff (earlier : List Line) (htext : Line.ofText text = earlier ++ lines) :
    Reads number lines pairs ↔ scan .between number lines = pairs := by
  constructor
  · intro h
    exact h.scan_eq earlier htext
  · rintro rfl
    exact reads_scan number earlier lines htext

/-! ## Numbers of lines -/

theorem Reads.le_line (h : Reads number lines pairs) : ∀ pair ∈ pairs, number ≤ pair.line := by
  induction h with
  | done => simp
  | skip _ _ ih =>
    intro pair hmem
    have := ih pair hmem
    omega
  | block _ _ _ _ _ _ ih =>
    intro pair hmem
    rcases List.mem_cons.1 hmem with rfl | hmem
    · exact le_rfl
    · have := ih pair hmem
      omega
  | single _ _ _ ih =>
    intro pair hmem
    rcases List.mem_cons.1 hmem with rfl | hmem
    · exact le_rfl
    · have := ih pair hmem
      omega

theorem Reads.line_lt (h : Reads number lines pairs) :
    pairs.Pairwise fun earlier later => earlier.line < later.line := by
  induction h with
  | done => exact .nil
  | skip _ _ ih => exact ih
  | block _ _ _ _ _ hrest ih =>
    refine .cons (fun pair hmem => ?_) ih
    have := hrest.le_line pair hmem
    simp only
    omega
  | single _ _ hrest ih =>
    refine .cons (fun pair hmem => ?_) ih
    have := hrest.le_line pair hmem
    simp only
    omega

theorem getElem?_behind (front rest : List Line) {n : Nat} (h : number + front.length ≤ n) :
    (front ++ rest)[n - number]? = rest[n - (number + front.length)]? := by
  rw [List.getElem?_append_right (by omega), Nat.sub_sub]

/-- The key of each pair is written on the line that has its number. -/
theorem Reads.exists_line (h : Reads number lines pairs) : ∀ pair ∈ pairs,
    ∃ line value, lines[pair.line - number]? = some line ∧
      splitAssignment line.content = some (pair.key, value) := by
  induction h with
  | done => simp
  | @skip number line rest pairs _ hrest ih =>
    intro pair hmem
    obtain ⟨found, value, hfound, hkey⟩ := ih pair hmem
    have hbehind := getElem?_behind [line] rest (hrest.le_line pair hmem)
    exact ⟨found, value, hbehind.trans hfound, hkey⟩
  | @block number line close key value body rest pairs hsplit _ _ _ _ hrest ih =>
    intro pair hmem
    rcases List.mem_cons.1 hmem with rfl | hmem
    · exact ⟨line, value, by simp, hsplit⟩
    · obtain ⟨found, value, hfound, hkey⟩ := ih pair hmem
      have hlength : number + (line :: (body ++ [close])).length = number + body.length + 2 := by
        simp
        omega
      have hbehind := getElem?_behind (line :: (body ++ [close])) rest
        (hlength ▸ hrest.le_line pair hmem)
      rw [hlength] at hbehind
      refine ⟨found, value, ?_, hkey⟩
      rw [← hfound, ← hbehind]
      simp
  | @single number line key value rest pairs hsplit _ hrest ih =>
    intro pair hmem
    rcases List.mem_cons.1 hmem with rfl | hmem
    · exact ⟨line, value, by simp, hsplit⟩
    · obtain ⟨found, value, hfound, hkey⟩ := ih pair hmem
      have hbehind := getElem?_behind [line] rest (hrest.le_line pair hmem)
      exact ⟨found, value, hbehind.trans hfound, hkey⟩

/-- **The pairs of a source are those that the grammar gives for its lines.** Each stands on the
line that has its number, counted from one, and the numbers increase. -/
theorem ofText_iff_grammar (text : Text) :
    (∀ pairs, ofText text = pairs ↔ ∃ lines, Line.Cut lines text ∧ Reads 1 lines pairs) ∧
      (∀ pair ∈ ofText text, StandsAt (Line.ofText text) pair) ∧
      (ofText text).Pairwise fun earlier later => earlier.line < later.line := by
  have hreads : Reads 1 (Line.ofText text) (ofText text) := (reads_iff [] rfl).2 rfl
  refine ⟨fun pairs => ⟨?_, ?_⟩, fun pair hmem => ?_, hreads.line_lt⟩
  · rintro rfl
    exact ⟨Line.ofText text, Line.cut_ofText text, hreads⟩
  · rintro ⟨lines, hcut, h⟩
    rw [← Line.cut_iff.1 hcut] at h
    exact (reads_iff [] rfl).1 h
  · exact ⟨hreads.le_line pair hmem, hreads.exists_line pair hmem⟩

end RawPair

end KeyedText
