import KeyedText.Proofs.Source.Spans
import KeyedText.Source.Cursor

/-!
# Lines one at a time are the lines of the text

A search that steps from line feed to line feed finds the lines of the text. It never looks into the
characters: a line feed and a carriage return are bytes of their own wherever they stand, so the
bytes that are found are those of the characters.

## Main definitions

- `LineCursor.Behind` — a cursor between the lines that were found and the others

## Main statements

- `LineCursor.Behind.past`, `LineCursor.next?_of_behind` — a step finds the next line
- `LineCursor.spans_of_behind` — a run finds the lines that are left
- `LineCursor.spans_bytes` — the lines that are found in a text from its start
-/

namespace KeyedText

variable {text front body back content : Text}

/-! ## Bytes -/

theorem Text.findIdx?_bytes_of_not_mem (h : '\n' ∉ text) :
    (Text.bytes text).findIdx? (· == 10) = none := by
  rw [List.findIdx?_eq_none_iff]
  intro byte hbyte
  rw [beq_eq_false_iff_ne]
  rintro rfl
  exact h ((Text.mem_bytes_iff (by decide)).1 hbyte)

namespace LineCursor

theorem feed?_append (front body : Text) :
    feed? (Text.bytes (front ++ body)) (Text.byteSize front) =
      (Text.bytes body).findIdx? (· == 10) := by
  rw [feed?, Text.bytes_append, ← Text.length_bytes, List.drop_left]

/-- The next line feed is the first one behind the cursor. -/
theorem feed?_eq_some (front : Text) (hbody : '\n' ∉ body) (back : Text) :
    feed? (Text.bytes (front ++ (body ++ '\n' :: back))) (Text.byteSize front) =
      some (Text.byteSize body) := by
  have hfeed : Text.bytes ('\n' :: back) = 10 :: Text.bytes back := rfl
  rw [feed?_append, Text.bytes_append, List.findIdx?_append, Text.findIdx?_bytes_of_not_mem hbody,
    hfeed, List.findIdx?_cons, Text.length_bytes]
  simp

theorem feed?_eq_none (hbody : '\n' ∉ body) :
    feed? (Text.bytes (front ++ body)) (Text.byteSize front) = none := by
  rw [feed?_append, Text.findIdx?_bytes_of_not_mem hbody]

/-- A carriage return in front of the line feed is found. -/
theorem contentEnd_cr (front content back : Text) :
    contentEnd (Text.bytes (front ++ (content ++ '\r' :: back))) (Text.byteSize front)
        (Text.byteSize front + Text.byteSize content + 1) =
      Text.byteSize front + Text.byteSize content := by
  have hreturn : Text.bytes ('\r' :: back) = 13 :: Text.bytes back := rfl
  rw [contentEnd, if_pos, Nat.add_sub_cancel]
  refine ⟨by omega, ?_⟩
  rw [Nat.add_sub_cancel, ← List.append_assoc, Text.bytes_append, hreturn, ← Text.byteSize_append,
    ← Text.length_bytes, List.getElem?_append_right (Nat.le_refl _), Nat.sub_self]
  rfl

/-- Without a carriage return there the content goes up to the line feed. An empty line has nothing
to look back at. -/
theorem contentEnd_lf (hcontent : content.getLast? ≠ some '\r') (front back : Text) :
    contentEnd (Text.bytes (front ++ (content ++ back))) (Text.byteSize front)
        (Text.byteSize front + Text.byteSize content) =
      Text.byteSize front + Text.byteSize content := by
  rw [contentEnd, if_neg]
  rintro ⟨hlt, hbyte⟩
  have hne : 0 < (Text.bytes content).length := by
    rw [Text.length_bytes]
    omega
  rw [← List.append_assoc, Text.bytes_append, Text.bytes_append, ← Text.length_bytes,
    ← Text.length_bytes content, List.getElem?_append_left (by rw [List.length_append]; omega),
    List.getElem?_append_right (by omega), Nat.sub_right_comm, Nat.add_sub_cancel_left,
    ← List.getLast?_eq_getElem?] at hbyte
  exact Text.ofNat_ne_getLast?_bytes (c := '\r') (by decide) hcontent hbyte

/-- The line feed of a line is found, and with it the end of the content. -/
theorem exists_feed {line : Line} (hline : line.Ended) (front back : Text) : ∃ offset,
    feed? (Text.bytes (front ++ (line.full ++ back))) (Text.byteSize front) = some offset ∧
      contentEnd (Text.bytes (front ++ (line.full ++ back))) (Text.byteSize front)
          (Text.byteSize front + offset) =
        Text.byteSize front + Text.byteSize line.content ∧
      offset + 1 = Text.byteSize line.full := by
  have hreturn : Text.byteSize ['\r'] = 1 := rfl
  have hfeed : Text.byteSize ['\n'] = 1 := rfl
  have hboth : Text.byteSize ['\r', '\n'] = 2 := rfl
  rw [Line.full, Text.byteSize_append, List.append_assoc]
  rcases hline.ending with hending | ⟨hending, hlast⟩
  · refine ⟨Text.byteSize line.content + 1, ?_, ?_, by rw [hending, hboth]⟩
    · have hbody : '\n' ∉ line.content ++ ['\r'] := by simpa using hline.content
      have hfound := feed?_eq_some front hbody back
      rw [Text.byteSize_append, hreturn, List.append_assoc] at hfound
      rwa [hending]
    · rw [hending]
      exact contentEnd_cr front line.content ('\n' :: back)
  · refine ⟨Text.byteSize line.content, ?_, contentEnd_lf hlast front _, by rw [hending, hfeed]⟩
    rw [hending]
    exact feed?_eq_some front hline.content back

/-! ## Steps -/

/-- A cursor that stands behind some lines of a text and in front of the others. -/
structure Behind (cursor : LineCursor) (earlier later : List Line) : Prop where
  position_eq : cursor.position = Text.byteSize (earlier.flatMap Line.full)
  number_eq : cursor.number = earlier.length
  done_iff : cursor.done = true ↔ later = []

variable {cursor : LineCursor} {line : Line} {earlier later : List Line}

theorem behind_start (text : Text) : Behind {} [] (Line.ofText text) := by
  obtain ⟨front, last, hlines, -⟩ := Line.cut_ofText text
  exact ⟨rfl, rfl, by simp [hlines]⟩

/-- Going behind the next line. -/
theorem Behind.past {done : Bool} (h : cursor.Behind earlier (line :: later))
    (hdone : done = true ↔ later = []) :
    Behind ⟨cursor.position + Text.byteSize line.full, cursor.number + 1, done⟩
      (earlier ++ [line]) later where
  position_eq := by
    rw [h.position_eq, List.flatMap_append, List.flatMap_singleton, Text.byteSize_append]
  number_eq := by rw [h.number_eq, List.length_append, List.length_singleton]
  done_iff := hdone

/-- One step finds the next line and goes behind it. -/
theorem next?_of_behind (htext : Line.ofText text = earlier ++ line :: later)
    (h : cursor.Behind earlier (line :: later)) : ∃ done, (done = true ↔ later = []) ∧
      cursor.next? (Text.bytes text) =
        some (Span.ofLine (cursor.number + 1) cursor.position line,
          ⟨cursor.position + Text.byteSize line.full, cursor.number + 1, done⟩) := by
  have hdone : ¬cursor.done = true := fun hdone => absurd (h.done_iff.1 hdone) (by simp)
  have hwhole : text = earlier.flatMap Line.full ++ (line.full ++ later.flatMap Line.full) := by
    obtain ⟨front, last, hlines, -, -, hfull⟩ := Line.cut_ofText text
    rw [← hfull, htext, List.flatMap_append, List.flatMap_cons]
  rw [next?, if_neg hdone]
  dsimp only
  cases later with
  | nil =>
    -- nothing ends the last line, so that it goes up to the end of the bytes
    obtain ⟨front, last, hlines, -, hlast, -⟩ := Line.cut_ofText text
    obtain ⟨-, hline⟩ := List.append_inj' (htext.symm.trans hlines) rfl
    obtain rfl := List.singleton_inj.1 hline
    have hfull : line.full = line.content := by rw [Line.full, hlast.ending, List.append_nil]
    rw [List.flatMap_nil, List.append_nil] at hwhole
    have hlength : (Text.bytes text).length = cursor.position + Text.byteSize line.full := by
      rw [hwhole, Text.length_bytes, Text.byteSize_append, h.position_eq]
    have hfeed : feed? (Text.bytes text) cursor.position = none := by
      rw [hwhole, h.position_eq, hfull]
      exact feed?_eq_none hlast.content
    refine ⟨true, by simp, ?_⟩
    rw [hfeed, Span.ofLine, ← hfull, ← hlength]
  | cons following later =>
    have hended : line.Ended :=
      Line.ended_of_ofText (earlier ++ [line]) (following :: later) (by simpa using htext)
        (by simp) line (by simp)
    obtain ⟨offset, hfeed, hend, hsize⟩ :=
      exists_feed hended (earlier.flatMap Line.full) ((following :: later).flatMap Line.full)
    rw [← hwhole, ← h.position_eq] at hfeed hend
    have hnext : cursor.position + offset + 1 = cursor.position + Text.byteSize line.full := by
      omega
    refine ⟨false, by simp, ?_⟩
    rw [hfeed, Span.ofLine, ← hend, ← hnext]

/-! ## Runs -/

/-- A run finds the lines that are left. -/
theorem spans_of_behind (htext : Line.ofText text = earlier ++ later)
    (h : cursor.Behind earlier later) :
    cursor.spans (Text.bytes text) =
      Span.ofLines (cursor.number + 1) cursor.position later := by
  induction later generalizing cursor earlier with
  | nil =>
    have hstep : cursor.next? (Text.bytes text) = none := if_pos (h.done_iff.2 rfl)
    rw [spans]
    split
    · rfl
    · next heq => exact absurd (hstep.symm.trans heq) (by simp)
  | cons line later ih =>
    obtain ⟨done, hdone, hstep⟩ := next?_of_behind htext h
    have hrest := ih (htext.trans (by simp)) (h.past hdone)
    rw [spans, Span.ofLines_cons, ← hrest]
    split
    · next heq => exact absurd (hstep.symm.trans heq) (by simp)
    · next span next heq =>
      obtain ⟨rfl, rfl⟩ := Prod.mk.inj (Option.some.inj (hstep.symm.trans heq))
      rfl

/-- **The lines that are found in the bytes of a text** are the lines of the text. -/
theorem spans_bytes (text : Text) : spans (Text.bytes text) {} = Span.ofText text :=
  spans_of_behind rfl (behind_start text)

end LineCursor

end KeyedText
