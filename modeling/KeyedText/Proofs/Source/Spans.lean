import KeyedText.Proofs.Source.Lines

/-!
# Where the lines of a text lie

The spans of the lines lie one behind the other and cover the whole text: each starts at the byte
where the one before it goes on, the first at the start of the text, and the last one ends with it.
No span cuts a character in two.

## Main definitions

- `Text.bytes` — the text in UTF-8
- `Text.IsBoundary` — the offsets between the characters of a text
- `Span.Tiling` — spans that cut a text into its lines

## Main statements

- `Text.mem_bytes_iff` — a byte of the ASCII range stands for its own character only
- `Span.exists_line_of_mem` — each span is that of a line, behind the lines before it
- `Span.tiling_ofText` — the spans of a text tile it
-/

namespace KeyedText

/-! ## Bytes -/

namespace Text

/-- The text in UTF-8. -/
def bytes (text : Text) : List UInt8 :=
  text.flatMap String.utf8EncodeChar

/-- The bytes of a text from one offset up to another. -/
def bytesBetween (text : Text) (start stop : Nat) : List UInt8 :=
  ((bytes text).take stop).drop start

/-- An offset that cuts no character in two. -/
def IsBoundary (text : Text) (offset : Nat) : Prop :=
  ∃ front back, text = front ++ back ∧ (bytes front).length = offset

variable {c : Char} {text front middle back : Text}

@[simp]
theorem bytes_append (front back : Text) : bytes (front ++ back) = bytes front ++ bytes back :=
  List.flatMap_append

theorem length_bytes (text : Text) : (bytes text).length = byteSize text := by
  induction text with
  | nil => rfl
  | cons c text ih =>
    rw [bytes, List.flatMap_cons, List.length_append, String.length_utf8EncodeChar, ← bytes, ih]
    rfl

@[simp]
theorem byteSize_append (front back : Text) :
    byteSize (front ++ back) = byteSize front + byteSize back := by
  rw [← length_bytes, bytes_append, List.length_append, length_bytes, length_bytes]

/-- Every byte of a character outside ASCII lies outside the ASCII range. -/
theorem ofNat_mem_utf8EncodeChar {n : Nat} (hn : n < 128) :
    UInt8.ofNat n ∈ String.utf8EncodeChar c ↔ c.toNat = n := by
  have hbyte : ∀ m, m < 256 → (UInt8.ofNat n = UInt8.ofNat m ↔ m = n) := by
    intro m hm
    rw [← UInt8.toNat_inj, UInt8.toNat_ofNat', UInt8.toNat_ofNat']
    omega
  have hvalue : c.toNat = c.val.toNat := rfl
  rw [String.utf8EncodeChar, hvalue]
  split_ifs
  all_goals
    simp (disch := omega) only [List.mem_cons, List.not_mem_nil, or_false, hbyte]
    try omega

/-- A byte of the ASCII range stands for its own character only. -/
theorem mem_bytes_iff (hc : c.toNat < 128) : UInt8.ofNat c.toNat ∈ bytes text ↔ c ∈ text := by
  rw [bytes, List.mem_flatMap]
  simp only [ofNat_mem_utf8EncodeChar hc, Char.toNat_inj, exists_eq_right]

theorem ofNat_ne_getLast?_bytes (hc : c.toNat < 128) (h : text.getLast? ≠ some c) :
    (bytes text).getLast? ≠ some (UInt8.ofNat c.toNat) := by
  intro hlast
  rcases List.eq_nil_or_concat text with rfl | ⟨front, last, rfl⟩
  · exact absurd hlast (by simp [bytes])
  · -- the last byte belongs to the last character
    have hne : bytes [last] ≠ [] := by
      rw [← List.length_pos_iff, length_bytes]
      exact Char.utf8Size_pos last
    rw [List.concat_eq_append, bytes_append, List.getLast?_append_of_ne_nil _ hne] at hlast
    have hmem : c ∈ [last] := (mem_bytes_iff hc).1 (List.mem_of_getLast? hlast)
    exact h (by rw [List.concat_eq_append, List.getLast?_concat, List.mem_singleton.1 hmem])

/-- The bytes between two boundaries are those of the characters there. -/
theorem bytesBetween_append (front middle back : Text) :
    bytesBetween (front ++ middle ++ back) (byteSize front) (byteSize front + byteSize middle) =
      bytes middle := by
  rw [bytesBetween, bytes_append, ← byteSize_append, ← length_bytes (front ++ middle),
    List.take_left, bytes_append, ← length_bytes, List.drop_left]

theorem isBoundary_append (front back : Text) : IsBoundary (front ++ back) (byteSize front) :=
  ⟨front, back, rfl, length_bytes front⟩

end Text

/-! ## Spans -/

namespace Span

/-- Spans that cut a text into its lines. They are numbered from one, there is one more than the
text has line feeds, and each goes from the end of the one before it to the start of the next. The
content of a line has no line feed; behind it stands a line feed, with the carriage return before it
if there is one, and nothing behind that of the last line. -/
structure Tiling (text : Text) (spans : List Span) : Prop where
  length_eq : spans.length = text.count '\n' + 1
  number_eq : spans.map Span.number = List.range' 1 spans.length
  start_eq : spans.head?.map Span.start = some 0
  meets : spans.IsChain fun span later => span.next = later.start
  next_eq : spans.getLast?.map Span.next = some (Text.bytes text).length
  ordered : ∀ span ∈ spans, span.start ≤ span.stop ∧ span.stop ≤ span.next
  content : ∀ span ∈ spans, 10 ∉ Text.bytesBetween text span.start span.stop
  ended : ∀ span ∈ spans.dropLast,
    Text.bytesBetween text span.stop span.next = [13, 10] ∨
      Text.bytesBetween text span.stop span.next = [10] ∧
        (Text.bytesBetween text span.start span.stop).getLast? ≠ some 13
  last : ∀ span ∈ spans.getLast?, Text.bytesBetween text span.stop span.next = []
  boundary : ∀ span ∈ spans, ∀ offset ∈ [span.start, span.stop, span.next],
    Text.IsBoundary text offset
  whole : (spans.flatMap fun span => Text.bytesBetween text span.start span.next) = Text.bytes text

variable {text : Text} {number start : Nat} {span : Span} {line last : Line}
  {front lines : List Line}

/-- The span of a line that starts at a given offset. -/
def ofLine (number start : Nat) (line : Line) : Span where
  number
  start
  stop := start + Text.byteSize line.content
  next := start + Text.byteSize line.full

theorem ofLines_cons (number start : Nat) (line : Line) (lines : List Line) :
    ofLines number start (line :: lines) =
      ofLine number start line ::
        ofLines (number + 1) (start + Text.byteSize line.full) lines := by
  rw [ofLines, ofLine, Line.full, Text.byteSize_append, Nat.add_assoc]

theorem ofLines_append (number start : Nat) (front back : List Line) :
    ofLines number start (front ++ back) =
      ofLines number start front ++
        ofLines (number + front.length) (start + Text.byteSize (front.flatMap Line.full)) back := by
  induction front generalizing number start with
  | nil => rfl
  | cons line front ih =>
    rw [List.cons_append, ofLines_cons, ofLines_cons, ih, List.cons_append, List.flatMap_cons,
      Text.byteSize_append, List.length_cons]
    congr 3 <;> omega

theorem length_ofLines (number start : Nat) (lines : List Line) :
    (ofLines number start lines).length = lines.length := by
  induction lines generalizing number start with
  | nil => rfl
  | cons line lines ih => rw [ofLines_cons, List.length_cons, ih, List.length_cons]

theorem map_number_ofLines (number start : Nat) (lines : List Line) :
    (ofLines number start lines).map Span.number = List.range' number lines.length := by
  induction lines generalizing number start with
  | nil => rfl
  | cons line lines ih =>
    rw [ofLines_cons, List.map_cons, ih, List.length_cons, List.range'_succ]
    rfl

theorem isChain_ofLines (number start : Nat) (lines : List Line) :
    (ofLines number start lines).IsChain fun span later => span.next = later.start := by
  induction lines generalizing number start with
  | nil => exact .nil
  | cons line lines ih =>
    rw [ofLines_cons]
    cases lines with
    | nil => exact .singleton _
    | cons next lines =>
      have hrest := ih (number + 1) (start + Text.byteSize line.full)
      rw [ofLines_cons] at hrest ⊢
      exact .cons_cons rfl hrest

/-- Each span is that of a line, behind the lines before it. -/
theorem exists_line_of_mem (h : span ∈ ofLines number start lines) : ∃ front line back,
    lines = front ++ line :: back ∧
      span = ofLine (number + front.length)
        (start + Text.byteSize (front.flatMap Line.full)) line := by
  induction lines generalizing number start with
  | nil => exact absurd h List.not_mem_nil
  | cons line lines ih =>
    rw [ofLines_cons] at h
    rcases List.mem_cons.1 h with rfl | hlater
    · exact ⟨[], line, lines, rfl, rfl⟩
    · obtain ⟨front, found, back, rfl, rfl⟩ := ih hlater
      refine ⟨line :: front, found, back, rfl, ?_⟩
      rw [List.flatMap_cons, Text.byteSize_append, List.length_cons]
      congr 1 <;> omega

/-- What a span cuts out of a text is a line. -/
structure CutsOut (text : Text) (span : Span) (line : Line) : Prop where
  ordered : span.start ≤ span.stop ∧ span.stop ≤ span.next
  content_eq : Text.bytesBetween text span.start span.stop = Text.bytes line.content
  ending_eq : Text.bytesBetween text span.stop span.next = Text.bytes line.ending
  full_eq : Text.bytesBetween text span.start span.next = Text.bytes line.full
  boundary : ∀ offset ∈ [span.start, span.stop, span.next], Text.IsBoundary text offset

theorem cutsOut_ofLine (number : Nat) (front back : Text) (line : Line) :
    CutsOut (front ++ line.full ++ back) (ofLine number (Text.byteSize front) line) line := by
  have hsize : Text.byteSize line.full = Text.byteSize line.content + Text.byteSize line.ending :=
    Text.byteSize_append _ _
  -- the same text, divided at the end of the content and behind the line
  have hcontent : front ++ line.full ++ back = front ++ line.content ++ (line.ending ++ back) := by
    simp [Line.full]
  have hending : front ++ line.full ++ back = front ++ line.content ++ line.ending ++ back := by
    simp [Line.full]
  refine ⟨⟨Nat.le_add_right _ _, ?_⟩, ?_, ?_, Text.bytesBetween_append _ _ _, ?_⟩
  · simp only [ofLine, hsize]
    omega
  · rw [hcontent]
    exact Text.bytesBetween_append _ _ _
  · have hbetween := Text.bytesBetween_append (front ++ line.content) line.ending back
    rw [Text.byteSize_append, Nat.add_assoc, ← hsize] at hbetween
    rw [hending]
    exact hbetween
  · simp only [List.forall_mem_cons, ofLine, ← Text.byteSize_append]
    refine ⟨?_, ?_, ?_, by simp⟩
    · rw [List.append_assoc]
      exact Text.isBoundary_append _ _
    · rw [hcontent]
      exact Text.isBoundary_append _ _
    · exact Text.isBoundary_append _ _

theorem exists_cutsOut (h : span ∈ ofLines 1 0 lines) (rest : Text) :
    ∃ line ∈ lines, CutsOut (lines.flatMap Line.full ++ rest) span line := by
  obtain ⟨front, line, back, rfl, rfl⟩ := exists_line_of_mem h
  refine ⟨line, by simp, ?_⟩
  have hcut := cutsOut_ofLine (1 + front.length) (front.flatMap Line.full)
    (back.flatMap Line.full ++ rest) line
  simpa using hcut

theorem flatMap_ofLines (number : Nat) (front : Text) (lines : List Line) :
    ((ofLines number (Text.byteSize front) lines).flatMap fun span =>
        Text.bytesBetween (front ++ lines.flatMap Line.full) span.start span.next) =
      Text.bytes (lines.flatMap Line.full) := by
  induction lines generalizing number front with
  | nil => rfl
  | cons line lines ih =>
    have hline := (cutsOut_ofLine number front (lines.flatMap Line.full) line).full_eq
    have hrest := ih (number + 1) (front ++ line.full)
    rw [Text.byteSize_append] at hrest
    rw [ofLines_cons, List.flatMap_cons, List.flatMap_cons, ← List.append_assoc, hline, hrest,
      Text.bytes_append]

/-- **The spans of a text tile it.** -/
theorem tiling_ofText (text : Text) : Tiling text (ofText text) := by
  obtain ⟨front, last, hlines, hfront, hlast, htext⟩ := Line.cut_ofText text
  have hfull : front.flatMap Line.full ++ last.full = text := by
    rw [← htext, hlines, List.flatMap_append, List.flatMap_singleton]
  have hspans : ofText text = ofLines 1 0 front ++
      [ofLine (1 + front.length) (Text.byteSize (front.flatMap Line.full)) last] := by
    rw [ofText, hlines, ofLines_append, Nat.zero_add, ofLines_cons]
    rfl
  have hcut : ∀ span ∈ ofText text, ∃ line ∈ Line.ofText text, CutsOut text span line := by
    intro span hspan
    simpa [htext] using exists_cutsOut hspan []
  have hend := cutsOut_ofLine (1 + front.length) (front.flatMap Line.full) [] last
  rw [hfull, List.append_nil] at hend
  -- no line has a line feed in its content
  have hcontent : ∀ line ∈ Line.ofText text, '\n' ∉ line.content := by
    rw [hlines, List.forall_mem_append, List.forall_mem_singleton]
    exact ⟨fun line hline => (hfront line hline).content, hlast.content⟩
  constructor
  case length_eq =>
    have hcount : last.full.count '\n' = 0 := by
      rw [Line.full, hlast.ending, List.append_nil, List.count_eq_zero]
      exact hlast.content
    rw [ofText, length_ofLines, hlines, ← hfull, List.count_append, hcount,
      Line.count_flatMap_full hfront, List.length_append, List.length_singleton]
  case number_eq => rw [ofText, map_number_ofLines, length_ofLines]
  case start_eq =>
    rw [ofText, hlines]
    cases front <;> rfl
  case meets => exact isChain_ofLines 1 0 _
  case next_eq =>
    rw [hspans, List.getLast?_concat, Text.length_bytes, ← hfull, Text.byteSize_append]
    rfl
  case ordered =>
    intro span hspan
    obtain ⟨line, -, hline⟩ := hcut span hspan
    exact hline.ordered
  case content =>
    intro span hspan
    obtain ⟨line, hmem, hline⟩ := hcut span hspan
    rw [hline.content_eq]
    exact fun hten => hcontent line hmem ((Text.mem_bytes_iff (by decide)).1 hten)
  case ended =>
    intro span hspan
    rw [hspans, List.dropLast_concat] at hspan
    obtain ⟨line, hmem, hline⟩ := exists_cutsOut hspan last.full
    rw [hfull] at hline
    rw [hline.ending_eq, hline.content_eq]
    rcases (hfront line hmem).ending with hcrlf | ⟨hlf, hcr⟩
    · exact .inl (by rw [hcrlf]; rfl)
    · exact .inr ⟨by rw [hlf]; rfl, Text.ofNat_ne_getLast?_bytes (c := '\r') (by decide) hcr⟩
  case last =>
    intro span hspan
    rw [hspans, List.getLast?_concat, Option.mem_some_iff] at hspan
    rw [← hspan, hend.ending_eq, hlast.ending]
    rfl
  case boundary =>
    intro span hspan
    obtain ⟨line, -, hline⟩ := hcut span hspan
    exact hline.boundary
  case whole =>
    have hwhole := flatMap_ofLines 1 [] (Line.ofText text)
    rw [htext] at hwhole
    exact hwhole

/-- Only one carriage return belongs to the end of a line, and the last line may be empty. -/
example : ofText "é\r\r\n\n" = [⟨1, 0, 3, 5⟩, ⟨2, 5, 5, 6⟩, ⟨3, 6, 6, 6⟩] := by
  decide

end Span

end KeyedText
