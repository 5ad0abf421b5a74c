import KeyedText.Encoding.Object
import KeyedText.Proofs.Key.Written
import KeyedText.Proofs.Source.Grammar
import KeyedText.Proofs.Text.Split

/-!
# Written pairs

The text of a pair reads as that pair and as nothing else, whatever follows it: a value on one line
cannot open a block, and a block cannot be closed by its own value. So the text of several pairs
reads as those pairs, one after the other.

## Main definitions

- `scanned` — the value that is read for a written one
- `SelfContained` — text that reads the same whatever follows it
- `Assignable` — a key that can stand in front of an equals sign

## Main statements

- `writePair_selfContained` — the text of a pair reads as its key and value
- `ofText_writePair` — which values are read as they were written, and what becomes of the others
- `concatTexts_selfContained` — the same for several pairs
- `ofText_writtenPairs` — the text of several pairs reads as these pairs
-/

namespace KeyedText

theorem bind_eq_ok {ε α β : Type} {x : Except ε α} {f : α → Except ε β} {b : β} :
    (x >>= f) = .ok b ↔ ∃ a, x = .ok a ∧ f a = .ok b := by
  cases x with
  | error fault => simp [bind, Except.bind]
  | ok a => simp [bind, Except.bind]

theorem map_eq_ok {ε α β : Type} {x : Except ε α} {f : α → β} {b : β} :
    x.map f = .ok b ↔ ∃ a, x = .ok a ∧ f a = b := by
  cases x with
  | error fault => simp [Except.map]
  | ok a => simp [Except.map]

namespace Line

/-- The content of a line is a piece between line feeds, up to a carriage return at its end. -/
def IsPiece (line : Line) (piece : Text) : Prop :=
  piece = line.content ∨ piece = line.content ++ ['\r']

theorem IsPiece.pushFront {lines : List Line} {pieces : List Text} (c : Char)
    (h : List.Forall₂ IsPiece lines pieces) :
    List.Forall₂ IsPiece (pushFront c lines) (Text.pushFront c pieces) := by
  cases h with
  | nil => exact .cons (.inl rfl) .nil
  | cons h hrest =>
    refine .cons ?_ hrest
    rcases h with rfl | rfl
    · exact .inl rfl
    · exact .inr rfl

/-- The lines of a text are its pieces between line feeds, one by one. -/
theorem ofText_pieces (text : Text) :
    List.Forall₂ IsPiece (ofText text) (Text.splitOn '\n' text) := by
  fun_induction ofText text with
  | case1 => exact .cons (.inl rfl) .nil
  | case2 rest ih => exact .cons (.inl rfl) ih
  | case3 rest ih =>
    rw [Text.splitOn, if_neg (by decide), Text.splitOn, if_pos rfl]
    exact .cons (.inr rfl) ih
  | case4 c rest hc _ ih =>
    rw [Text.splitOn, if_neg hc]
    exact IsPiece.pushFront c ih

theorem IsPiece.closesBlock_eq {line : Line} {piece : Text} (h : IsPiece line piece) :
    closesBlock line.content = closesBlock piece := by
  rcases h with rfl | rfl
  · rfl
  · rw [closesBlock, closesBlock, Text.trim_append_of_blank (by decide)]

/-- Some line closes a block exactly when some piece does. -/
theorem any_closesBlock (text : Text) :
    ((ofText text).any fun line => closesBlock line.content) =
      (Text.splitOn '\n' text).any closesBlock := by
  have h := ofText_pieces text
  generalize ofText text = lines at h ⊢
  generalize Text.splitOn '\n' text = pieces at h ⊢
  induction h with
  | nil => rfl
  | cons hline _ ih => rw [List.any_cons, List.any_cons, ih, hline.closesBlock_eq]

end Line

namespace EncodeOptions

variable (options : EncodeOptions)

/-- The part of a line end that stands before the line feed. -/
def returns : Text :=
  if options.crlf then ['\r'] else []

theorem lineEnd_eq : options.lineEnd = options.returns ++ ['\n'] := by
  rw [lineEnd, returns]
  split <;> rfl

theorem ended_lineEnd {content : Text} (hcontent : '\n' ∉ content)
    (hlast : content.getLast? ≠ some '\r') : Line.Ended ⟨content, options.lineEnd⟩ := by
  refine ⟨hcontent, ?_⟩
  rw [lineEnd]
  split
  · exact .inl rfl
  · exact .inr ⟨rfl, hlast⟩

end EncodeOptions

/-- The value that is read for a written one: the same, but that a carriage return at the end of a
block is part of the line end when lines end in line feeds only. -/
def scanned (options : EncodeOptions) (value : Text) : Text :=
  if needsBlock value then Text.dropTerminator (value ++ options.lineEnd) else value

/-- Values that do not end in a carriage return are read as they were written. -/
theorem scanned_eq {options : EncodeOptions} {value : Text}
    (h : options.crlf = true ∨ value.getLast? ≠ some '\r') : scanned options value = value := by
  rw [scanned]
  split
  · rw [EncodeOptions.lineEnd]
    split
    · exact Text.dropTerminator_crlf value
    · next hcrlf => exact Text.dropTerminator_lf (h.resolve_left hcrlf)
  · rfl

/-- Of a value that ends in a carriage return the line feed behind it takes that one with it. -/
theorem scanned_cr {options : EncodeOptions} (front : Text) (h : options.crlf = false) :
    scanned options (front ++ ['\r']) = front := by
  have hblock : needsBlock (front ++ ['\r']) = true := by simp [needsBlock]
  have hend : options.lineEnd = ['\n'] := by simp [EncodeOptions.lineEnd, h]
  rw [scanned, if_pos hblock, hend, Text.dropTerminator_cr]

/-- Line ends behind a text close no block. -/
theorem any_closesBlock_lineEnd (options : EncodeOptions) (value : Text) :
    (Text.splitOn '\n' (value ++ options.lineEnd)).any closesBlock =
      (Text.splitOn '\n' value).any closesBlock := by
  have hempty : closesBlock [] = false := rfl
  rw [options.lineEnd_eq, ← List.append_assoc, Text.splitOn_append, List.any_append, Text.splitOn,
    List.any_cons, List.any_nil, hempty, Bool.or_false, Bool.or_false, EncodeOptions.returns]
  split
  · obtain ⟨front, last, hsplit, happend⟩ :=
      Text.splitOn_append_other '\n' '\r' value (by decide)
    rw [hsplit, happend, List.any_append, List.any_append, List.any_cons, List.any_cons,
      closesBlock, Text.trim_append_of_blank (by decide), closesBlock]
  · rw [List.append_nil]

/-- A value that a block can hold: it is not blank, and none of its lines closes the block. -/
theorem checkBlock_eq_ok_iff {key value : Text} : checkBlock key value = .ok () ↔
    Text.allBlank value = false ∧ (Text.splitOn '\n' value).any closesBlock = false := by
  rw [checkBlock]
  split
  · next h => simp [h]
  · split <;> simp_all

/-! ## Self-contained text -/

/-- What a pair says, apart from where it stands. -/
def RawPair.entry (pair : RawPair) : Text × Option Text :=
  (pair.key, pair.value)

/-- A text of whole lines that reads as the given keys and values, whatever follows it. -/
def SelfContained (text : Text) (found : List (Text × Option Text)) : Prop :=
  ∃ front, (∀ line ∈ front, Line.Ended line) ∧ front.flatMap Line.full = text ∧
    ∀ number rest, ∃ pairs : List RawPair,
      RawPair.scan .between number (front ++ rest) =
        pairs ++ RawPair.scan .between (number + front.length) rest ∧
      pairs.map RawPair.entry = found

namespace SelfContained

variable {first second text : Text} {found more : List (Text × Option Text)}

theorem nil : SelfContained [] [] :=
  ⟨[], by simp, rfl, fun _ _ => ⟨[], rfl, rfl⟩⟩

theorem append (hfirst : SelfContained first found) (hsecond : SelfContained second more) :
    SelfContained (first ++ second) (found ++ more) := by
  obtain ⟨front, hfront, rfl, hscan⟩ := hfirst
  obtain ⟨back, hback, rfl, hscan'⟩ := hsecond
  refine ⟨front ++ back, ?_, List.flatMap_append, ?_⟩
  · intro line hline
    exact (List.mem_append.1 hline).elim (hfront line) (hback line)
  · intro number rest
    obtain ⟨pairs, hpairs, rfl⟩ := hscan number (back ++ rest)
    obtain ⟨pairs', hpairs', rfl⟩ := hscan' (number + front.length) rest
    refine ⟨pairs ++ pairs', ?_, List.map_append⟩
    rw [List.append_assoc, hpairs, hpairs', List.append_assoc, List.length_append, Nat.add_assoc]

theorem ofText_eq (h : SelfContained text found) :
    (RawPair.ofText text).map RawPair.entry = found := by
  obtain ⟨front, hfront, rfl, hscan⟩ := h
  obtain ⟨pairs, hpairs, rfl⟩ := hscan 1 [⟨[], []⟩]
  have hlines : Line.ofText (front.flatMap Line.full) = front ++ [⟨[], []⟩] := by
    have happend := Line.ofText_append hfront []
    rwa [List.append_nil] at happend
  have hnothing : RawPair.scan .between (1 + front.length) [⟨[], []⟩] = [] := by
    simp [RawPair.scan, splitAssignment, Bracket.cut, Bracket.cutFrom]
  rw [RawPair.ofText, RawPair.ofLines, hlines, hpairs, hnothing, List.append_nil]

end SelfContained

/-! ## The text of a pair -/

/-- A text that can stand in front of an equals sign: it has no line feed, and it is read as the key
of its line, whether or not a blank stands behind it. -/
structure Assignable (key : Text) : Prop where
  noLineFeed : '\n' ∉ key
  isKey : ∀ blank rest, blank = [] ∨ blank = [' '] →
    splitAssignment (key ++ blank ++ '=' :: rest) = some (key, rest)

theorem WrittenKey.Accepted.assignable {key : WrittenKey} (h : key.Accepted) :
    Assignable key.text :=
  ⟨fun hmem => (h.no_line_end _ hmem).1 rfl,
    fun blank rest hblank => h.legible.splitAssignment_text blank hblank rest⟩

variable {options : EncodeOptions} {key value text : Text}

/-- The first line of a pair is the assignment that it was written as. -/
theorem splitAssignment_assignment (hkey : Assignable key) (options : EncodeOptions)
    (value : Text) : ∃ rest, splitAssignment (assignment options key value) = some (key, rest) ∧
      Text.trim rest = Text.trim value := by
  rw [assignment]
  split
  · refine ⟨value, ?_, rfl⟩
    simpa using hkey.isKey [] value (.inl rfl)
  · split
    · next hempty =>
      rw [List.isEmpty_iff] at hempty
      subst hempty
      refine ⟨[], ?_, rfl⟩
      simpa using hkey.isKey [' '] [] (.inr rfl)
    · refine ⟨' ' :: value, ?_, Text.trim_cons_of_blank (by decide)⟩
      simpa using hkey.isKey [' '] (' ' :: value) (.inr rfl)

/-- The assignment of a value without line ends is a line of its own. -/
theorem ended_assignment (options : EncodeOptions) (hkey : Assignable key)
    (hvalue : ∀ c ∈ value, c ≠ '\n' ∧ c ≠ '\r') :
    Line.Ended ⟨assignment options key value, options.lineEnd⟩ := by
  obtain ⟨behind, hassigned, hne, hbehind⟩ : ∃ behind, assignment options key value =
      key ++ behind ∧ behind ≠ [] ∧ ∀ c ∈ behind, c ≠ '\n' ∧ c ≠ '\r' := by
    rw [assignment]
    split
    · exact ⟨['='] ++ value, by simp, by simp, by simpa using hvalue⟩
    · split
      · exact ⟨[' ', '='] ++ value, by simp, by simp, by simpa using hvalue⟩
      · exact ⟨[' ', '=', ' '] ++ value, by simp, by simp, by simpa using hvalue⟩
  rw [hassigned]
  apply options.ended_lineEnd
  · intro hmem
    rcases List.mem_append.1 hmem with hmem | hmem
    · exact hkey.noLineFeed hmem
    · exact (hbehind _ hmem).1 rfl
  · -- the key may end in a carriage return, but the equals sign stands behind it
    rw [List.getLast?_append_of_ne_nil _ hne]
    exact fun hlast => (hbehind _ (List.mem_of_getLast? hlast)).2 rfl

/-- A value on the line of its key reads as it was written. -/
theorem inline_selfContained (hkey : Assignable key) (hvalue : needsBlock value = false) :
    SelfContained (assignment options key value ++ options.lineEnd) [(key, some value)] := by
  simp only [needsBlock, Bool.or_eq_false_iff, List.any_eq_false, bne_eq_false_iff_eq,
    beq_eq_false_iff_ne, Bool.or_eq_true, beq_iff_eq, not_or] at hvalue
  obtain ⟨⟨hends, htrim⟩, hopen⟩ := hvalue
  obtain ⟨rest, hsplit, hrest⟩ := splitAssignment_assignment hkey options value
  refine ⟨[⟨assignment options key value, options.lineEnd⟩], ?_, by simp [Line.full], ?_⟩
  · simpa using ended_assignment options hkey hends
  · intro number later
    -- a value that looks like the start of a block is written as a block
    have hplain : ¬(opensBlock rest = true ∧
        ∃ line ∈ later, closesBlock line.content = true) := by
      rintro ⟨hblock, -⟩
      rw [opensBlock_iff, hrest, htrim] at hblock
      exact hopen hblock
    refine ⟨[⟨key, some value, number⟩], ?_, rfl⟩
    rw [List.singleton_append, RawPair.scan_single hsplit hplain, hrest, htrim]
    rfl

/-- The value of a written block is not blank when it is read. -/
theorem between_block (hblank : Text.allBlank value = false) :
    RawPair.between (value ++ options.lineEnd) =
      some (Text.dropTerminator (value ++ options.lineEnd)) := by
  rw [RawPair.between, if_neg]
  rw [Bool.not_eq_true, EncodeOptions.lineEnd]
  split
  · rwa [Text.dropTerminator_crlf]
  · by_cases hlast : value.getLast? = some '\r'
    · -- the carriage return that is lost was a blank
      obtain ⟨front, rfl⟩ := List.getLast?_eq_some_iff.1 hlast
      rw [Text.dropTerminator_cr]
      rw [Text.allBlank, List.all_append, Bool.and_eq_false_iff] at hblank
      exact hblank.resolve_right (by decide)
    · rwa [Text.dropTerminator_lf hlast]

/-- A block reads as its value, since no line of the value closes it. -/
theorem block_selfContained (options : EncodeOptions) (hkey : Assignable key)
    (hvalue : checkBlock key value = .ok ()) :
    SelfContained (assignment options key ['\x7b'] ++ options.lineEnd ++ value ++
      options.lineEnd ++ ['\x7d'] ++ options.lineEnd)
      [(key, some (Text.dropTerminator (value ++ options.lineEnd)))] := by
  obtain ⟨hblank, hclose⟩ := checkBlock_eq_ok_iff.1 hvalue
  obtain ⟨rest, hsplit, hrest⟩ := splitAssignment_assignment hkey options ['\x7b']
  obtain ⟨body, hbody, hfull, hlines⟩ := Line.exists_ended (value ++ options.returns)
  rw [List.append_assoc, ← options.lineEnd_eq] at hfull hlines
  -- the check is on the pieces between line feeds, the scan goes by lines
  have hnone : ∀ inner ∈ body, closesBlock inner.content = false := by
    have hany := Line.any_closesBlock (value ++ options.lineEnd)
    rw [hlines, any_closesBlock_lineEnd, hclose, List.any_append, Bool.or_eq_false_iff] at hany
    simpa using hany.1
  refine ⟨⟨assignment options key ['\x7b'], options.lineEnd⟩ ::
    (body ++ [⟨['\x7d'], options.lineEnd⟩]), ?_, ?_, ?_⟩
  · intro line hline
    rw [List.mem_cons, List.mem_append, List.mem_singleton] at hline
    rcases hline with rfl | hline | rfl
    · exact ended_assignment options hkey (by simp)
    · exact hbody line hline
    · exact options.ended_lineEnd (by simp) (by simp)
  · simp [List.flatMap_cons, hfull, Line.full]
  · intro number later
    refine ⟨[⟨key, some (Text.dropTerminator (value ++ options.lineEnd)), number⟩], ?_, rfl⟩
    have hblock : RawPair.scan .between number
        (⟨assignment options key ['\x7b'], options.lineEnd⟩ ::
          (body ++ ⟨['\x7d'], options.lineEnd⟩ :: later)) = _ :=
      RawPair.scan_block hsplit (opensBlock_iff.2 hrest) hnone (by rfl)
    rw [RawPair.blockValue_eq_between hbody, hfull, between_block hblank] at hblock
    simpa [Nat.add_assoc] using hblock

/-- The text of a pair reads as its key and value, whatever follows it. -/
theorem writePair_selfContained (hkey : Assignable key)
    (h : writePair options key value = .ok text) :
    SelfContained text [(key, some (scanned options value))] := by
  rw [writePair] at h
  rw [scanned]
  split at h
  · next hblock =>
    obtain ⟨_, hcheck, htext⟩ := bind_eq_ok.1 h
    obtain rfl := Except.ok.inj htext
    rw [if_pos hblock]
    exact block_selfContained options hkey hcheck
  · next hblock =>
    obtain rfl := Except.ok.inj h
    rw [if_neg hblock]
    exact inline_selfContained hkey (by simpa using hblock)

/-- **Which values are read as they were written.** The text of a pair reads as one pair with its
key. The value is the same, character for character, unless it ends in a carriage return and lines
end in line feeds only: then that carriage return is lost. -/
theorem ofText_writePair {key : WrittenKey} (hkey : key.Accepted)
    (h : writePair options key.text value = .ok text) :
    (options.crlf = true ∨ value.getLast? ≠ some '\r' →
        (RawPair.ofText text).map RawPair.entry = [(key.text, some value)]) ∧
      ∀ front, options.crlf = false → value = front ++ ['\r'] →
        (RawPair.ofText text).map RawPair.entry = [(key.text, some front)] := by
  have hread := (writePair_selfContained hkey.assignable h).ofText_eq
  refine ⟨fun hlast => ?_, fun front hcrlf hvalue => ?_⟩
  · rw [hread, scanned_eq hlast]
  · rw [hread, hvalue, scanned_cr front hcrlf]

/-- A key with an index, for a value that looks like the start of a block. -/
def bracedKey : WrittenKey := [⟨['x'], [['=']]⟩]

/-- A line that opens a block is a value like any other, and so is the carriage return behind it
when lines end in carriage returns anyway. -/
theorem ofText_writePair_braced : bracedKey.Accepted ∧
    ∃ text, writePair ⟨true, true⟩ bracedKey.text "\x7b\n\r".toList = .ok text ∧
      (RawPair.ofText text).map RawPair.entry = [(bracedKey.text, some "\x7b\n\r".toList)] := by
  have hkey : bracedKey.Accepted := by decide
  exact ⟨hkey, _, rfl, (ofText_writePair hkey rfl).1 (.inl rfl)⟩

/-- Not every value that can be written is read as it was: of `a` with a carriage return behind it
only `a` comes back. -/
theorem not_forall_verbatim : ¬∀ (options : EncodeOptions) (key : WrittenKey) (value text : Text),
    key.Accepted → writePair options key.text value = .ok text →
      (RawPair.ofText text).map RawPair.entry = [(key.text, some value)] := by
  intro hverbatim
  have hread := hverbatim {} [⟨['x'], []⟩] ['a', '\r'] _ (by decide) rfl
  exact absurd hread (by decide)

/-! ## The text of several pairs -/

theorem concatTexts_cons_eq_ok {α : Type} {encode : α → Except EncodeFault Text} {part : α}
    {parts : List α} : concatTexts encode (part :: parts) = .ok text ↔
      ∃ own more, encode part = .ok own ∧ concatTexts encode parts = .ok more ∧
        text = own ++ more := by
  rw [concatTexts, bind_eq_ok]
  constructor
  · rintro ⟨own, hown, h⟩
    obtain ⟨more, hmore, h⟩ := bind_eq_ok.1 h
    exact ⟨own, more, hown, hmore, (Except.ok.inj h).symm⟩
  · rintro ⟨own, more, hown, hmore, rfl⟩
    exact ⟨own, hown, bind_eq_ok.2 ⟨more, hmore, rfl⟩⟩

theorem concatTexts_congr {α : Type} {encode encode' : α → Except EncodeFault Text}
    {parts : List α} (h : ∀ part ∈ parts, encode part = encode' part) :
    concatTexts encode parts = concatTexts encode' parts := by
  induction parts with
  | nil => rfl
  | cons part parts ih =>
    rw [concatTexts, concatTexts, h part List.mem_cons_self,
      ih fun other hother => h other (List.mem_cons_of_mem _ hother)]

theorem concatTexts_append {α : Type} {encode : α → Except EncodeFault Text} {parts more : List α}
    {text text' : Text} (h : concatTexts encode parts = .ok text)
    (hmore : concatTexts encode more = .ok text') :
    concatTexts encode (parts ++ more) = .ok (text ++ text') := by
  induction parts generalizing text with
  | nil =>
    obtain rfl := Except.ok.inj h
    exact hmore
  | cons part parts ih =>
    obtain ⟨own, rest, hown, hrest, rfl⟩ := concatTexts_cons_eq_ok.1 h
    exact concatTexts_cons_eq_ok.2 ⟨own, rest ++ text', hown, ih hrest, List.append_assoc ..⟩

/-- The text of several pairs reads as these pairs, whatever follows it. -/
theorem concatTexts_selfContained {α : Type} {keyOf valueOf : α → Text} {parts : List α}
    (hkeys : ∀ part ∈ parts, Assignable (keyOf part))
    (h : concatTexts (fun part => writePair options (keyOf part) (valueOf part)) parts =
      .ok text) :
    SelfContained text
      (parts.map fun part => (keyOf part, some (scanned options (valueOf part)))) := by
  induction parts generalizing text with
  | nil =>
    obtain rfl := Except.ok.inj h
    exact .nil
  | cons part parts ih =>
    obtain ⟨hkey, hkeys⟩ := List.forall_mem_cons.1 hkeys
    obtain ⟨own, more, hown, hmore, rfl⟩ := concatTexts_cons_eq_ok.1 h
    exact (writePair_selfContained hkey hown).append (ih hkeys hmore)

/-- The text of a pair, as one of several. -/
def writeOne (options : EncodeOptions) (pair : WrittenKey × Text) : Except EncodeFault Text :=
  writePair options pair.1.text pair.2

theorem writeAll_selfContained {pairs : List (WrittenKey × Text)}
    (hkeys : ∀ pair ∈ pairs, pair.1.Accepted)
    (h : concatTexts (writeOne options) pairs = .ok text) :
    SelfContained text
      (pairs.map fun pair => (pair.1.text, some (scanned options pair.2))) :=
  concatTexts_selfContained (fun pair hpair => (hkeys pair hpair).assignable) h

/-- **Written pairs read as they were written.** Each of them is found once and in its place, under
the key that it was written under and with the value that its own text has when it stands alone. -/
theorem ofText_writtenPairs {pairs : List (WrittenKey × Text)}
    (hkeys : ∀ pair ∈ pairs, pair.1.Accepted)
    (h : concatTexts (writeOne options) pairs = .ok text) :
    List.Forall₂ (fun pair raw => raw.key = pair.1.text ∧
        ∃ own, writeOne options pair = .ok own ∧
          (RawPair.ofText own).map RawPair.entry = [raw.entry])
      pairs (RawPair.ofText text) := by
  have hfound := (writeAll_selfContained hkeys h).ofText_eq
  -- the pairs that are found are known as a whole; now one by one
  generalize RawPair.ofText text = found at hfound ⊢
  induction pairs generalizing text found with
  | nil =>
    obtain rfl := List.map_eq_nil_iff.1 hfound
    exact .nil
  | cons pair pairs ih =>
    obtain ⟨own, more, hown, hmore, -⟩ := concatTexts_cons_eq_ok.1 h
    obtain ⟨raw, rest, rfl, hraw, hrest⟩ := List.map_eq_cons_iff.1 hfound
    refine .cons ⟨congrArg Prod.fst hraw, own, hown, ?_⟩
      (ih (fun other hother => hkeys other (by simp [hother])) hmore rest hrest)
    rw [hraw]
    exact (writePair_selfContained (hkeys pair (by simp)).assignable hown).ofText_eq

/-- Values that look like pairs, like the start of a block and like its end. -/
def forgedPairs : List (WrittenKey × Text) :=
  [([⟨"a".toList, ["x=y".toList]⟩, ⟨"b".toList, []⟩], "\x7b\nc = 1\n\x7d x".toList),
   ([⟨"c".toList, []⟩], "\x7b".toList), ([⟨"d".toList, ["".toList]⟩], "\x7d".toList)]

/-- Values that look like pairs, like the start of a block and like its end read as values. -/
theorem ofText_forgedPairs : ∃ text, concatTexts (writeOne {}) forgedPairs = .ok text ∧
    List.Forall₂ (fun pair raw => raw.key = pair.1.text ∧
        ∃ own, writeOne {} pair = .ok own ∧ (RawPair.ofText own).map RawPair.entry = [raw.entry])
      forgedPairs (RawPair.ofText text) := by
  have hkeys : ∀ pair ∈ forgedPairs, pair.1.Accepted := by decide
  exact ⟨_, rfl, ofText_writtenPairs hkeys rfl⟩

end KeyedText
