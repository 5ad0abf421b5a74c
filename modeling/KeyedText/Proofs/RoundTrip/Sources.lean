import KeyedText.Proofs.Encoding.Pairs
import KeyedText.Proofs.Source.Rendered

/-!
# Pairs that are written back

Whatever is read from a source can be written again. A key that was read can stand in front of
another equals sign. A value that was read on the line of its key is blank only when it is empty,
and no line of a value that was read from a block closes the block. Where lines end in a carriage
return and a line feed nothing of a value is lost, so what is written is read as the same keys and
values.

## Main definitions

- `RawPair.Writable` — a pair that the writer accepts
- `RawPair.present` — the keys and values of the pairs that have a value

## Main statements

- `RawPair.Reads.writable` — the pairs of a source can be written
- `RawPair.entries_writtenBack` — they are the same when they are read again
-/

namespace KeyedText

variable {options : EncodeOptions} {text line key rest value : Text} {body : List Line}

/-! ## Keys and values of a source -/

theorem trim_key_of_splitAssignment (h : splitAssignment line = some (key, rest)) :
    Text.trim key = key := by
  rw [splitAssignment] at h
  cases hcut : Bracket.cut '=' line with
  | none => simp [hcut] at h
  | some cut =>
    obtain ⟨before, after⟩ := cut
    simp only [hcut] at h
    split at h
    · exact absurd h (by simp)
    · obtain ⟨rfl, -⟩ := Prod.mk.inj (Option.some.inj h)
      exact Text.trim_trim before

/-- The key of a line can stand in front of another equals sign. -/
theorem assignable_of_splitAssignment (h : splitAssignment line = some (key, rest))
    (hline : '\n' ∉ line) : Assignable key := by
  obtain ⟨hsealed, hblank, hkey, -⟩ := splitAssignment_eq_some h
  have htrim : Text.trim key = key := trim_key_of_splitAssignment h
  have hne : key ≠ [] := by
    rintro rfl
    exact absurd hblank (by decide)
  exact ⟨fun hmem => hline (hkey hmem),
    fun blank rest hblank => splitAssignment_of_sealed hsealed htrim hne hblank rest⟩

/-- A value on the line of its key fits into a block, if it needs one. -/
theorem checkBlock_trim (hrest : '\n' ∉ rest) (hblock : needsBlock (Text.trim rest) = true)
    (key : Text) : checkBlock key (Text.trim rest) = .ok () := by
  have htrim := Text.trim_trim rest
  have hplain : '\n' ∉ Text.trim rest := fun hmem => hrest (Text.trim_subset rest hmem)
  generalize Text.trim rest = value at *
  rw [checkBlock_eq_ok_iff, ← Line.any_closesBlock, Line.ofText_of_not_mem hplain, List.any_cons,
    List.any_nil, Bool.or_false, closesBlock_eq_false_iff, htrim]
  -- neither the empty value nor a closing brace needs a block
  constructor
  · apply Text.allBlank_eq_false htrim
    rintro rfl
    exact absurd hblock (by decide)
  · rintro rfl
    exact absurd hblock (by decide)

/-- The lines of a block fit into a block again. -/
theorem checkBlock_joined (hbody : ∀ inner ∈ body, inner.Ended)
    (hopen : ∀ inner ∈ body, closesBlock inner.content = false)
    (hblank : Text.allBlank (Line.joined body) = false) (key : Text) :
    checkBlock key (Line.joined body) = .ok () := by
  rw [checkBlock_eq_ok_iff, ← Line.any_closesBlock]
  refine ⟨hblank, ?_⟩
  rcases List.eq_nil_or_concat body with rfl | ⟨init, last, rfl⟩
  · exact absurd hblank (by decide)
  · rw [List.concat_eq_append] at *
    have hinit : ∀ inner ∈ init, inner.Ended := fun inner hmem => hbody inner (by simp [hmem])
    have hlast : '\n' ∉ last.content := (hbody last (by simp)).content
    -- without the end of its last line, the text has the same lines
    rw [Line.joined_concat, Line.ofText_append hinit, Line.ofText_of_not_mem hlast]
    simpa [or_imp, forall_and] using hopen

/-! ## Pairs of a source -/

namespace RawPair

variable {number : Nat} {lines : List Line} {pairs : List RawPair}

/-- A pair that the writer accepts: its key can stand in front of an equals sign, and its value fits
into a block, if it needs one. -/
structure Writable (pair : RawPair) : Prop where
  key : Assignable pair.key
  value : ∀ value, pair.value = some value → needsBlock value = true →
    checkBlock pair.key value = .ok ()

theorem Writable.exists_writePair {pair : RawPair} (h : pair.Writable)
    (hvalue : pair.value = some value) (options : EncodeOptions) :
    ∃ written, writePair options pair.key value = .ok written := by
  rw [writePair]
  split
  · next hblock =>
    rw [h.value value hvalue hblock]
    exact ⟨_, rfl⟩
  · exact ⟨_, rfl⟩

/-- The pairs that the last lines of a text stand for can be written. -/
theorem Reads.writable (h : Reads number lines pairs) (earlier : List Line)
    (htext : Line.ofText text = earlier ++ lines) : ∀ pair ∈ pairs, pair.Writable := by
  induction h generalizing earlier with
  | done => simp
  | skip hsplit hrest ih => exact ih (earlier ++ [_]) (by simpa using htext)
  | @block number line close key value body rest pairs hsplit hopen hended hbody hclose hrest ih =>
    have hinner : ∀ inner ∈ body, inner.Ended := fun inner hmem =>
      Line.ended_of_ofText (earlier ++ line :: body) (close :: rest)
        (by simpa using htext) (by simp) inner (by simp [hmem])
    have hline : line ∈ Line.ofText text := by simp [htext]
    have hplain : '\n' ∉ line.content := not_mem_of_mem_ofText hline
    rw [List.forall_mem_cons]
    refine ⟨⟨assignable_of_splitAssignment hsplit hplain, fun own hown _ => ?_⟩,
      ih (earlier ++ line :: (body ++ [close])) (by simpa using htext)⟩
    simp only [← blockValue_eq_between hinner, blockValue] at hown
    split at hown
    · exact absurd hown (by simp)
    · next hblank =>
      obtain rfl := Option.some.inj hown
      exact checkBlock_joined hinner
        (fun inner hmem => closesBlock_eq_false_iff.2 (hbody inner hmem)) (by simpa using hblank) _
  | @single number line key value rest pairs hsplit _ hrest ih =>
    have hline : line ∈ Line.ofText text := by simp [htext]
    have hplain : '\n' ∉ line.content := not_mem_of_mem_ofText hline
    rw [List.forall_mem_cons]
    refine ⟨⟨assignable_of_splitAssignment hsplit hplain, fun own hown hblock => ?_⟩,
      ih (earlier ++ [line]) (by simpa using htext)⟩
    obtain rfl := Option.some.inj hown
    have hvalue : '\n' ∉ value := fun hmem => hplain ((splitAssignment_eq_some hsplit).2.2.2 hmem)
    exact checkBlock_trim hvalue hblock _

/-- The keys and values of the pairs that have a value. -/
def present (pairs : List RawPair) : List (Text × Text) :=
  pairs.filterMap fun pair => pair.value.map fun value => (pair.key, value)

theorem mem_present : (key, value) ∈ present pairs ↔
    ∃ pair ∈ pairs, pair.key = key ∧ pair.value = some value := by
  simp [present, and_comm]

theorem writable_ofText (text : Text) : ∀ pair ∈ ofText text, pair.Writable :=
  ((reads_iff [] rfl).2 rfl : Reads 1 (Line.ofText text) (ofText text)).writable [] rfl

end RawPair

/-- Texts are put one behind the other if each of them can be written. -/
theorem exists_concatTexts {α : Type} {encode : α → Except EncodeFault Text} {parts : List α}
    (h : ∀ part ∈ parts, ∃ own, encode part = .ok own) :
    ∃ text, concatTexts encode parts = .ok text := by
  induction parts with
  | nil => exact ⟨[], rfl⟩
  | cons part parts ih =>
    obtain ⟨⟨own, hown⟩, hparts⟩ := List.forall_mem_cons.1 h
    obtain ⟨more, hmore⟩ := ih hparts
    exact ⟨own ++ more, concatTexts_cons_eq_ok.2 ⟨own, more, hown, hmore, rfl⟩⟩

/-- **Everything that is read can be written back.** Each pair of a source that has a value can be
written, and when the lines that are written end in a carriage return and a line feed, they are
read as the same keys and values. -/
theorem RawPair.entries_writtenBack (text : Text) :
    (∀ options, ∀ pair ∈ ofText text, ∀ value, pair.value = some value →
      ∃ written, writePair options pair.key value = .ok written) ∧
    ∀ compact, ∃ written,
      concatTexts (fun own => writePair ⟨compact, true⟩ own.1 own.2) (present (ofText text)) =
        .ok written ∧
      (ofText written).map entry =
        (present (ofText text)).map fun own => (own.1, some own.2) := by
  have hpairs := writable_ofText text
  refine ⟨fun options pair hpair value hvalue => ?_, fun compact => ?_⟩
  · exact (hpairs pair hpair).exists_writePair hvalue options
  · have hone : ∀ own ∈ present (ofText text),
        ∃ written, writePair ⟨compact, true⟩ own.1 own.2 = .ok written := by
      intro own hown
      obtain ⟨pair, hpair, hkey, hvalue⟩ := mem_present.1 hown
      rw [← hkey]
      exact (hpairs pair hpair).exists_writePair hvalue _
    have hkeys : ∀ own ∈ present (ofText text), Assignable own.1 := by
      intro own hown
      obtain ⟨pair, hpair, hkey, -⟩ := mem_present.1 hown
      rw [← hkey]
      exact (hpairs pair hpair).key
    obtain ⟨written, hwritten⟩ := exists_concatTexts hone
    refine ⟨written, hwritten, ?_⟩
    rw [(concatTexts_selfContained hkeys hwritten).ofText_eq]
    apply List.map_congr_left
    intro own _
    rw [scanned_eq (.inl rfl)]

/-- Where lines end in line feeds alone, a carriage return at the end of a block is lost. -/
example : (RawPair.ofText "a = \x7b\nb\r\r\n\x7d".toList).map RawPair.entry =
      [("a".toList, some "b\r".toList)] ∧
    ∃ written, writePair ⟨false, false⟩ "a".toList "b\r".toList = .ok written ∧
      (RawPair.ofText written).map RawPair.entry = [("a".toList, some "b".toList)] :=
  ⟨by decide, _, rfl, by decide⟩

end KeyedText
