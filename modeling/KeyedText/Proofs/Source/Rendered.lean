import KeyedText.Proofs.Key.Rendered
import KeyedText.Proofs.Source.Grammar
import KeyedText.Proofs.Text.Split
import KeyedText.Source.Content

/-!
# Rendered pairs

A pair shows itself as one line: its key, an equals sign and its value. Pairs whose values stand on
one line, put one below the other, are read as the same pairs again. None of their lines closes a
block, so that a value that is just `{` opens none.

## Main definitions

- `RawPair.OnOneLine` — the value of a pair is the rest of its line

## Main statements

- `Line.ofText_join` — texts put one below the other are the lines
- `RawPair.scan_assignments` — lines that close no block are pairs of their own
- `RawPair.pairs_join` — what the texts of pairs are read as
- `Content.sameAll_ofText_rendered` — the pairs are the same when they are read again
-/

namespace KeyedText

/-- The value of a pair is what its line holds behind the equals sign, and no block. -/
def RawPair.OnOneLine (text : Text) (pair : RawPair) : Prop :=
  ∃ line rest, (Line.ofText text)[pair.line - 1]? = some line ∧
    splitAssignment line.content = some (pair.key, rest) ∧ pair.value = some (Text.trim rest)

variable {text key rest : Text} {lines : List Line} {pair : RawPair}

/-! ## Lines one below the other -/

/-- Texts that are put one below the other are the contents of the lines. -/
theorem Line.ofText_join {contents : List Text} (hne : contents ≠ [])
    (h : ∀ content ∈ contents, '\n' ∉ content ∧ content.getLast? ≠ some '\r') :
    (Line.ofText (Text.join ['\n'] contents)).map Line.content = contents := by
  induction contents, hne using List.recNeNil with
  | singleton content =>
    have hcontent := (h content (by simp)).1
    rw [Text.join, Line.ofText_of_not_mem hcontent]
    rfl
  | cons content contents hne ih =>
    obtain ⟨⟨hcontent, hlast⟩, hrest⟩ := List.forall_mem_cons.1 h
    have hended : Line.Ended ⟨content, ['\n']⟩ := ⟨hcontent, .inr ⟨rfl, hlast⟩⟩
    have hlines := hended.ofText_append (Text.join ['\n'] contents)
    rw [Line.full] at hlines
    rw [Text.join_cons hne, hlines, List.map_cons, ih hrest]

theorem not_mem_of_mem_ofText {line : Line} (h : line ∈ Line.ofText text) :
    '\n' ∉ line.content := by
  obtain ⟨front, last, heq, hfront, hlast, -⟩ := Line.cut_ofText text
  rw [heq, List.mem_append, List.mem_singleton] at h
  rcases h with h | rfl
  · exact (hfront line h).content
  · exact hlast.content

/-! ## Lines that are assignments -/

theorem Text.mem_trim {c : Char} (hc : Text.isBlank c = false) (text : Text) :
    (c ∈ Text.trim text) = (c ∈ text) := by
  have hne : ∀ d, Text.isBlank d = true → c ≠ d := by
    rintro d hd rfl
    simp [hc] at hd
  refine Text.trim_invariant (fun text => c ∈ text) ?_ ?_ text
  · intro d text hd
    simp [hne d hd]
  · intro d text hd
    simp [hne d hd]

/-- An assignment closes no block, since it holds an equals sign. -/
theorem closesBlock_of_splitAssignment (h : splitAssignment text = some (key, rest)) :
    closesBlock text = false := by
  have hsign : '=' ∈ text := by
    rw [splitAssignment] at h
    cases hcut : Bracket.cut '=' text with
    | none => simp [hcut] at h
    | some cut =>
      obtain ⟨before, after⟩ := cut
      rw [(Bracket.sealed_of_cutFrom hcut).2]
      simp
  rw [closesBlock_eq_false_iff]
  intro htrim
  rw [← Text.mem_trim (by decide), htrim] at hsign
  simp at hsign

/-- Where no line closes a block, every assignment is a pair of its own, whatever its value looks
like. -/
theorem RawPair.scan_assignments (number : Nat)
    (h : ∀ line ∈ lines, closesBlock line.content = false) :
    (RawPair.scan .between number lines).map RawPair.toPair =
      ((lines.map Line.content).filterMap splitAssignment).map fun own =>
        Pair.ofText own.1 (some (Text.trim own.2)) := by
  induction lines generalizing number with
  | nil => rfl
  | cons line lines ih =>
    obtain ⟨-, hrest⟩ := List.forall_mem_cons.1 h
    cases hsplit : splitAssignment line.content with
    | none => rw [scan_skip hsplit, ih _ hrest, List.map_cons, List.filterMap_cons_none hsplit]
    | some own =>
      obtain ⟨key, value⟩ := own
      have hplain : ¬(opensBlock value = true ∧
          ∃ later ∈ lines, closesBlock later.content = true) := by
        rintro ⟨-, later, hlater, hclose⟩
        rw [hrest later hlater] at hclose
        exact Bool.false_ne_true hclose
      rw [scan_single hsplit hplain, List.map_cons, ih _ hrest, List.map_cons,
        List.filterMap_cons_some hsplit]
      rfl

/-! ## Pairs that are read again -/

/-- The text of a pair is an assignment of its value to the key that it shows. -/
theorem RawPair.OnOneLine.splitAssignment_text (h : pair.OnOneLine text) :
    splitAssignment pair.toPair.text =
      some ((KeyPath.ofText pair.key).render, pair.value.getD []) := by
  obtain ⟨line, rest, -, hsplit, hvalue⟩ := h
  obtain ⟨hsealed, hblank, -⟩ := splitAssignment_eq_some hsplit
  have hlegible := KeyPath.legible_written hsealed hblank
  have hread := hlegible.splitAssignment_text [] (.inl rfl) (pair.value.getD [])
  rw [List.append_nil, KeyPath.text_written] at hread
  exact hread

/-- A pair is the same when it is read from its own text. -/
theorem RawPair.OnOneLine.same_toPair (h : pair.OnOneLine text) :
    (Pair.ofText (KeyPath.ofText pair.key).render (some (Text.trim (pair.value.getD [])))).same
      pair.toPair = true := by
  obtain ⟨line, rest, -, hsplit, hvalue⟩ := h
  obtain ⟨hsealed, hblank, -⟩ := splitAssignment_eq_some hsplit
  have hkey := KeyPath.same_ofText_render hsealed hblank
  have htrim : Text.trim (pair.value.getD []) = Text.trim rest := by
    rw [hvalue, Option.getD_some, Text.trim_trim]
  rw [Pair.same, Pair.ofText, RawPair.toPair, Pair.ofText, hkey, htrim, hvalue]
  simp

/-- The text of a pair is one line. -/
theorem RawPair.OnOneLine.text_line (h : pair.OnOneLine text) :
    '\n' ∉ pair.toPair.text ∧ pair.toPair.text.getLast? ≠ some '\r' := by
  obtain ⟨line, rest, hline, hsplit, hvalue⟩ := h
  obtain ⟨-, hblank, hkey, hrest⟩ := splitAssignment_eq_some hsplit
  have hplain := not_mem_of_mem_ofText (List.mem_of_getElem? hline)
  have htext : pair.toPair.text = (KeyPath.ofText pair.key).render ++ '=' :: Text.trim rest := by
    rw [Pair.text, RawPair.toPair, Pair.ofText, hvalue]
    rfl
  rw [htext]
  constructor
  · intro hmem
    rcases List.mem_append.1 hmem with hmem | hmem
    · rcases KeyPath.render_subset hblank '\n' hmem with hmem | hmem | hmem | hmem
      · exact hplain (hkey hmem)
      · exact absurd hmem (by decide)
      · exact absurd hmem (by decide)
      · exact absurd hmem (by decide)
    · rcases List.mem_cons.1 hmem with hmem | hmem
      · exact absurd hmem (by decide)
      · exact hplain (hrest (Text.trim_subset rest hmem))
  · -- the value ends in no blank, and before it stands the equals sign
    intro hlast
    have hvalue := (Text.trim_eq_self_iff.1 (Text.trim_trim rest)).2 '\r'
    rw [List.getLast?_append, List.getLast?_cons] at hlast
    cases htrim : (Text.trim rest).getLast? with
    | none => simp [htrim] at hlast
    | some c =>
      have hc : c = '\r' := by simpa [htrim] using hlast
      rw [htrim, hc] at hvalue
      exact absurd (hvalue rfl) (by decide)

theorem Pair.sameAll_map {α : Type} {left right : α → Pair} {items : List α}
    (h : ∀ item ∈ items, (left item).same (right item) = true) :
    Pair.sameAll (items.map left) (items.map right) = true := by
  induction items with
  | nil => rfl
  | cons item items ih =>
    obtain ⟨hitem, hrest⟩ := List.forall_mem_cons.1 h
    rw [List.map_cons, List.map_cons, Pair.sameAll, hitem, ih hrest]
    rfl

section

variable {pairs : List RawPair}

/-- The texts of pairs, one below the other, are the lines of what they are joined to. -/
theorem RawPair.lines_join (h : ∀ pair ∈ pairs, pair.OnOneLine text) (hne : pairs ≠ []) :
    (Line.ofText (Text.join ['\n'] (pairs.map fun pair => pair.toPair.text))).map Line.content =
      pairs.map fun pair => pair.toPair.text := by
  refine Line.ofText_join (by simpa using hne) fun content hcontent => ?_
  obtain ⟨pair, hpair, rfl⟩ := List.mem_map.1 hcontent
  exact (h pair hpair).text_line

/-- The texts of pairs, one below the other, are read as the keys that the pairs show with their
values. -/
theorem RawPair.pairs_join (h : ∀ pair ∈ pairs, pair.OnOneLine text) :
    (Content.ofText (Text.join ['\n'] (pairs.map fun pair => pair.toPair.text))).pairs =
      pairs.map fun pair =>
        Pair.ofText (KeyPath.ofText pair.key).render (some (Text.trim (pair.value.getD []))) := by
  rcases eq_or_ne pairs [] with rfl | hne
  · -- without pairs there is only the empty line
    rfl
  · have hlines := RawPair.lines_join h hne
    have hopen : ∀ line ∈ Line.ofText (Text.join ['\n'] (pairs.map fun pair => pair.toPair.text)),
        closesBlock line.content = false := by
      intro line hline
      have hcontent := List.mem_map_of_mem (f := Line.content) hline
      rw [hlines] at hcontent
      obtain ⟨pair, hpair, heq⟩ := List.mem_map.1 hcontent
      rw [← heq]
      exact closesBlock_of_splitAssignment (h pair hpair).splitAssignment_text
    have hassigned : (pairs.map fun pair => pair.toPair.text).filterMap splitAssignment =
        pairs.map fun pair => ((KeyPath.ofText pair.key).render, pair.value.getD []) := by
      rw [List.filterMap_map, ← List.filterMap_eq_map]
      exact List.filterMap_congr fun pair hpair => (h pair hpair).splitAssignment_text
    have hread := RawPair.scan_assignments 1 hopen
    rw [hlines, hassigned, List.map_map] at hread
    exact hread

end

/-- The pairs of a text whose values all stand on one line are read again from their own texts, one
below the other. The key of any assignment is read again from what it shows, which has no equals
sign outside brackets and no bracket that is left open. -/
theorem Content.sameAll_ofText_rendered :
    (∀ text, (∀ pair ∈ RawPair.ofText text, pair.OnOneLine text) →
      Pair.sameAll
        (Content.ofText (Text.join ['\n'] ((Content.ofText text).pairs.map Pair.text))).pairs
        (Content.ofText text).pairs = true) ∧
    ∀ line key rest, splitAssignment line = some (key, rest) →
      (KeyPath.ofText (KeyPath.ofText key).render).same (KeyPath.ofText key) = true ∧
        Bracket.cut '=' (KeyPath.ofText key).render = none ∧
        Bracket.depthAfter 0 (KeyPath.ofText key).render = 0 := by
  constructor
  · intro text h
    have hpairs : (Content.ofText text).pairs = (RawPair.ofText text).map RawPair.toPair := rfl
    rw [hpairs, List.map_map]
    have hread := RawPair.pairs_join h
    change Pair.sameAll (Content.ofText (Text.join ['\n']
      ((RawPair.ofText text).map fun pair => pair.toPair.text))).pairs _ = true
    rw [hread]
    exact Pair.sameAll_map fun pair hpair => (h pair hpair).same_toPair
  · intro line key rest hsplit
    obtain ⟨hsealed, hblank, -⟩ := splitAssignment_eq_some hsplit
    have hlegible := KeyPath.legible_written hsealed hblank
    have hshown := WrittenKey.sealed_text hlegible.ne_nil hlegible.parts
    rw [KeyPath.text_written] at hshown
    exact ⟨KeyPath.same_ofText_render hsealed hblank, Bracket.cutFrom_of_sealed hshown,
      hshown.depthAfter_eq⟩

/-- Brackets that nothing opens, brackets inside of brackets, text behind an index, and a block that
nothing closes. -/
def strayText : Text := "a]b [x[1]] y[ 2 , 3 ].C = \x7b\nno pair\n [=]. = d = [ e "

theorem strayText_rendered :
    (∀ pair ∈ RawPair.ofText strayText, pair.OnOneLine strayText) ∧
      Pair.sameAll (Content.ofText (Text.join ['\n']
          ((Content.ofText strayText).pairs.map Pair.text))).pairs
        (Content.ofText strayText).pairs = true ∧
      splitAssignment " [=]. = d = [ e ".toList = some ("[=].".toList, " d = [ e ".toList) ∧
      (KeyPath.ofText (KeyPath.ofText "[=].".toList).render).same
          (KeyPath.ofText "[=].".toList) = true ∧
        Bracket.cut '=' (KeyPath.ofText "[=].".toList).render = none ∧
        Bracket.depthAfter 0 (KeyPath.ofText "[=].".toList).render = 0 := by
  have hpairs : RawPair.ofText strayText =
      [⟨"a]b [x[1]] y[ 2 , 3 ].C".toList, some "\x7b".toList, 1⟩,
        ⟨"[=].".toList, some "d = [ e".toList, 3⟩] := by decide
  have hone : ∀ pair ∈ RawPair.ofText strayText, pair.OnOneLine strayText := by
    rw [hpairs, List.forall_mem_cons, List.forall_mem_singleton]
    refine ⟨⟨⟨"a]b [x[1]] y[ 2 , 3 ].C = \x7b".toList, ['\n']⟩, " \x7b".toList, ?_⟩,
      ⟨⟨" [=]. = d = [ e ".toList, []⟩, " d = [ e ".toList, ?_⟩⟩
    · decide
    · decide
  have hsplit : splitAssignment " [=]. = d = [ e ".toList =
      some ("[=].".toList, " d = [ e ".toList) := by decide
  exact ⟨hone, Content.sameAll_ofText_rendered.1 strayText hone, hsplit,
    Content.sameAll_ofText_rendered.2 _ _ _ hsplit⟩

end KeyedText
