import KeyedText.Proofs.Key.Rendered
import KeyedText.Proofs.Text.Split

/-!
# Where keys are cut

A text is cut at the separators that stand at depth zero, and at no others, whatever brackets it
opens or closes too often. This holds for the parts of a key, for the tokens of an index and for the
key of an assignment. The depth that a cut looks at and the depth at which an index ends are counted
apart from each other, but they agree: a key that is cut off an assignment leaves no index open.

## Main definitions

- `Text.seams` — the places between pieces that are joined
- `Bracket.CutsAt`, `Bracket.FirstCut` — a separator stands at a place outside brackets
- `Bracket.Balanced` — the brackets of a text match
- `Bracket.Closed` — a text in which every bracket is closed, with their contents
- `KeyPath.ClosesIndices` — a key whose indices are all closed

## Main statements

- `Bracket.seams_splitFrom` — the seams of the pieces are where the text is cut
- `Bracket.cut_eq_some_iff` — the first cut of a text
- `Bracket.closed_bodies` — at depth zero every bracket is closed
- `Bracket.factors_at_cuts` — all of it together, for keys and assignments
-/

namespace KeyedText

/-! ## Pieces and the places between them -/

namespace Text

/-- The places of the separators between pieces that are joined. -/
def seams : List Text → List Nat
  | [] => []
  | [_] => []
  | piece :: pieces => piece.length :: (seams pieces).map (· + (piece.length + 1))

variable {separator c : Char} {piece : Text} {pieces others : List Text}

theorem seams_cons (hne : pieces ≠ []) :
    seams (piece :: pieces) = piece.length :: (seams pieces).map (· + (piece.length + 1)) := by
  obtain ⟨next, rest, rfl⟩ := List.exists_cons_of_ne_nil hne
  rfl

theorem length_seams (hne : pieces ≠ []) : pieces.length = (seams pieces).length + 1 := by
  induction pieces, hne using List.recNeNil with
  | singleton piece => rfl
  | cons piece pieces hne ih =>
    rw [seams_cons hne, List.length_cons, List.length_cons, List.length_map, ← ih]

theorem join_pushFront (c : Char) (hne : pieces ≠ []) :
    join [separator] (pushFront c pieces) = c :: join [separator] pieces := by
  obtain ⟨piece, rest, rfl⟩ := List.exists_cons_of_ne_nil hne
  cases rest <;> rfl

/-- One more character in front moves all seams. -/
theorem seams_pushFront (c : Char) (hne : pieces ≠ []) :
    seams (pushFront c pieces) = (seams pieces).map (· + 1) := by
  obtain ⟨piece, rest, rfl⟩ := List.exists_cons_of_ne_nil hne
  cases rest with
  | nil => rfl
  | cons next rest =>
    have hne : next :: rest ≠ [] := List.cons_ne_nil next rest
    rw [pushFront, seams_cons hne, seams_cons hne, List.length_cons, List.map_cons, List.map_map]
    rfl

/-- Pieces are what their join and their seams make them. -/
theorem eq_of_join_of_seams (hpieces : pieces ≠ []) (hothers : others ≠ [])
    (hjoin : join [separator] pieces = join [separator] others)
    (hseams : seams pieces = seams others) : pieces = others := by
  induction pieces, hpieces using List.recNeNil generalizing others with
  | singleton piece =>
    obtain ⟨other, rest, rfl⟩ := List.exists_cons_of_ne_nil hothers
    cases rest with
    | nil => exact congrArg (fun text => [text]) hjoin
    | cons next rest => exact absurd hseams (by simp [seams])
  | cons piece pieces hne ih =>
    obtain ⟨other, rest, rfl⟩ := List.exists_cons_of_ne_nil hothers
    rw [seams_cons hne] at hseams
    have hrest : rest ≠ [] := by
      rintro rfl
      exact absurd hseams (by simp [seams])
    rw [seams_cons hrest] at hseams
    obtain ⟨hlength, hlater⟩ := List.cons.inj hseams
    rw [join_cons hne, join_cons hrest, List.append_assoc, List.append_assoc] at hjoin
    obtain ⟨rfl, hbehind⟩ := List.append_inj hjoin hlength
    have hshift : Function.Injective fun place => place + (piece.length + 1) :=
      fun _ _ => Nat.add_right_cancel
    rw [ih hrest (List.cons.inj hbehind).2 (hshift.list_map hlater)]

end Text

/-! ## Cuts -/

namespace Bracket

variable {separator : Char} {depth place : Nat} {text front rest : Text}

/-- The separator stands at a place of the text, and the text before it leads from the given depth
to depth zero. -/
def CutsAt (separator : Char) (depth : Nat) (text : Text) (place : Nat) : Prop :=
  text[place]? = some separator ∧ depthAfter depth (text.take place) = 0

instance (separator : Char) (depth : Nat) (text : Text) (place : Nat) :
    Decidable (CutsAt separator depth text place) :=
  inferInstanceAs (Decidable (_ ∧ _))

/-- The places at which a text is cut, in order. -/
def cuts (separator : Char) (depth : Nat) (text : Text) : List Nat :=
  (List.range text.length).filter fun place => CutsAt separator depth text place

theorem cutsAt_zero (c : Char) :
    CutsAt separator depth (c :: rest) 0 ↔ c = separator ∧ depth = 0 := by
  simp [CutsAt, depthAfter]

theorem cutsAt_succ (c : Char) :
    CutsAt separator depth (c :: rest) (place + 1) ↔
      CutsAt separator (step depth c) rest place := by
  simp [CutsAt, depthAfter]

theorem cuts_cons (separator : Char) (depth : Nat) (c : Char) (rest : Text) :
    cuts separator depth (c :: rest) =
      if c = separator ∧ depth = 0 then 0 :: (cuts separator (step depth c) rest).map (· + 1)
      else (cuts separator (step depth c) rest).map (· + 1) := by
  have hlater : (fun place => decide (CutsAt separator depth (c :: rest) place)) ∘ Nat.succ =
      fun place => decide (CutsAt separator (step depth c) rest place) := by
    funext place
    exact decide_eq_decide.2 (cutsAt_succ c)
  rw [cuts, List.length_cons, List.range_succ_eq_map, List.filter_cons, List.filter_map, hlater]
  simp only [cutsAt_zero, decide_eq_true_eq]
  rfl

theorem splitFrom_ne_nil (separator : Char) (depth : Nat) (text : Text) :
    splitFrom separator depth text ≠ [] := by
  obtain ⟨first, rest, hsplit⟩ := exists_splitFrom separator depth text
  simp [hsplit]

theorem join_splitFrom (separator : Char) (depth : Nat) (text : Text) :
    Text.join [separator] (splitFrom separator depth text) = text := by
  induction text generalizing depth with
  | nil => rfl
  | cons c text ih =>
    rw [splitFrom]
    split
    · next hc =>
      rw [Text.join_cons (splitFrom_ne_nil separator 0 text), ih, hc.1]
      rfl
    · rw [Text.join_pushFront c (splitFrom_ne_nil separator _ text), ih]

/-- The seams of the pieces are where the text is cut. -/
theorem seams_splitFrom (hopen : separator ≠ '[') (hclose : separator ≠ ']') (depth : Nat)
    (text : Text) : Text.seams (splitFrom separator depth text) = cuts separator depth text := by
  induction text generalizing depth with
  | nil => rfl
  | cons c text ih =>
    rw [splitFrom, cuts_cons]
    split
    · next hc =>
      -- a separator leaves the depth at zero
      have hstep : step depth c = 0 := by rw [hc.1, hc.2, step, if_neg hopen, if_neg hclose]
      rw [Text.seams_cons (splitFrom_ne_nil separator 0 text), ih, hstep]
      rfl
    · rw [Text.seams_pushFront c (splitFrom_ne_nil separator _ text), ih]

/-- A sealed text is one without cuts that leads to depth zero. -/
theorem sealed_iff : Sealed separator depth text ↔
    depthAfter depth text = 0 ∧ ∀ place, ¬CutsAt separator depth text place := by
  induction text generalizing depth with
  | nil => simp [Sealed, depthAfter, CutsAt]
  | cons c text ih =>
    have hplaces : (∀ place, ¬CutsAt separator depth (c :: text) place) ↔
        ¬(c = separator ∧ depth = 0) ∧ ∀ place, ¬CutsAt separator (step depth c) text place := by
      rw [← Nat.and_forall_add_one, cutsAt_zero]
      simp only [cutsAt_succ]
    rw [Sealed, ih, hplaces]
    exact and_left_comm

theorem cutsAt_append (h : place < front.length) :
    CutsAt separator depth (front ++ rest) place ↔ CutsAt separator depth front place := by
  rw [CutsAt, CutsAt, List.getElem?_append_left h, List.take_append_of_le_length (Nat.le_of_lt h)]

theorem lt_length_of_cutsAt (h : CutsAt separator depth text place) : place < text.length :=
  (List.getElem?_eq_some_iff.1 h.1).1

/-- The first cut of a text divides it into what stands before and after the separator. -/
structure FirstCut (separator : Char) (text front rest : Text) : Prop where
  text_eq : text = front ++ separator :: rest
  cutsAt : CutsAt separator 0 text front.length
  first : ∀ place < front.length, ¬CutsAt separator 0 text place

theorem cut_eq_some_iff :
    cut separator text = some (front, rest) ↔ FirstCut separator text front rest := by
  have hcuts : ∀ place, place < front.length →
      (CutsAt separator 0 (front ++ separator :: rest) place ↔ CutsAt separator 0 front place) :=
    fun place => cutsAt_append
  constructor
  · intro h
    obtain ⟨hsealed, rfl⟩ := sealed_of_cutFrom h
    obtain ⟨hdepth, hnone⟩ := sealed_iff.1 hsealed
    refine ⟨rfl, ⟨by simp, by rw [List.take_left]; exact hdepth⟩, fun place hplace => ?_⟩
    rw [hcuts place hplace]
    exact hnone place
  · rintro ⟨rfl, hcut, hfirst⟩
    have hsealed : Sealed separator 0 front := by
      refine sealed_iff.2 ⟨by simpa using hcut.2, fun place hplace => ?_⟩
      have hlt := lt_length_of_cutsAt hplace
      exact hfirst place hlt ((hcuts place hlt).2 hplace)
    rw [cut, cutFrom_append hsealed, cutFrom, if_pos ⟨rfl, rfl⟩, Option.map_some, List.append_nil]

/-! ## Brackets that match -/

/-- The brackets of a text match: none is closed that is not open, and none is left open. -/
def Balanced (text : Text) : Prop :=
  text.count '[' = text.count ']' ∧ ∀ front, front <+: text → front.count ']' ≤ front.count '['

/-- Nothing closes the brackets open before a text, but the text closes all that it opens. -/
theorem sealed_close_iff : Sealed ']' depth text ↔
    depth + text.count '[' = text.count ']' ∧
      ∀ front, front <+: text → front.count ']' ≤ depth + front.count '[' := by
  induction text generalizing depth with
  | nil => simp [Sealed]
  | cons c text ih =>
    have hfronts : (∀ front, front <+: c :: text → front.count ']' ≤ depth + front.count '[') ↔
        ∀ front, front <+: text →
          (c :: front).count ']' ≤ depth + (c :: front).count '[' := by
      simp only [List.prefix_cons_iff]
      constructor
      · exact fun h front hfront => h (c :: front) (.inr ⟨front, rfl, hfront⟩)
      · rintro h front (rfl | ⟨later, rfl, hlater⟩)
        · simp
        · exact h later hlater
    rw [Sealed, ih, hfronts, step]
    by_cases hopen : c = '['
    · subst hopen
      simp [Nat.add_assoc, Nat.add_comm 1]
    · by_cases hclose : c = ']'
      · subst hclose
        have hclosed : ∀ front : Text, (']' :: front).count ']' = front.count ']' + 1 ∧
            (']' :: front).count '[' = front.count '[' := by simp
        simp only [hclosed, if_neg hopen, if_true, true_and]
        constructor
        · rintro ⟨hdepth, heq, hle⟩
          refine ⟨by omega, fun front hfront => ?_⟩
          have := hle front hfront
          omega
        · rintro ⟨heq, hle⟩
          -- the bracket itself closes one that is open before it
          have hdepth := hle [] List.nil_prefix
          simp only [List.count_nil] at hdepth
          refine ⟨by omega, by omega, fun front hfront => ?_⟩
          have := hle front hfront
          omega
      · simp [hopen, hclose]

theorem sealed_close_iff_balanced : Sealed ']' 0 text ↔ Balanced text := by
  rw [sealed_close_iff, Balanced]
  simp only [Nat.zero_add]

/-- A text in which every bracket is closed, with the contents of its brackets: each is balanced,
and no bracket is opened between them. -/
inductive Closed : Text → List Text → Prop
  | plain {gap : Text} (hgap : '[' ∉ gap) : Closed gap []
  | index {gap content rest : Text} {contents : List Text} (hgap : '[' ∉ gap)
      (hcontent : Balanced content) (hrest : Closed rest contents) :
      Closed (gap ++ '[' :: content ++ ']' :: rest) (content :: contents)

theorem depthAfter_of_not_mem (h : '[' ∉ text) : depthAfter 0 text = 0 := by
  induction text with
  | nil => rfl
  | cons c text ih =>
    rw [List.mem_cons, not_or] at h
    have hstep : step 0 c = 0 := by
      rw [step, if_neg (Ne.symm h.1)]
      split <;> rfl
    rw [depthAfter, List.foldl_cons, hstep]
    exact ih h.2

/-- A bracket that the rest of a text closes is closed somewhere. -/
theorem exists_close (h : depthAfter (depth + 1) text = 0) : ∃ content rest,
    text = content ++ ']' :: rest ∧ Sealed ']' depth content ∧ depthAfter 0 rest = 0 := by
  induction text generalizing depth with
  | nil => exact absurd h (by simp [depthAfter])
  | cons c text ih =>
    by_cases hend : c = ']' ∧ depth = 0
    · obtain ⟨rfl, rfl⟩ := hend
      exact ⟨[], text, rfl, rfl, h⟩
    · rw [depthAfter, List.foldl_cons, step_succ hend] at h
      obtain ⟨content, rest, rfl, hcontent, hrest⟩ := ih h
      exact ⟨c :: content, rest, rfl, ⟨hend, hcontent⟩, hrest⟩

/-- A text that leads to depth zero closes every bracket that it opens. -/
theorem closed_bodies (text : Text) (h : depthAfter 0 text = 0) : Closed text (bodies text) := by
  by_cases hmem : '[' ∈ text
  · obtain ⟨gap, inside, htext, hgap⟩ := List.eq_append_cons_of_mem hmem
    have hinside : depthAfter 1 inside = 0 := by
      rw [htext, depthAfter, List.foldl_append, ← depthAfter, ← depthAfter,
        depthAfter_of_not_mem hgap] at h
      exact h
    obtain ⟨content, rest, hclose, hcontent, hrest⟩ := exists_close hinside
    have hshorter : rest.length < text.length := by
      rw [htext, hclose]
      simp
      omega
    have hindex :=
      Closed.index hgap (sealed_close_iff_balanced.1 hcontent) (closed_bodies rest hrest)
    rw [htext, hclose, bodies, bodiesFrom_append hgap, bodiesFrom, if_pos rfl,
      bodiesFrom_inside hcontent, ← bodies]
    simpa using hindex
  · have hnone := bodiesFrom_append hmem []
    rw [List.append_nil] at hnone
    rw [bodies, hnone]
    exact .plain hmem
termination_by text.length

end Bracket

/-! ## Keys and assignments -/

variable {line key rest : Text}

/-- The key of a line is what stands before its first cut. -/
theorem splitAssignment_iff : splitAssignment line = some (key, rest) ↔
    ∃ front, Bracket.FirstCut '=' line front rest ∧ Text.trim front = key ∧ key ≠ [] := by
  rw [splitAssignment]
  constructor
  · intro h
    split at h
    · exact absurd h (by simp)
    · next front after hcut =>
      split at h
      · exact absurd h (by simp)
      · next hblank =>
        obtain ⟨rfl, rfl⟩ := Prod.mk.inj (Option.some.inj h)
        exact ⟨front, Bracket.cut_eq_some_iff.1 hcut, rfl,
          fun hnil => hblank (Text.trim_eq_nil_iff.1 hnil)⟩
  · rintro ⟨front, hfront, rfl, hne⟩
    have hblank : ¬Text.allBlank front = true := fun hblank => hne (Text.trim_eq_nil_iff.2 hblank)
    rw [Bracket.cut_eq_some_iff.2 hfront]
    exact if_neg hblank

/-- A key that has parts, each read from a piece of the key that closes all its brackets. -/
structure KeyPath.ClosesIndices (key : Text) : Prop where
  parts_ne_nil : (KeyPath.ofText key).parts ≠ []
  parts_eq : (KeyPath.ofText key).parts = (Bracket.split '.' key).map KeyPart.ofText
  closed : ∀ piece ∈ Bracket.split '.' key, ∃ contents,
    Bracket.Closed piece contents ∧ (KeyPart.ofText piece).indices = contents.map Index.ofText

theorem KeyPath.closesIndices (h : splitAssignment line = some (key, rest)) :
    KeyPath.ClosesIndices key := by
  obtain ⟨hsealed, hblank, -, -⟩ := splitAssignment_eq_some h
  have hparts := KeyPath.parts_ofText hblank
  refine ⟨by simp [hparts, Bracket.split, Bracket.splitFrom_ne_nil], hparts, fun piece hpiece => ?_⟩
  have hdepth := (Bracket.split_sealed (by decide) (by decide) hsealed piece hpiece).1.depthAfter_eq
  exact ⟨Bracket.bodies piece, Bracket.closed_bodies piece hdepth, rfl⟩

/-- **A text is cut at the separators outside brackets.** Its pieces are the only ones that give the
text when they are joined and have their seams at the cuts, so there is one more of them than cuts.
The key of a line ends at the first cut, and no index of it is left open. -/
theorem Bracket.factors_at_cuts (separator : Char) (text : Text) (hopen : separator ≠ '[')
    (hclose : separator ≠ ']') :
    (∀ pieces, Bracket.split separator text = pieces ↔
        pieces ≠ [] ∧ Text.join [separator] pieces = text ∧
          Text.seams pieces = Bracket.cuts separator 0 text) ∧
      (Bracket.split separator text).length = (Bracket.cuts separator 0 text).length + 1 ∧
      (∀ key rest, splitAssignment text = some (key, rest) ↔
        ∃ front, Bracket.FirstCut '=' text front rest ∧ Text.trim front = key ∧ key ≠ []) ∧
      ∀ key rest, splitAssignment text = some (key, rest) → KeyPath.ClosesIndices key := by
  have hne : Bracket.split separator text ≠ [] := Bracket.splitFrom_ne_nil separator 0 text
  have hjoin : Text.join [separator] (Bracket.split separator text) = text :=
    Bracket.join_splitFrom separator 0 text
  have hseams : Text.seams (Bracket.split separator text) = Bracket.cuts separator 0 text :=
    Bracket.seams_splitFrom hopen hclose 0 text
  refine ⟨fun pieces => ⟨?_, ?_⟩, ?_, fun key rest => splitAssignment_iff,
    fun key rest => KeyPath.closesIndices⟩
  · rintro rfl
    exact ⟨hne, hjoin, hseams⟩
  · rintro ⟨hpieces, hjoined, hcuts⟩
    exact Text.eq_of_join_of_seams hne hpieces (hjoin.trans hjoined.symm) (hseams.trans hcuts.symm)
  · rw [Text.length_seams hne, hseams]

/-- A line with brackets closed too often, dots and equals signs in brackets, and two equals signs
outside them. -/
def bracketedLine : Text := "]a[b.=]].[c[d]]e. =f=g"

/-- The key of that line. -/
def bracketedKey : Text := "]a[b.=]].[c[d]]e."

theorem bracketedLine_factors_at_cuts :
    '.' ≠ '[' ∧ '.' ≠ ']' ∧
      splitAssignment bracketedLine = some (bracketedKey, ['f', '=', 'g']) ∧
      Bracket.cuts '.' 0 bracketedLine = [8, 16] ∧
      Text.seams (Bracket.split '.' bracketedLine) = [8, 16] ∧
      (Bracket.split '.' bracketedLine).length = 3 ∧
      KeyPath.ClosesIndices bracketedKey := by
  obtain ⟨hpieces, hlength, -, hkey⟩ :=
    Bracket.factors_at_cuts '.' bracketedLine (by decide) (by decide)
  have hcuts : Bracket.cuts '.' 0 bracketedLine = [8, 16] := by decide
  have hsplit : splitAssignment bracketedLine = some (bracketedKey, ['f', '=', 'g']) := by decide
  refine ⟨by decide, by decide, hsplit, hcuts, ?_, ?_, hkey _ _ hsplit⟩
  · rw [((hpieces _).1 rfl).2.2, hcuts]
  · rw [hlength, hcuts]
    rfl

end KeyedText
