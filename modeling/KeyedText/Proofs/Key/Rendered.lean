import KeyedText.Proofs.Key.Written
import KeyedText.Source.RawPair

/-!
# Rendered keys

The key of an assignment may hold stray brackets, nested brackets, text between its indices and
blanks in many places. What it shows when it is rendered holds only names and indices, but it is
read as the same key again, and it ends where an equals sign behind it stands.

## Main definitions

- `KeyPart.written`, `KeyPath.written` — the names and indices that a key shows

## Main statements

- `Bracket.splitFrom_sealed` — the pieces of a sealed text are sealed
- `Bracket.tokens_trim` — outer blanks make no difference to the tokens of an index
- `KeyPath.legible_written` — the key of an assignment can be read back from what it shows
- `KeyPath.same_ofText_render` — and it is the same key then
- `splitAssignment_eq_some` — what is known of the key of an assignment
-/

namespace KeyedText

/-! ## Pieces between separators -/

namespace Bracket

variable {separator other c : Char} {depth : Nat} {content piece text : Text}

/-- A blank at the end of a text belongs to its last piece. -/
theorem splitFrom_append_blank (hseparator : Text.isBlank separator = false)
    (hc : Text.isBlank c = true) (depth : Nat) (text : Text) : ∃ front last,
      splitFrom separator depth text = front ++ [last] ∧
        splitFrom separator depth (text ++ [c]) = front ++ [last ++ [c]] := by
  have hne : c ≠ separator := by
    rintro rfl
    exact absurd hc (by simp [hseparator])
  induction text generalizing depth with
  | nil => exact ⟨[], [], rfl, by simp [splitFrom, hne, Text.pushFront]⟩
  | cons d text ih =>
    rw [List.cons_append, splitFrom, splitFrom]
    split
    · obtain ⟨front, last, hsplit, happend⟩ := ih 0
      rw [hsplit, happend]
      exact ⟨[] :: front, last, rfl, rfl⟩
    · obtain ⟨front, last, hsplit, happend⟩ := ih (step depth d)
      rw [hsplit, happend]
      cases front with
      | nil => exact ⟨[], d :: last, rfl, rfl⟩
      | cons piece front => exact ⟨(d :: piece) :: front, last, rfl, rfl⟩

theorem exists_splitFrom (separator : Char) (depth : Nat) (text : Text) :
    ∃ first rest, splitFrom separator depth text = first :: rest := by
  cases text with
  | nil => exact ⟨[], [], rfl⟩
  | cons c text =>
    rw [splitFrom]
    split
    · exact ⟨[], _, rfl⟩
    · cases splitFrom separator (step depth c) text with
      | nil => exact ⟨[c], [], rfl⟩
      | cons first rest => exact ⟨c :: first, rest, rfl⟩

/-- Outer blanks make no difference to the pieces without their own outer blanks. -/
theorem tokens_trim (hseparator : Text.isBlank separator = false) (text : Text) :
    (split separator (Text.trim text)).map Text.trim = (split separator text).map Text.trim := by
  refine Text.trim_invariant (fun text => (split separator text).map Text.trim) ?_ ?_ text
  · intro c text hc
    have hne : ¬(c = separator ∧ 0 = 0) := by
      rintro ⟨rfl, -⟩
      exact absurd hc (by simp [hseparator])
    obtain ⟨first, rest, hsplit⟩ := exists_splitFrom separator 0 text
    rw [split, split, splitFrom, if_neg hne, step_of_blank hc, hsplit, Text.pushFront,
      List.map_cons, List.map_cons, Text.trim_cons_of_blank hc]
  · intro c text hc
    obtain ⟨front, last, hsplit, happend⟩ := splitFrom_append_blank hseparator hc 0 text
    rw [split, split, hsplit, happend, List.map_append, List.map_append, List.map_singleton,
      List.map_singleton, Text.trim_append_of_blank hc]

theorem pushFront_subset {pieces : List Text} (c : Char) (h : ∀ piece ∈ pieces, piece ⊆ content) :
    ∀ piece ∈ Text.pushFront c pieces, piece ⊆ c :: content := by
  cases pieces with
  | nil => simp [Text.pushFront]
  | cons first rest =>
    obtain ⟨hfirst, hrest⟩ := List.forall_mem_cons.1 h
    rw [Text.pushFront, List.forall_mem_cons]
    exact ⟨List.cons_subset_cons c hfirst,
      fun piece hpiece => List.subset_cons_of_subset c (hrest piece hpiece)⟩

/-- The pieces of a text that is sealed against a character are sealed against it and against the
separator between them. -/
theorem splitFrom_sealed (hopen : separator ≠ '[') (hclose : separator ≠ ']')
    (h : Sealed other depth content) : ∃ first rest,
      splitFrom separator depth content = first :: rest ∧
        (Sealed other depth first ∧ Sealed separator depth first) ∧
        ∀ piece ∈ rest, Sealed other 0 piece ∧ Sealed separator 0 piece := by
  induction content generalizing depth with
  | nil => exact ⟨[], [], rfl, ⟨h, h⟩, by simp⟩
  | cons c content ih =>
    obtain ⟨first, rest, heq, hfirst, hrest⟩ := ih h.2
    rw [splitFrom]
    by_cases hc : c = separator ∧ depth = 0
    · obtain ⟨rfl, rfl⟩ := hc
      have hstep : step 0 c = 0 := by rw [step, if_neg hopen, if_neg hclose]
      rw [hstep] at heq hfirst
      rw [if_pos ⟨rfl, rfl⟩, heq]
      exact ⟨[], first :: rest, rfl, ⟨rfl, rfl⟩, List.forall_mem_cons.2 ⟨hfirst, hrest⟩⟩
    · rw [if_neg hc, heq]
      exact ⟨c :: first, rest, rfl, ⟨⟨h.1, hfirst.1⟩, hc, hfirst.2⟩, hrest⟩

theorem split_sealed (hopen : separator ≠ '[') (hclose : separator ≠ ']')
    (h : Sealed other 0 content) :
    ∀ piece ∈ split separator content, Sealed other 0 piece ∧ Sealed separator 0 piece := by
  obtain ⟨first, rest, hsplit, hfirst, hrest⟩ := splitFrom_sealed hopen hclose h
  rw [split, hsplit, List.forall_mem_cons]
  exact ⟨hfirst, hrest⟩

theorem splitFrom_subset (separator : Char) (depth : Nat) (content : Text) :
    ∀ piece ∈ splitFrom separator depth content, piece ⊆ content := by
  induction content generalizing depth with
  | nil => simp [splitFrom]
  | cons c content ih =>
    rw [splitFrom]
    split
    · intro piece hpiece
      rcases List.mem_cons.1 hpiece with rfl | hpiece
      · exact List.nil_subset _
      · exact List.subset_cons_of_subset c (ih 0 piece hpiece)
    · exact pushFront_subset c (ih (step depth c))

/-- A text that is not divided is its only piece. -/
theorem eq_of_splitFrom_singleton (h : splitFrom separator depth content = [piece]) :
    piece = content := by
  induction content generalizing depth piece with
  | nil => exact (List.singleton_inj.1 h).symm
  | cons c content ih =>
    rw [splitFrom] at h
    split at h
    · obtain ⟨first, rest, hpieces⟩ := exists_splitFrom separator 0 content
      rw [hpieces] at h
      simp at h
    · obtain ⟨first, rest, hpieces⟩ := exists_splitFrom separator (step depth c) content
      rw [hpieces, Text.pushFront] at h
      obtain ⟨rfl, rfl⟩ := List.cons.inj h
      rw [ih hpieces]

/-! ## Contents of brackets -/

theorem bodiesFrom_subset (state : Option Nat) (content : Text) :
    ∀ body ∈ bodiesFrom state content, body ⊆ content := by
  induction content generalizing state with
  | nil => cases state <;> simp [bodiesFrom]
  | cons c content ih =>
    have houtside : ∀ body ∈ bodiesFrom none content, body ⊆ c :: content :=
      fun body hbody => List.subset_cons_of_subset c (ih none body hbody)
    cases state with
    | none =>
      rw [bodiesFrom]
      split
      · exact fun body hbody => List.subset_cons_of_subset c (ih (some 0) body hbody)
      · exact houtside
    | some depth =>
      by_cases hend : c = ']' ∧ depth = 0
      · obtain ⟨rfl, rfl⟩ := hend
        exact List.forall_mem_cons.2 ⟨List.nil_subset _, houtside⟩
      · rw [bodiesFrom_step hend]
        exact pushFront_subset c (ih (some (step depth c)))

/-- A bracket that is opened has a content, even if it is never closed. -/
theorem bodiesFrom_ne_nil (h : '[' ∈ content) : bodiesFrom none content ≠ [] := by
  have hinside : ∀ depth rest, bodiesFrom (some depth) rest ≠ [] := by
    intro depth rest
    cases rest with
    | nil => simp [bodiesFrom]
    | cons c rest =>
      by_cases hend : c = ']' ∧ depth = 0
      · obtain ⟨rfl, rfl⟩ := hend
        simp [bodiesFrom]
      · rw [bodiesFrom_step hend]
        cases bodiesFrom (some (step depth c)) rest <;> simp [Text.pushFront]
  induction content with
  | nil => simp at h
  | cons c content ih =>
    rw [bodiesFrom]
    by_cases hopen : c = '['
    · rw [if_pos hopen]
      exact hinside 0 content
    · rw [if_neg hopen]
      exact ih (by simpa [Ne.symm hopen] using h)

end Bracket

/-! ## What a key shows -/

variable {piece line key rest : Text}

/-- The name and the indices that a part shows. -/
def KeyPart.written (part : KeyPart) : WrittenPart :=
  ⟨Text.trim part.name, part.indices.map Index.text⟩

/-- The parts that a key shows. -/
def KeyPath.written (path : KeyPath) : WrittenKey :=
  path.parts.map KeyPart.written

theorem KeyPart.text_written (part : KeyPart) : part.written.text = part.render := by
  rw [WrittenPart.text, KeyPart.written, KeyPart.render, List.flatMap_map]
  rfl

theorem KeyPath.text_written (path : KeyPath) : path.written.text = path.render := by
  rw [WrittenKey.text, KeyPath.written, KeyPath.render, List.map_map]
  exact congrArg (Text.join ['.']) (List.map_congr_left fun part _ => part.text_written)

/-- A part that is rendered and read again is the same part. -/
theorem KeyPart.identity_written (piece : Text) :
    (KeyPart.ofText piece).written.toPart.identity = (KeyPart.ofText piece).identity := by
  have hname : Text.fold (Text.trim (KeyPart.ofText piece).name) =
      Text.fold (KeyPart.ofText piece).name := by
    rw [Text.fold, Text.trim_trim]
    rfl
  have hindices : ((KeyPart.ofText piece).written.indices.map Index.ofText).map Index.tokens =
      (KeyPart.ofText piece).indices.map Index.tokens := by
    simp only [KeyPart.written, KeyPart.ofText, List.map_map]
    exact List.map_congr_left fun body _ => Bracket.tokens_trim (by decide) body
  exact congrArg₂ Prod.mk hname hindices

/-- No separator stands in the name of a part that is sealed against it. -/
theorem KeyPart.name_plain {separator : Char} (h : Bracket.Sealed separator 0 piece) :
    ∀ c ∈ (KeyPart.ofText piece).name, c ≠ separator ∧ c ≠ '[' := by
  rw [KeyPart.ofText]
  induction piece with
  | nil => simp
  | cons c piece ih =>
    by_cases hopen : c = '['
    · simp [hopen]
    · have hstep : Bracket.step 0 c = 0 := by
        rw [Bracket.step, if_neg hopen]
        split <;> rfl
      have hrest := h.2
      rw [hstep] at hrest
      rw [List.takeWhile_cons_of_pos (by simpa using hopen), List.forall_mem_cons]
      exact ⟨⟨fun hc => h.1 ⟨hc, rfl⟩, hopen⟩, ih hrest⟩

/-- A piece of a key that no separator divides shows what can be read back. -/
theorem KeyPart.legible_written (hdot : Bracket.Sealed '.' 0 piece)
    (hsign : Bracket.Sealed '=' 0 piece) : (KeyPart.ofText piece).written.Legible where
  name c hc := by
    have hname := Text.trim_subset _ hc
    obtain ⟨hdot, hopen⟩ := KeyPart.name_plain hdot c hname
    exact ⟨hdot, (KeyPart.name_plain hsign c hname).1, hopen⟩
  trimmed := Text.trim_trim _
  indices index hindex := by
    simp only [KeyPart.written, KeyPart.ofText, List.map_map, List.mem_map] at hindex
    obtain ⟨body, hbody, rfl⟩ := hindex
    have hsealed := Bracket.sealed_of_mem_bodiesFrom hdot.depthAfter_eq hbody
    exact hsealed.trim (by decide)

/-- A piece without an index is all name. -/
theorem KeyPart.name_of_plain (h : '[' ∉ piece) : (KeyPart.ofText piece).name = piece := by
  rw [KeyPart.ofText, List.takeWhile_eq_self_iff]
  intro c hc
  have hne : c ≠ '[' := fun heq => h (heq ▸ hc)
  simpa using hne

/-- A piece that is not blank shows something. -/
theorem KeyPart.text_written_ne_nil (h : Text.allBlank piece = false) :
    (KeyPart.ofText piece).written.text ≠ [] := by
  by_cases hopen : '[' ∈ piece
  · -- it shows an index
    obtain ⟨body, bodies, hbodies⟩ := List.exists_cons_of_ne_nil (Bracket.bodiesFrom_ne_nil hopen)
    simp [WrittenPart.text, KeyPart.written, KeyPart.ofText, Bracket.bodies, hbodies,
      WrittenPart.bracketed]
  · rw [WrittenPart.text, KeyPart.written, KeyPart.name_of_plain hopen]
    intro hnil
    have htrim := (List.append_eq_nil_iff.1 hnil).1
    rw [Text.trim_eq_nil_iff, h] at htrim
    exact Bool.false_ne_true htrim

theorem KeyPath.parts_ofText (h : Text.allBlank key = false) :
    (KeyPath.ofText key).parts = (Bracket.split '.' key).map KeyPart.ofText := by
  rw [KeyPath.ofText, h]
  rfl

/-- A key without an equals sign outside brackets can be read back from what it shows. -/
theorem KeyPath.legible_written (hsealed : Bracket.Sealed '=' 0 key)
    (hblank : Text.allBlank key = false) : (KeyPath.ofText key).written.Legible := by
  have hwritten : (KeyPath.ofText key).written =
      (Bracket.split '.' key).map fun piece => (KeyPart.ofText piece).written := by
    rw [KeyPath.written, KeyPath.parts_ofText hblank, List.map_map]
    rfl
  rw [hwritten]
  constructor
  · intro part hpart
    obtain ⟨piece, hpiece, rfl⟩ := List.mem_map.1 hpart
    obtain ⟨hsign, hdot⟩ := Bracket.split_sealed (by decide) (by decide) hsealed piece hpiece
    exact KeyPart.legible_written hdot hsign
  · obtain ⟨first, rest, hsplit⟩ := Bracket.exists_splitFrom '.' 0 key
    rw [Bracket.split, hsplit]
    cases rest with
    | nil =>
      have hall : first = key := Bracket.eq_of_splitFrom_singleton hsplit
      rw [hall]
      exact KeyPart.text_written_ne_nil hblank
    | cons second rest =>
      -- the dot between two parts is shown in any case
      rw [List.map_cons, WrittenKey.text_cons _ (by simp)]
      simp

/-- What a key shows is read as the same key. -/
theorem KeyPath.same_ofText_render (hsealed : Bracket.Sealed '=' 0 key)
    (hblank : Text.allBlank key = false) :
    (KeyPath.ofText (KeyPath.ofText key).render).same (KeyPath.ofText key) = true := by
  rw [← KeyPath.text_written, (KeyPath.legible_written hsealed hblank).ofText_text, KeyPath.same,
    beq_iff_eq, KeyPath.identity, KeyPath.identity, KeyPath.written, KeyPath.parts_ofText hblank]
  simp only [List.map_map]
  exact List.map_congr_left fun piece _ => KeyPart.identity_written piece

/-- A key shows no characters but its own, brackets and dots. -/
theorem KeyPath.render_subset (hblank : Text.allBlank key = false) :
    ∀ c ∈ (KeyPath.ofText key).render, c ∈ key ∨ c = '[' ∨ c = ']' ∨ c = '.' := by
  intro c hc
  rw [← KeyPath.text_written, KeyPath.written, KeyPath.parts_ofText hblank] at hc
  rcases WrittenKey.mem_text hc with ⟨part, hpart, hmem⟩ | hdot
  · simp only [List.map_map, List.mem_map, Function.comp_apply] at hpart
    obtain ⟨piece, hpiece, rfl⟩ := hpart
    have hpiece : piece ⊆ key := Bracket.splitFrom_subset '.' 0 key piece hpiece
    rcases WrittenPart.mem_text hmem with hname | ⟨index, hindex, hmem⟩ | hopen | hclose
    · have hname := List.takeWhile_subset _ (Text.trim_subset _ hname)
      exact .inl (hpiece hname)
    · simp only [KeyPart.written, KeyPart.ofText, List.map_map, List.mem_map] at hindex
      obtain ⟨body, hbody, rfl⟩ := hindex
      have hbody : body ⊆ piece := Bracket.bodiesFrom_subset none piece body hbody
      exact .inl (hpiece (hbody (Text.trim_subset body hmem)))
    · exact .inr (.inl hopen)
    · exact .inr (.inr (.inl hclose))
  · exact .inr (.inr (.inr hdot))

/-! ## The key of an assignment -/

/-- The key of an assignment is not blank and has no equals sign outside brackets. -/
theorem splitAssignment_eq_some (h : splitAssignment line = some (key, rest)) :
    Bracket.Sealed '=' 0 key ∧ Text.allBlank key = false ∧ key ⊆ line ∧ rest ⊆ line := by
  rw [splitAssignment] at h
  cases hcut : Bracket.cut '=' line with
  | none => simp [hcut] at h
  | some cut =>
    obtain ⟨before, after⟩ := cut
    obtain ⟨hsealed, hline⟩ := Bracket.sealed_of_cutFrom hcut
    simp only [hcut] at h
    split at h
    · exact absurd h (by simp)
    · next hblank =>
      obtain ⟨rfl, rfl⟩ := Prod.mk.inj (Option.some.inj h)
      refine ⟨hsealed.trim (by decide), ?_, ?_, ?_⟩
      · rw [← Bool.not_eq_true, ← Text.trim_eq_nil_iff, Text.trim_trim, Text.trim_eq_nil_iff]
        exact hblank
      · rw [hline]
        exact List.subset_append_of_subset_left _ (Text.trim_subset before)
      · rw [hline]
        exact List.subset_append_of_subset_right _ (List.subset_cons_self _ _)

end KeyedText
