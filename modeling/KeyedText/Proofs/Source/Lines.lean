import KeyedText.Source.Line
import KeyedText.Proofs.Text.Trim

/-!
# The lines of a text

`Line.ofText` cuts a text in the only way possible: every line but the last ends in a line feed,
the last one has no end, and the lines put together are the text again. Cutting goes along with
putting texts together, as long as the first of them ends in a line feed.

## Main definitions

- `Line.Ended`, `Line.Open` — a line before others, and the last line
- `Line.Cut` — lines that a text is cut into
- `Text.dropTerminator` — a text without the end of its last line

## Main statements

- `Line.cut_iff` — the lines of a text are the only ones that it can be cut into
- `Line.ofText_append` — the lines of a text after ended ones
- `Line.joined_eq_dropTerminator` — the text of ended lines without the end of the last one
- `Line.exists_ended` — a text that ends in a line feed is made of ended lines
-/

namespace KeyedText

/-- The text without the line feed that it ends with, and without the carriage return before it. -/
def Text.dropTerminator (text : Text) : Text :=
  match text.reverse with
  | '\n' :: '\r' :: rest => rest.reverse
  | '\n' :: rest => rest.reverse
  | _ => text

theorem Text.dropTerminator_crlf (text : Text) :
    Text.dropTerminator (text ++ ['\r', '\n']) = text := by
  simp [Text.dropTerminator]

theorem Text.dropTerminator_lf {text : Text} (h : text.getLast? ≠ some '\r') :
    Text.dropTerminator (text ++ ['\n']) = text := by
  rcases List.eq_nil_or_concat text with rfl | ⟨front, c, rfl⟩
  · rfl
  · have hc : c ≠ '\r' := by simpa using h
    simp only [Text.dropTerminator, List.reverse_append, List.reverse_cons, List.reverse_nil,
      List.nil_append, List.cons_append]
    split
    · next heq => simp_all
    · next heq => simp_all [List.reverse_eq_iff]
    · next heq => simp_all

theorem Text.dropTerminator_cr (text : Text) :
    Text.dropTerminator (text ++ ['\r'] ++ ['\n']) = text := by
  simp [Text.dropTerminator]

namespace Line

/-- A line that others follow: it ends in a line feed, its content has none, and a carriage return
before the line feed belongs to the end. -/
structure Ended (line : Line) : Prop where
  content : '\n' ∉ line.content
  ending : line.ending = ['\r', '\n'] ∨ line.ending = ['\n'] ∧ line.content.getLast? ≠ some '\r'

/-- The last line of a text: it has no line feed at all. -/
structure Open (line : Line) : Prop where
  content : '\n' ∉ line.content
  ending : line.ending = []

/-- A text cut into lines. -/
def Cut (lines : List Line) (text : Text) : Prop :=
  ∃ front last, lines = front ++ [last] ∧ (∀ line ∈ front, line.Ended) ∧ last.Open ∧
    lines.flatMap Line.full = text

variable {line : Line} {front lines : List Line} {text rest : Text} {c : Char}

theorem Ended.ending_ne_nil (h : line.Ended) : line.ending ≠ [] := by
  rcases h.ending with h | ⟨h, -⟩ <;> simp [h]

/-- A character that starts no line end goes in front of the first line. -/
theorem ofText_cons (hc : c ≠ '\n') (hr : c = '\r' → rest.head? ≠ some '\n') :
    ofText (c :: rest) = pushFront c (ofText rest) := by
  rw [ofText.eq_def]
  split
  · next heq => simp at heq
  · next heq => simp_all
  · next heq => simp_all
  · next heq => simp_all

/-- An ended line comes off the front of a text as it is. -/
theorem Ended.ofText_append (h : line.Ended) (rest : Text) :
    ofText (line.full ++ rest) = line :: ofText rest := by
  obtain ⟨content, ending⟩ := line
  induction content with
  | nil =>
    rcases h.ending with rfl | ⟨rfl, -⟩ <;> rfl
  | cons c content ih =>
    have htail : Ended ⟨content, ending⟩ := by
      refine ⟨fun hmem => h.content (by simp [hmem]), ?_⟩
      refine h.ending.imp_right fun ⟨he, hl⟩ => ⟨he, fun hlast => hl ?_⟩
      simp only at hlast ⊢
      rw [List.getLast?_cons, hlast]
      rfl
    have hc : c ≠ '\n' := fun hc => h.content (by simp [hc])
    -- a carriage return of the content does not run together with the end of the line
    have hnext : c = '\r' → (full ⟨content, ending⟩ ++ rest).head? ≠ some '\n' := by
      rintro rfl hhead
      cases content with
      | nil =>
        rcases h.ending with rfl | ⟨-, hl⟩
        · simp [full] at hhead
        · simp at hl
      | cons d content =>
        have hd : d = '\n' := by simpa [full] using hhead
        exact h.content (by simp [hd])
    change ofText (c :: (full ⟨content, ending⟩ ++ rest)) = _
    rw [ofText_cons hc hnext, ih htail]
    rfl

theorem ofText_append (h : ∀ line ∈ front, line.Ended) (rest : Text) :
    ofText (front.flatMap full ++ rest) = front ++ ofText rest := by
  induction front with
  | nil => rfl
  | cons line front ih =>
    rw [List.flatMap_cons, List.append_assoc, (h line (by simp)).ofText_append,
      ih fun line hline => h line (by simp [hline])]
    rfl

theorem ofText_of_not_mem (h : '\n' ∉ text) : ofText text = [⟨text, []⟩] := by
  induction text with
  | nil => rfl
  | cons c rest ih =>
    have hrest : '\n' ∉ rest := fun hmem => h (by simp [hmem])
    rw [ofText_cons (fun hc => h (by simp [hc])) (fun _ hhead => hrest (List.mem_of_head? hhead)),
      ih hrest]
    rfl

theorem Cut.pushFront (h : Cut lines text) (hc : c ≠ '\n')
    (hr : c = '\r' → text.head? ≠ some '\n') : Cut (pushFront c lines) (c :: text) := by
  obtain ⟨front, last, rfl, hfront, hlast, rfl⟩ := h
  cases front with
  | nil =>
    refine ⟨[], last.push c, rfl, by simp, ⟨?_, hlast.ending⟩, ?_⟩
    · simpa [push, Ne.symm hc] using hlast.content
    · simp [Line.pushFront, push, full]
  | cons line front =>
    refine ⟨line.push c :: front, last, rfl, ?_, hlast, by simp [Line.pushFront, push, full]⟩
    have hline := hfront line (by simp)
    -- a carriage return that comes to stand right before the line feed would join it
    have hpush : (line.push c).Ended := by
      refine ⟨by simpa [push, Ne.symm hc] using hline.content, ?_⟩
      refine hline.ending.imp_right fun ⟨he, hl⟩ => ⟨he, ?_⟩
      rintro hcr
      rw [push, List.getLast?_cons] at hcr
      cases hcontent : line.content.getLast? with
      | some d => simp_all
      | none =>
        have hnil : line.content = [] := List.getLast?_eq_none_iff.1 hcontent
        have hc' : c = '\r' := by simpa [hcontent] using hcr
        exact hr hc' (by simp [full, hnil, he])
    intro other hother
    rcases List.mem_cons.1 hother with rfl | hmem
    · exact hpush
    · exact hfront other (by simp [hmem])

theorem Cut.cons (h : Cut lines text) (hline : line.Ended) :
    Cut (line :: lines) (line.full ++ text) := by
  obtain ⟨front, last, rfl, hfront, hlast, rfl⟩ := h
  refine ⟨line :: front, last, rfl, ?_, hlast, rfl⟩
  simpa using ⟨hline, hfront⟩

theorem cut_ofText (text : Text) : Cut (ofText text) text := by
  fun_induction ofText text with
  | case1 => exact ⟨[], ⟨[], []⟩, rfl, by simp, ⟨by simp, rfl⟩, rfl⟩
  | case2 rest ih => exact ih.cons ⟨by simp, .inr ⟨rfl, by simp⟩⟩
  | case3 rest ih => exact ih.cons ⟨by simp, .inl rfl⟩
  | case4 c rest hlf hcrlf ih =>
    -- `c` starts no line end, so that it goes to the first of the other lines
    refine ih.pushFront hlf fun hc hhead => ?_
    obtain ⟨tail, rfl⟩ := List.head?_eq_some_iff.1 hhead
    exact hcrlf tail hc rfl

/-- There is one way to cut a text into lines. -/
theorem cut_iff : Cut lines text ↔ ofText text = lines := by
  constructor
  · rintro ⟨front, last, rfl, hfront, hlast, rfl⟩
    have hfull : last.full = last.content := by rw [full, hlast.ending, List.append_nil]
    rw [List.flatMap_append, ofText_append hfront, List.flatMap_singleton, hfull,
      ofText_of_not_mem hlast.content, ← hlast.ending]
  · rintro rfl
    exact cut_ofText text

/-- Lines that precede others in a text are ended. -/
theorem ended_of_ofText (front later : List Line) (h : ofText text = front ++ later)
    (hlater : later ≠ []) : ∀ line ∈ front, line.Ended := by
  obtain ⟨ended, last, heq, hended, -, -⟩ := cut_ofText text
  obtain ⟨middle, final, rfl⟩ := (List.eq_nil_or_concat later).resolve_left hlater
  rw [h, List.concat_eq_append, ← List.append_assoc] at heq
  obtain ⟨rfl, -⟩ := List.append_inj' heq rfl
  intro line hline
  exact hended line (by simp [hline])

theorem joined_concat (front : List Line) (last : Line) :
    joined (front ++ [last]) = front.flatMap full ++ last.content := by
  induction front with
  | nil => rfl
  | cons line front ih =>
    have hne : front ++ [last] ≠ [] := by simp
    cases hrest : front ++ [last] with
    | nil => exact absurd hrest hne
    | cons next rest =>
      rw [List.cons_append, hrest, joined, ← hrest, ih, List.flatMap_cons, List.append_assoc]
      simp

theorem getLast?_flatMap_full_ne (h : ∀ line ∈ front, line.Ended) :
    (front.flatMap full).getLast? ≠ some '\r' := by
  rcases List.eq_nil_or_concat front with rfl | ⟨init, last, rfl⟩
  · simp
  · rcases (h last (by simp)).ending with he | ⟨he, -⟩ <;> simp [full, he]

/-- The text of ended lines is what is left of them without the last of their ends. -/
theorem joined_eq_dropTerminator (h : ∀ line ∈ front, line.Ended) :
    joined front = Text.dropTerminator (front.flatMap full) := by
  rcases List.eq_nil_or_concat front with rfl | ⟨init, last, rfl⟩
  · rfl
  · rw [List.concat_eq_append] at h ⊢
    have hinit : ∀ line ∈ init, line.Ended := fun line hline => h line (by simp [hline])
    rw [joined_concat, List.flatMap_append, List.flatMap_singleton, full, ← List.append_assoc]
    rcases (h last (by simp)).ending with he | ⟨he, hl⟩
    · rw [he, Text.dropTerminator_crlf]
    · rw [he, Text.dropTerminator_lf]
      rw [List.getLast?_append]
      cases hcontent : last.content.getLast? with
      | some c => simpa [hcontent] using hl
      | none => simpa using getLast?_flatMap_full_ne hinit

/-- Ended lines that a text is made of, if it ends in a line feed. -/
theorem exists_ended (text : Text) :
    ∃ front, (∀ line ∈ front, line.Ended) ∧ front.flatMap full = text ++ ['\n'] ∧
      ofText (text ++ ['\n']) = front ++ [⟨[], []⟩] := by
  obtain ⟨front, last, heq, hfront, hlast, htext⟩ := cut_ofText (text ++ ['\n'])
  have hfull : last.full = last.content := by rw [full, hlast.ending, List.append_nil]
  rw [heq, List.flatMap_append, List.flatMap_singleton, hfull] at htext
  -- a last line with a content would end in the line feed
  have hcontent : last.content = [] := by
    rcases List.eq_nil_or_concat last.content with hnil | ⟨init, c, hc⟩
    · exact hnil
    · rw [hc, List.concat_eq_append, ← List.append_assoc] at htext
      obtain ⟨-, hcn⟩ := List.append_inj' htext rfl
      exact absurd (by simp [hc, List.singleton_inj.1 hcn]) hlast.content
  refine ⟨front, hfront, by simpa [hcontent] using htext, ?_⟩
  cases last with
  | mk content ending => rw [heq, congrArg₂ Line.mk hcontent hlast.ending]

theorem Ended.count_full (h : line.Ended) : line.full.count '\n' = 1 := by
  have hcontent : line.content.count '\n' = 0 := List.count_eq_zero.2 h.content
  rw [full, List.count_append, hcontent]
  rcases h.ending with he | ⟨he, -⟩ <;> rw [he] <;> rfl

/-- A text of ended lines has as many line feeds as lines. -/
theorem count_flatMap_full (h : ∀ line ∈ front, line.Ended) :
    (front.flatMap full).count '\n' = front.length := by
  induction front with
  | nil => rfl
  | cons line front ih =>
    obtain ⟨hline, hfront⟩ := List.forall_mem_cons.1 h
    rw [List.flatMap_cons, List.count_append, hline.count_full, ih hfront, List.length_cons]
    omega

end Line

end KeyedText
