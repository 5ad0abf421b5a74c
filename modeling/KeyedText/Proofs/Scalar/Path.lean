import KeyedText.Proofs.Binding.Location
import KeyedText.Proofs.Text.Split
import KeyedText.Scalar.Path
import Mathlib.Data.List.Basic

/-!
# The order of paths

The place of a path is that of its parts, one behind the other: paths have the same place exactly
when they have the same parts, and otherwise the first parts that differ decide. As keys of a map
they are then the same, however they are spelled.

## Main statements

- `PathPart.ofPath_double_slash`, `PathPart.ofPath_dot`, `PathPart.ofPath_last_slash` — what makes
  no difference in a path
- `PathPart.flatMap_rank_lt_iff`, `PathPart.flatMap_rank_injective` — the place of some parts
- `MapKey.same_path_iff` — when paths are the same key
-/

namespace KeyedText

namespace PathPart

/-! ## Spellings -/

/-- The parts of a path up to a slash and behind it. -/
theorem ofPath_append (front rest : Text) :
    ofPath (front ++ '/' :: rest) =
      (if front = [] then [root] else ofPath front) ++
        (Text.splitOn '/' rest).filterMap ofPiece? := by
  rw [ofPath, Text.splitOn_append]
  cases front with
  | nil => simp [Text.splitOn, Text.splitOn_ne_nil]
  | cons c front =>
    have hne : Text.splitOn '/' (c :: front) ≠ [] := Text.splitOn_ne_nil (c :: front)
    obtain ⟨first, pieces, hsplit⟩ := List.exists_cons_of_ne_nil hne
    -- an empty first piece is followed by others, for the path is not empty
    have hfirst : first = [] → pieces ≠ [] := by
      rintro rfl rfl
      have hjoin := congrArg List.length hsplit
      rw [Text.splitOn] at hsplit
      split at hsplit
      · exact Text.splitOn_ne_nil front (List.cons.inj hsplit).2
      · cases hrest : Text.splitOn '/' front with
        | nil => exact Text.splitOn_ne_nil front hrest
        | cons piece others => simp [hrest, Text.pushFront] at hsplit
    rw [hsplit, ofPath, hsplit]
    by_cases hempty : first = []
    · simp [hempty, hfirst hempty]
    · simp [hempty]

/-- Two slashes in a row are one. -/
theorem ofPath_double_slash (front rest : Text) :
    ofPath (front ++ '/' :: '/' :: rest) = ofPath (front ++ '/' :: rest) := by
  rw [ofPath_append, ofPath_append]
  simp [Text.splitOn, ofPiece?]

/-- A dot between two slashes is passed over. -/
theorem ofPath_dot (front rest : Text) :
    ofPath (front ++ '/' :: '.' :: '/' :: rest) = ofPath (front ++ '/' :: rest) := by
  rw [ofPath_append, ofPath_append]
  simp [Text.splitOn, Text.pushFront, ofPiece?]

/-- A slash at the end of a path makes no difference, unless the path is nothing else. -/
theorem ofPath_last_slash {path : Text} (hne : path ≠ []) :
    ofPath (path ++ ['/']) = ofPath path := by
  rw [ofPath_append, if_neg hne]
  simp [Text.splitOn, ofPiece?]

/-! ## Order -/

theorem rank_injective : Function.Injective rank := by
  intro part other h
  cases part <;> cases other
  case name.name text text' =>
    have hshift : Function.Injective fun c : Char => (c.toNat : Int) + 4 := by
      intro c c' hc
      exact Char.toNat_inj.1 (Int.ofNat_inj.1 (by simpa using hc))
    rw [List.map_injective_iff.2 hshift (List.cons.inj h).2]
  all_goals first | rfl | exact absurd (List.cons.inj h).1 (by decide)

/-- No part goes on from another one with what a part starts with. -/
theorem lt_four_of_head {parts : List PathPart} {place : Int} {rest : List Int}
    (h : parts.flatMap rank = place :: rest) : place < 4 := by
  cases parts with
  | nil => simp at h
  | cons part parts => cases part <;> simp [rank] at h <;> omega

/-- Names decide before what follows them. -/
theorem map_append_lt_iff {text text' : Text} {parts others : List PathPart} :
    text.map (fun c => (c.toNat : Int) + 4) ++ parts.flatMap rank <
        text'.map (fun c => (c.toNat : Int) + 4) ++ others.flatMap rank ↔
      text.map (fun c => (c.toNat : Int) + 4) < text'.map (fun c => (c.toNat : Int) + 4) ∨
        text = text' ∧ parts.flatMap rank < others.flatMap rank := by
  induction text generalizing text' with
  | nil =>
    cases text' with
    | nil => simp
    | cons c text' =>
      cases hrest : parts.flatMap rank with
      | nil => simp
      | cons place rest =>
        have hplace := lt_four_of_head hrest
        have hbefore : place < (c.toNat : Int) + 4 := by omega
        simp [List.cons_lt_cons_iff, hbefore]
  | cons c text ih =>
    cases text' with
    | nil =>
      cases hrest : others.flatMap rank with
      | nil => simp
      | cons place rest =>
        have hplace := lt_four_of_head hrest
        have hbehind : ¬((c.toNat : Int) + 4 < place ∨ (c.toNat : Int) + 4 = place ∧
            text.map (fun c => (c.toNat : Int) + 4) ++ parts.flatMap rank < rest) := by omega
        rw [List.map_cons, List.cons_append, List.map_nil, List.nil_append, List.cons_lt_cons_iff]
        simpa using hbehind
    | cons c' text' =>
      have hsame : (c.toNat : Int) + 4 = c'.toNat + 4 ↔ c = c' := by
        rw [← Char.toNat_inj]
        omega
      simp only [List.map_cons, List.cons_append, List.cons_lt_cons_iff, ih, List.cons.injEq, hsame,
        and_or_left, or_assoc, and_assoc]

/-- The first parts that differ decide between paths, and a path comes before what lies in it. -/
theorem flatMap_rank_lt_iff {parts others : List PathPart} :
    parts.flatMap rank < others.flatMap rank ↔ parts.map rank < others.map rank := by
  induction parts generalizing others with
  | nil => cases others with
    | nil => simp
    | cons other others => cases other <;> simp [rank]
  | cons part parts ih =>
    cases others with
    | nil => simp
    | cons other others =>
      rw [List.flatMap_cons, List.flatMap_cons, List.map_cons, List.map_cons,
        List.cons_lt_cons_iff, ← ih, rank_injective.eq_iff]
      cases part <;> cases other
      case name.name text text' =>
        simp [rank, map_append_lt_iff]
      all_goals simp [rank, List.cons_lt_cons_iff]

/-- Paths have the same place only if they have the same parts. -/
theorem flatMap_rank_injective : Function.Injective (List.flatMap rank) := by
  intro parts others h
  have hbefore : ¬parts.map rank < others.map rank := by
    rw [← flatMap_rank_lt_iff, h]
    exact List.lt_irrefl _
  have hbehind : ¬others.map rank < parts.map rank := by
    rw [← flatMap_rank_lt_iff, h]
    exact List.lt_irrefl _
  exact List.map_injective_iff.2 rank_injective (List.le_antisymm hbehind hbefore)

end PathPart

/-- Paths are the same key when they have the same parts. -/
theorem MapKey.same_path_iff {path path' : Text} :
    MapKey.same (.single (.text .path path)) (.single (.text .path path')) = true ↔
      PathPart.ofPath path = PathPart.ofPath path' := by
  rw [MapKey.same_iff, ← PathPart.flatMap_rank_injective.eq_iff]
  exact List.singleton_inj

example : MapKey.same (.single (.text .path "a/b")) (.single (.text .path "a/./b//")) = true := by
  decide

end KeyedText
