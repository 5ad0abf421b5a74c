import KeyedText.Proofs.Key.Rendered
import KeyedText.Proofs.Source.Grammar
import KeyedText.Source.Content

/-!
# Keys with one more index

Behind a key that ends without an index stands an index between brackets. It belongs to the last
part of the key, whatever the key looks like, if it closes the brackets that it opens. The indices
of the keys in a source do, and they are read from their texts as they were.

## Main definitions

- `Index.Legible` — the index closes its brackets and is read from its own text

## Main statements

- `KeyPath.parts_append_index` — the parts of a key with one more index
- `Content.legible_indices` — the indices of the keys in a source are legible
-/

namespace KeyedText

namespace Bracket

variable {separator : Char} {depth : Nat} {text last suffix name content : Text}
  {front : List Text}

theorem exists_concat_splitFrom (separator : Char) (depth : Nat) (text : Text) :
    ∃ front last, splitFrom separator depth text = front ++ [last] := by
  obtain ⟨first, rest, hsplit⟩ := exists_splitFrom separator depth text
  rw [hsplit]
  exact ⟨_, _, (List.dropLast_append_getLast (List.cons_ne_nil first rest)).symm⟩

/-- A sealed text behind a last piece that opens no bracket is part of that piece. -/
theorem splitFrom_append_sealed (hsplit : splitFrom separator depth text = front ++ [last])
    (hopen : '[' ∉ last) (hstart : front = [] → depth = 0) (h : Sealed separator 0 suffix) :
    splitFrom separator depth (text ++ suffix) = front ++ [last ++ suffix] := by
  -- a piece that is not the first one starts at depth zero, and stays there without a bracket
  induction text generalizing depth front last with
  | nil =>
    obtain ⟨rfl, hlast⟩ := List.append_inj' (show [] ++ [[]] = front ++ [last] from hsplit) rfl
    obtain rfl := List.singleton_inj.1 hlast
    rw [hstart rfl]
    exact splitFrom_of_sealed h
  | cons c text ih =>
    rw [List.cons_append, splitFrom]
    rw [splitFrom] at hsplit
    by_cases hc : c = separator ∧ depth = 0
    · obtain ⟨front', last', hrest⟩ := exists_concat_splitFrom separator 0 text
      rw [if_pos hc, hrest, ← List.cons_append] at hsplit
      obtain ⟨rfl, hlast⟩ := List.append_inj' hsplit rfl
      obtain rfl := List.singleton_inj.1 hlast
      rw [if_pos hc, ih hrest hopen fun _ => rfl]
      rfl
    · obtain ⟨front', last', hrest⟩ := exists_concat_splitFrom separator (step depth c) text
      rw [if_neg hc, hrest] at hsplit
      rw [if_neg hc]
      cases front' with
      | nil =>
        obtain ⟨rfl, hlast⟩ := List.append_inj' (show [] ++ [c :: last'] = _ from hsplit) rfl
        obtain rfl := List.singleton_inj.1 hlast
        rw [List.mem_cons, not_or] at hopen
        have hstep : step depth c = 0 := by
          rw [hstart rfl, step, if_neg (Ne.symm hopen.1)]
          split <;> rfl
        rw [ih hrest hopen.2 fun _ => hstep]
        rfl
      | cons piece front' =>
        obtain ⟨rfl, hlast⟩ := List.append_inj' (show ((c :: piece) :: front') ++ [last'] = _ from
          hsplit) rfl
        obtain rfl := List.singleton_inj.1 hlast
        rw [ih hrest hopen fun h => absurd h (by simp)]
        rfl

end Bracket

/-! ## One more index -/

variable {text name label : Text} {last : KeyPart}

/-- A name with a text between brackets behind it is a part with one index. -/
theorem KeyPart.ofText_append_index (hopen : '[' ∉ name) (h : Bracket.Sealed ']' 0 label) :
    KeyPart.ofText (name ++ ('[' :: label ++ [']'])) = ⟨name, [Index.ofText label]⟩ := by
  have hname : (name ++ ('[' :: label ++ [']'])).takeWhile (· ≠ '[') = name := by
    rw [List.takeWhile_append_of_pos]
    · simp
    · intro c hc
      have hne : c ≠ '[' := fun heq => hopen (heq ▸ hc)
      simpa using hne
  have hbodies : Bracket.bodies (name ++ ('[' :: label ++ [']'])) = [label] := by
    have hindices := Bracket.bodiesFrom_indices [label] (by simpa using h)
    rw [List.flatMap_singleton] at hindices
    rw [Bracket.bodies, Bracket.bodiesFrom_append hopen, hindices]
  rw [KeyPart.ofText, hname, hbodies, List.map_singleton]

/-- An index behind a key without one belongs to its last part. -/
theorem KeyPath.parts_append_index (hlast : (KeyPath.ofText text).parts.getLast? = some last)
    (hplain : last.indices = []) (h : Bracket.Sealed ']' 0 label) :
    (KeyPath.ofText (text ++ ('[' :: label ++ [']']))).parts =
      (KeyPath.ofText text).parts.dropLast ++ [⟨last.name, [Index.ofText label]⟩] := by
  have hblank : Text.allBlank text = false := by
    rw [← Bool.not_eq_true]
    intro hall
    rw [KeyPath.ofText, hall] at hlast
    exact absurd hlast (by simp)
  have hblank' : Text.allBlank (text ++ ('[' :: label ++ [']'])) = false := by
    rw [Text.allBlank, List.all_append, ← Text.allBlank, hblank, Bool.false_and]
  obtain ⟨front, piece, hsplit⟩ := Bracket.exists_concat_splitFrom '.' 0 text
  rw [KeyPath.parts_ofText hblank, Bracket.split, hsplit, List.map_append, List.map_singleton]
    at hlast ⊢
  rw [List.getLast?_concat] at hlast
  obtain rfl := Option.some.inj hlast
  have hopen : '[' ∉ piece := by
    intro hmem
    exact Bracket.bodiesFrom_ne_nil hmem (List.map_eq_nil_iff.1 hplain)
  have hname : (KeyPart.ofText piece).name = piece := KeyPart.name_of_plain hopen
  have hindex : Bracket.Sealed '.' 0 ('[' :: label ++ [']']) := Bracket.sealed_index h (by decide)
  rw [KeyPath.parts_ofText hblank', Bracket.split,
    Bracket.splitFrom_append_sealed hsplit hopen (fun _ => rfl) hindex, List.map_append,
    List.map_singleton, KeyPart.ofText_append_index hopen h, List.dropLast_concat, hname]

/-! ## The indices of a source -/

/-- The index closes the brackets that it opens, and is read from its own text as it is. -/
structure Index.Legible (index : Index) : Prop where
  closed : Bracket.Sealed ']' 0 index.text
  ofText_text : Index.ofText index.text = index

/-- An index that is read is read from its own text as well. -/
theorem Index.ofText_trim (body : Text) : Index.ofText (Text.trim body) = Index.ofText body := by
  rw [Index.ofText, Index.ofText, Text.trim_trim, Bracket.tokens_trim (by decide)]

/-- The indices of the key of an assignment are legible. -/
theorem KeyPath.legible_indices {key line rest : Text}
    (h : splitAssignment line = some (key, rest)) :
    ∀ part ∈ (KeyPath.ofText key).parts, ∀ index ∈ part.indices, index.Legible := by
  obtain ⟨hsealed, hblank, -⟩ := splitAssignment_eq_some h
  rw [KeyPath.parts_ofText hblank, List.forall_mem_map]
  intro piece hpiece index hindex
  obtain ⟨hsign, hdot⟩ := Bracket.split_sealed (by decide) (by decide) hsealed piece hpiece
  have hlegible := KeyPart.legible_written hdot hsign
  constructor
  · exact hlegible.indices index.text (List.mem_map_of_mem hindex)
  · obtain ⟨body, -, rfl⟩ := List.mem_map.1 hindex
    exact Index.ofText_trim body

/-- The indices of the keys in a source are legible. -/
theorem Content.legible_indices (text : Text) :
    ∀ pair ∈ (Content.ofText text).pairs, ∀ part ∈ pair.key.parts, ∀ index ∈ part.indices,
      index.Legible := by
  have hreads : RawPair.Reads 1 (Line.ofText text) (RawPair.ofText text) :=
    (RawPair.reads_iff [] rfl).2 rfl
  intro pair hpair
  obtain ⟨raw, hraw, rfl⟩ := List.mem_map.1 (show pair ∈ Content.readPairs text from hpair)
  obtain ⟨line, value, -, hsplit⟩ := hreads.exists_line raw hraw
  exact KeyPath.legible_indices hsplit

end KeyedText
