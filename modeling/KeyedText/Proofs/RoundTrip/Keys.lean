import KeyedText.Proofs.RoundTrip.Values
import KeyedText.Proofs.Source.Rendered
import Mathlib.Data.List.Forall2

/-!
# Keys of maps that come back

A key of a map is written as one index. A key that is one scalar takes the whole of the index when
it is read again, so it comes back whatever stands in it. The components of a composite key are read
from what stands between the commas, without outer blanks. An index can be written whatever commas
it holds, so a component that holds one, or has outer blanks, is not what comes back.

## Main definitions

- `KeyType.Common` — keys made of integers, truth values, characters and texts
- `MapKey.Separable` — the components of a key are what stands between its commas

## Main statements

- `ScalarType.Common.read_trim_iff` — the values that come back from their text without outer blanks
- `MapKey.tokens_render` — the tokens of a written key
- `MapKey.read_of_comma` — what becomes of the keys with a comma in a component
- `MapKey.read_ofText_iff` — which keys come back, and that no other key has their text
-/

namespace KeyedText

variable {values : EnumValues}

/-! ## Pieces between separators -/

theorem Bracket.split_eq_splitOn {separator : Char} {text : Text}
    (h : ∀ c ∈ text, c ≠ '[' ∧ c ≠ ']') :
    Bracket.split separator text = Text.splitOn separator text := by
  rw [Bracket.split]
  induction text with
  | nil => rfl
  | cons c text ih =>
    obtain ⟨hc, hrest⟩ := List.forall_mem_cons.1 h
    have hstep : Bracket.step 0 c = 0 := by rw [Bracket.step, if_neg hc.1, if_neg hc.2]
    simp only [Bracket.splitFrom, Text.splitOn, hstep, ih hrest, and_true]

/-! ## Components -/

/-- Integers, truth values, characters and texts. -/
def ScalarType.Common : ScalarType → Prop
  | .integer _ => True
  | .bool => True
  | .char => True
  | .text _ => True
  | _ => False

/-- Keys made of integers, truth values, characters and texts, alone or several of them. -/
def KeyType.Common : KeyType → Prop
  | .single type => type.Common
  | .tuple types => types ≠ [] ∧ ∀ type ∈ types, type.Common

/-- A value comes back from its text without outer blanks exactly when there are none: a text has
lost them, and of a blank character nothing is left. -/
theorem ScalarType.Common.read_trim_iff {value : Scalar} (hcommon : value.type.Common)
    (hfits : value.Fits values) : value.type.read (Text.trim value.render) = .ok value ↔
      Text.trim value.render = value.render := by
  cases value with
  | integer kind n =>
    rw [Scalar.render, Text.trim_ofInt, Scalar.type, ScalarType.read, ScalarType.readInteger,
      Text.trim_ofInt, IntegerKind.read_ofInt hfits]
    exact iff_of_true rfl rfl
  | bool b => cases b <;> exact iff_of_true rfl rfl
  | char c =>
    by_cases hblank : Text.isBlank c = true
    · have htrim : Text.trim [c] = [] := Text.trim_eq_nil_iff.2 (by simp [Text.allBlank, hblank])
      simp [Scalar.render, htrim, Scalar.type, ScalarType.read, ScalarType.readChar, Except.map,
        show Text.trim [] = [] from rfl]
    · have htrim : Text.trim [c] = [c] := Text.trim_eq_self_of_no_blank (by simpa using hblank)
      simp [Scalar.render, htrim, Scalar.type, ScalarType.read, ScalarType.readChar, Except.map]
  | text kind text => simp [Scalar.render, Scalar.type, ScalarType.read]
  | _ => exact absurd hcommon id

/-- Components that are read one by one come back when each does. -/
theorem KeyType.readComponents_eq_ok_iff {parts : List Scalar} {tokens : List Text}
    (hlength : tokens.length = parts.length) :
    KeyType.readComponents (parts.map Scalar.type) tokens = .ok parts ↔
      List.Forall₂ (fun part token => part.type.read token = .ok part) parts tokens := by
  induction parts generalizing tokens with
  | nil =>
    obtain rfl := List.length_eq_zero_iff.1 hlength
    exact iff_of_true rfl .nil
  | cons part parts ih =>
    obtain ⟨token, tokens, rfl⟩ := List.exists_cons_of_length_eq_add_one hlength
    rw [List.forall₂_cons, ← ih (Nat.succ.inj hlength), List.map_cons, KeyType.readComponents,
      bind_eq_ok]
    constructor
    · rintro ⟨value, hvalue, hrest⟩
      obtain ⟨parts', hparts, heq⟩ := bind_eq_ok.1 hrest
      obtain ⟨rfl, rfl⟩ := List.cons.inj (Except.ok.inj heq)
      exact ⟨hvalue, hparts⟩
    · rintro ⟨hvalue, hparts⟩
      exact ⟨part, hvalue, bind_eq_ok.2 ⟨parts, hparts, rfl⟩⟩

/-! ## Keys -/

namespace MapKey

/-- The components of a composite key are what stands between its commas, without outer blanks. A
key that is one scalar has nothing to be separated. -/
def Separable : MapKey → Prop
  | .single _ => True
  | .tuple parts => ∀ part ∈ parts, ',' ∉ part.render ∧ Text.trim part.render = part.render

instance (key : MapKey) : Decidable key.Separable :=
  match key with
  | .single _ => isTrue trivial
  | .tuple parts => inferInstanceAs
      (Decidable (∀ part ∈ parts, ',' ∉ part.render ∧ Text.trim part.render = part.render))

/-- The tokens of a written key are the pieces of its components, without outer blanks. -/
theorem tokens_render {parts : List Scalar} (hne : parts ≠ [])
    (haccepted : checkIndex (MapKey.tuple parts).render = .ok ()) :
    (Index.ofText (MapKey.tuple parts).render).tokens =
      ((parts.map Scalar.render).flatMap (Text.splitOn ',')).map Text.trim := by
  have hplain : ∀ c ∈ (MapKey.tuple parts).render, c ≠ '[' ∧ c ≠ ']' := by
    intro c hc
    obtain ⟨hopen, hclose, -⟩ := (checkIndex_eq_ok_iff.1 haccepted).2 c hc
    exact ⟨hopen, hclose⟩
  have hrenders : parts.map Scalar.render ≠ [] := mt List.map_eq_nil_iff.1 hne
  rw [Index.ofText, Bracket.split_eq_splitOn hplain, MapKey.render, Text.splitOn_join hrenders]

/-- A comma in a component of a composite key makes a token too many. -/
theorem read_of_comma {parts : List Scalar} (hne : parts ≠ [])
    (haccepted : checkIndex (MapKey.tuple parts).render = .ok ())
    (hcomma : ¬∀ part ∈ parts, ',' ∉ part.render) :
    (KeyType.tuple (parts.map Scalar.type)).read (Index.ofText (MapKey.tuple parts).render) =
      .error (.indexArity parts.length ((MapKey.tuple parts).render.count ',' + 1)) := by
  have hrenders : parts.map Scalar.render ≠ [] := mt List.map_eq_nil_iff.1 hne
  have hlength : ((parts.map Scalar.render).flatMap (Text.splitOn ',')).length =
      (MapKey.tuple parts).render.count ',' + 1 := by
    rw [← Text.splitOn_join hrenders, Text.length_splitOn, MapKey.render]
  have hmore : (MapKey.tuple parts).render.count ',' + 1 ≠ parts.length := by
    rw [← hlength, ← List.length_map Scalar.render, Ne, Text.length_flatMap_splitOn_iff,
      List.forall_mem_map]
    exact hcomma
  rw [KeyType.read, tokens_render hne haccepted, List.length_map, List.length_map, hlength,
    if_neg hmore]

/-- A composite key comes back exactly when each of its components is a token of its own. -/
theorem read_tuple_iff {parts : List Scalar} (hne : parts ≠ [])
    (hcommon : ∀ part ∈ parts, part.type.Common) (hfits : ∀ part ∈ parts, part.Fits values)
    (haccepted : checkIndex (MapKey.tuple parts).render = .ok ()) :
    (KeyType.tuple (parts.map Scalar.type)).read (Index.ofText (MapKey.tuple parts).render) =
        .ok (.tuple parts) ↔ (MapKey.tuple parts).Separable := by
  by_cases hcommas : ∀ part ∈ parts, ',' ∉ part.render
  · rw [KeyType.read, tokens_render hne haccepted, List.length_map, List.length_map]
    -- there are as many tokens as components, and each is the text of its own component
    have hpieces : (parts.map Scalar.render).flatMap (Text.splitOn ',') = parts.map Scalar.render :=
      Text.flatMap_splitOn_eq_self (List.forall_mem_map.2 hcommas)
    rw [hpieces, List.length_map, if_pos rfl, List.map_map]
    have hlength : (parts.map (Text.trim ∘ Scalar.render)).length = parts.length :=
      List.length_map _
    have hcomponents := KeyType.readComponents_eq_ok_iff hlength
    rw [List.forall₂_map_right_iff, List.forall₂_same] at hcomponents
    calc (KeyType.readComponents (parts.map Scalar.type) _).map MapKey.tuple = .ok (.tuple parts)
      _ ↔ KeyType.readComponents (parts.map Scalar.type) (parts.map (Text.trim ∘ Scalar.render)) =
            .ok parts := by simp [map_eq_ok]
      _ ↔ ∀ part ∈ parts, Text.trim part.render = part.render := by
        rw [hcomponents]
        exact forall₂_congr fun part hpart =>
          (hcommon part hpart).read_trim_iff (hfits part hpart)
      _ ↔ (MapKey.tuple parts).Separable :=
        ⟨fun h part hpart => ⟨hcommas part hpart, h part hpart⟩,
          fun h part hpart => (h part hpart).2⟩
  · rw [read_of_comma hne haccepted hcommas]
    exact iff_of_false (by simp) fun h => hcommas fun part hpart => (h part hpart).1

/-- A key that is one scalar comes back from every index that can be written. -/
theorem read_single {value : Scalar} (hcommon : value.type.Common) (hfits : value.Fits values)
    (haccepted : checkIndex (MapKey.single value).render = .ok ()) :
    (KeyType.single value.type).read (Index.ofText (MapKey.single value).render) =
      .ok (.single value) := by
  have htrim : Text.trim value.render = value.render := (checkIndex_eq_ok_iff.1 haccepted).1
  rw [KeyType.read, Index.ofText, MapKey.render, (hcommon.read_trim_iff hfits).2 htrim]
  rfl

/-- A key whose index can be written comes back from it exactly when its components are what stands
between the commas. -/
theorem read_iff {type : KeyType} {key : MapKey} (hcommon : type.Common)
    (hfits : key.Fits values type) (haccepted : checkIndex key.render = .ok ()) :
    type.read (Index.ofText key.render) = .ok key ↔ key.Separable := by
  cases key with
  | single value =>
    obtain ⟨rfl, hvalue⟩ := hfits
    exact iff_of_true (read_single hcommon hvalue haccepted) trivial
  | tuple parts =>
    obtain ⟨rfl, hparts⟩ := hfits
    obtain ⟨hne, htypes⟩ := hcommon
    exact read_tuple_iff (mt List.map_eq_nil_iff.2 hne) (List.forall_mem_map.1 htypes) hparts
      haccepted

/-- Composite keys of as many components have the same ones when they have the same text, if those
of one of them can be told apart. -/
theorem map_render_eq {parts others : List Scalar} (hne : parts ≠ [])
    (hlength : others.length = parts.length) (hseparable : (MapKey.tuple parts).Separable)
    (htext : (MapKey.tuple others).render = (MapKey.tuple parts).render) :
    others.map Scalar.render = parts.map Scalar.render := by
  have hcommas : ∀ text ∈ parts.map Scalar.render, ',' ∉ text :=
    List.forall_mem_map.2 fun part hpart => (hseparable part hpart).1
  have hrenders : parts.map Scalar.render ≠ [] := mt List.map_eq_nil_iff.1 hne
  have hothers : others.map Scalar.render ≠ [] := by
    rwa [← List.length_pos_iff, List.length_map, hlength, List.length_pos_iff]
  have hpieces :
      (others.map Scalar.render).flatMap (Text.splitOn ',') = parts.map Scalar.render := by
    rw [← Text.splitOn_join hothers, ← MapKey.render, htext, MapKey.render,
      Text.splitOn_join hrenders, Text.flatMap_splitOn_eq_self hcommas]
  -- there are as many pieces as components, so no component of the other key holds a comma
  have hotherCommas : ∀ text ∈ others.map Scalar.render, ',' ∉ text := by
    rw [← Text.length_flatMap_splitOn_iff, hpieces, List.length_map, List.length_map, hlength]
  rw [← hpieces, Text.flatMap_splitOn_eq_self hotherCommas]

theorem Separable.of_render_eq {type : KeyType} {key other : MapKey} (h : key.Separable)
    (hcommon : type.Common) (hfits : key.Fits values type) (hother : other.Fits values type)
    (htext : other.render = key.render) : other.Separable := by
  cases other with
  | single other => exact trivial
  | tuple others =>
    obtain ⟨rfl, -⟩ := hother
    cases key with
    | single value => exact absurd hfits.1 (by simp)
    | tuple parts =>
      have htypes : others.map Scalar.type = parts.map Scalar.type := KeyType.tuple.inj hfits.1
      have hlength : others.length = parts.length := by simpa using congrArg List.length htypes
      have hne : parts ≠ [] := by
        have hnil : others ≠ [] := mt List.map_eq_nil_iff.2 hcommon.1
        rwa [← List.length_pos_iff, ← hlength, List.length_pos_iff]
      have hrenders := map_render_eq hne hlength h htext
      intro other hmem
      obtain ⟨part, hpart, heq⟩ := List.mem_map.1 (hrenders ▸ List.mem_map_of_mem hmem)
      rw [← heq]
      exact h part hpart

/-- **A key of a map comes back from its index**, when that can be written, exactly if its
components are what stands between the commas, and then no other key of the type has its text. -/
theorem read_ofText_iff {type : KeyType} {key : MapKey} (hcommon : type.Common)
    (hfits : key.Fits values type) (haccepted : checkIndex key.render = .ok ()) :
    (type.read (Index.ofText key.render) = .ok key ↔ key.Separable) ∧
      (key.Separable → ∀ other : MapKey, other.Fits values type → other.render = key.render →
        other = key) := by
  refine ⟨read_iff hcommon hfits haccepted, fun hseparable other hother htext => ?_⟩
  have hread := (read_iff hcommon hfits haccepted).2 hseparable
  have hreadOther := (read_iff hcommon hother (htext ▸ haccepted)).2
    (hseparable.of_render_eq hcommon hfits hother htext)
  rw [htext, hread] at hreadOther
  exact (Except.ok.inj hreadOther).symm

end MapKey

/-- The keys of seats: a deck, what is written on it, and the mark of the seat. -/
def seatKeys : KeyType :=
  .tuple [.integer (.signed 8), .text .plain, .char]

/-- A key with inner blanks, and with the signs of a key in its components. -/
def seatKey : MapKey :=
  .tuple [.integer (.signed 8) (-128), .text .plain "upper. = deck", .char ';']

theorem seatKey_read_ofText : checkIndex seatKey.render = .ok () ∧
    seatKeys.read (Index.ofText seatKey.render) = .ok seatKey ∧
      ∀ other : MapKey, other.Fits (fun _ _ => True) seatKeys → other.render = seatKey.render →
        other = seatKey := by
  have hcommon : seatKeys.Common := ⟨by simp, by simp [ScalarType.Common]⟩
  have hfits : seatKey.Fits (fun _ _ => True) seatKeys := ⟨rfl, by simp [Scalar.Fits]; decide⟩
  have haccepted : checkIndex seatKey.render = .ok () := by decide
  obtain ⟨hread, hunique⟩ := MapKey.read_ofText_iff hcommon hfits haccepted
  exact ⟨haccepted, hread.2 (by decide), hunique (by decide)⟩

/-- Not every key whose index can be written comes back from it: `(1, "a,b")` has a token too many.
Neither do different keys have different texts: `("a,b", "c")` and `("a", "b,c")` share theirs. -/
theorem not_forall_keys_come_back :
    (¬∀ (type : KeyType) (key : MapKey), type.Common → key.Fits (fun _ _ => True) type →
      checkIndex key.render = .ok () → type.read (Index.ofText key.render) = .ok key) ∧
    ¬∀ (type : KeyType) (key other : MapKey), type.Common → key.Fits (fun _ _ => True) type →
      other.Fits (fun _ _ => True) type → checkIndex key.render = .ok () →
      checkIndex other.render = .ok () → key.render = other.render → key = other := by
  constructor
  · intro hread
    have hback := hread (.tuple [.integer (.signed 32), .text .plain])
      (.tuple [.integer (.signed 32) 1, .text .plain "a,b"]) ⟨by simp, by simp [ScalarType.Common]⟩
      ⟨rfl, by simp [Scalar.Fits]; decide⟩ (by decide)
    exact absurd hback (by decide)
  · intro hinjective
    have heq := hinjective (.tuple [.text .plain, .text .plain])
      (.tuple [.text .plain "a,b", .text .plain "c"])
      (.tuple [.text .plain "a", .text .plain "b,c"]) ⟨by simp, by simp [ScalarType.Common]⟩
      ⟨rfl, by simp [Scalar.Fits]⟩ ⟨rfl, by simp [Scalar.Fits]⟩ (by decide) (by decide) (by decide)
    exact absurd heq (by decide)

end KeyedText
