import KeyedText.Proofs.Binding.Taking
import KeyedText.Proofs.Binding.Typed
import KeyedText.Proofs.Key.Suffixed

/-!
# Writing into lists

A list takes all of its items from one text, or one item after the other at their positions. Both
ways give the same list.

## Main definitions

- `Object.Holds` — what a name addresses in an object
- `indexedPairs` — the pairs that write texts to positions one after the other

## Main statements

- `Object.Holds.populate_cons` — a pair for a member, and the pairs behind it
- `Object.Holds.populate_indexed` — texts for the positions behind the items of a list
- `Object.populate_inline` — one text for a list, or its pieces one after the other
-/

namespace KeyedText

variable {schema : Schema} {options : BindOptions} {target : Object} {name : Text}
  {member : Member} {slot : Slot} {element : SlotType}

/-! ## Members of an object -/

/-- A name addresses a member of an object that can be written, and what the object holds there. -/
structure Object.Holds (schema : Schema) (target : Object) (name : Text) (member : Member)
    (slot : Slot) : Prop where
  found : (schema.find target.typeName).findMember (Text.fold name) = some member
  binds : (member.ignoreSet || !member.writable) = false
  there : Entries.get? member.field target.fields = some slot

namespace Object

/-- An object with one of its fields replaced. -/
def put (target : Object) (field : Text) (slot : Slot) : Object :=
  { target with fields := Fields.put field slot target.fields }

theorem put_put (target : Object) (field : Text) (slot later : Slot) :
    (target.put field slot).put field later = target.put field later := by
  simp only [put, Fields.put_put]

/-- The place of a pair in a member of an object. -/
def site (target : Object) (schema : Schema) (options : BindOptions) (member : Member)
    (pair : Pair) : Site :=
  (Site.ofPair options pair (schema.find target.typeName).label).into
    (schema.find target.typeName) member

namespace Holds

theorem put (h : target.Holds schema name member slot) (later : Slot) :
    (target.put member.field later).Holds schema name member later :=
  ⟨h.found, h.binds, Fields.get?_put_self h.there⟩

theorem put_self (h : target.Holds schema name member slot) :
    target.put member.field slot = target := by
  rw [Object.put, Fields.put_of_get? h.there]

/-- What is done to the member decides what is done to the object. -/
theorem bind_member (h : target.Holds schema name member slot) (pair : Pair) (steps : List Step) :
    target.bind schema options pair (.member name :: steps) =
      let result := Slot.bind schema options.converters pair.value
        (target.site schema options member pair) steps slot
      (target.put member.field result.1, result.2) := by
  simp only [Object.bind, Fields.member, h.found, h.binds, Fields.update_eq_put _ _ h.there]
  rfl

/-- The pair that comes first writes into the member, and the others find what it left there. -/
theorem populate_cons (h : target.Holds schema name member slot) {pair : Pair}
    {indices : List Index} (hkey : pair.key.parts = [⟨name, indices⟩]) (pairs : List Pair) :
    target.populate schema options (KeyPath.ofText []) (pair :: pairs) =
      match Slot.bind schema options.converters pair.value (target.site schema options member pair)
        (indices.map .index) slot with
      | (slot, .failed fault) => (target.put member.field slot, some fault)
      | (slot, _) =>
        (target.put member.field slot).populate schema options (KeyPath.ofText []) pairs := by
  have hparts : (KeyPath.ofText []).stripPrefix? pair.key = some [⟨name, indices⟩] := by
    rw [← hkey]
    rfl
  have hsteps : stepsOf [⟨name, indices⟩] = .member name :: indices.map .index := by
    simp [stepsOf, KeyPart.steps]
  rw [Object.populate, hparts]
  dsimp only
  rw [hsteps, h.bind_member]
  obtain ⟨slot, outcome⟩ := Slot.bind schema options.converters pair.value
    (target.site schema options member pair) (indices.map .index) slot
  cases outcome <;> rfl

end Holds

end Object

/-! ## One text or several -/

/-- What a text stands for depends on the separator and the registered types only. -/
theorem SlotType.read_detached (site : Site) (type : SlotType) (raw : Text) :
    type.read site raw = type.read (.detached site.separator site.types) raw := by
  induction type generalizing raw with
  | option content ih => rw [read, read, ih]
  | boxed content ih => rw [read, read, ih]
  | list element ih =>
    simp only [read, ih]
    rfl
  | _ => rfl

theorem Object.read_site (target : Object) (schema : Schema) (options : BindOptions)
    (member : Member) (pair : Pair) (type : SlotType) (raw : Text) :
    type.read (target.site schema options member pair) raw =
      type.read (.detached options.separator options.types) raw :=
  SlotType.read_detached _ type raw

/-- A text for the position behind the last item of a list makes a new item, which is left as it
began when the text cannot be read. -/
theorem Slot.bind_newItem {converters : ConverterRegistry} {site : Site} {raw : Text}
    (hplain : site.member.converter = none) {done : List Slot}
    (hlength : done.length + 1 < 2 ^ 64) :
    Slot.bind schema converters (some raw) site [.index (Index.ofText (Text.ofNat done.length))]
        (.list element done) =
      match element.read site raw with
      | .ok item => (.list element (done ++ [item]), .assigned)
      | .error cause =>
        (.list element (done ++ [schema.initial element]), site.fault (some raw) cause) := by
  have hitem : done[done.length]? = none := by simp
  have hreads := Binds.readPosition?_index (Nat.lt_of_succ_lt hlength)
  rw [bind_eq_bindWithin, bindWithin_position hreads (padded?_atEnd hlength), hitem,
    Option.getD_none, Slot.bind, assignLeaf_eq hplain, type_initial]
  cases element.read site raw <;> simp

/-- The pairs that write texts to the positions of a member, from a position on. -/
def indexedPairs (key : Text) (position : Nat) (texts : List Text) : List Pair :=
  (numbered position texts).map fun entry =>
    Pair.ofText (key ++ ('[' :: entry.1 ++ [']'])) (some entry.2)

theorem parts_index_ofNat {key : Text} (hkey : (KeyPath.ofText key).parts = [⟨name, []⟩])
    (n : Nat) :
    (KeyPath.ofText (key ++ ('[' :: Text.ofNat n ++ [']']))).parts =
      [⟨name, [Index.ofText (Text.ofNat n)]⟩] := by
  have hsealed : Bracket.Sealed ']' 0 (Text.ofNat n) := by
    refine Bracket.sealed_of_plain fun c hc => ?_
    have hdigit := Text.isDigit_of_mem_ofNat hc
    constructor <;> rintro rfl <;> exact absurd hdigit (by decide)
  rw [KeyPath.parts_append_index (by rw [hkey]; rfl) rfl hsealed, hkey]
  rfl

/-- A text for the position behind the last item of a list becomes an item, or ends the run. -/
theorem Object.Holds.populate_newItem (options : BindOptions) {key : Text}
    (hkey : (KeyPath.ofText key).parts = [⟨name, []⟩]) (hplain : member.converter = none)
    {done : List Slot} (hlength : done.length + 1 < 2 ^ 64)
    (h : target.Holds schema name member (.list element done)) (text : Text) (pairs : List Pair) :
    let result := target.populate schema options (KeyPath.ofText [])
      (Pair.ofText (key ++ ('[' :: Text.ofNat done.length ++ [']'])) (some text) :: pairs)
    match element.read (.detached options.separator options.types) text with
    | .ok item =>
      result = (target.put member.field (.list element (done ++ [item]))).populate schema options
        (KeyPath.ofText []) pairs
    | .error _ => result.2 ≠ none := by
  intro result
  have hresult : result = _ := h.populate_cons (parts_index_ofNat hkey done.length) pairs
  rw [List.map_singleton, Pair.ofText, Slot.bind_newItem hplain hlength,
    Object.read_site] at hresult
  rw [hresult]
  cases element.read (.detached options.separator options.types) text with
  | ok item => rfl
  | error cause => simp [Site.fault]

/-- **Texts for the positions behind the items of a list**, one after the other, become items as
long as they can be read. -/
theorem Object.Holds.populate_indexed (options : BindOptions) {key : Text}
    (hkey : (KeyPath.ofText key).parts = [⟨name, []⟩]) (hplain : member.converter = none)
    {done : List Slot} {texts : List Text} (hlength : done.length + texts.length < 2 ^ 64)
    (h : target.Holds schema name member (.list element done)) :
    let result := target.populate schema options (KeyPath.ofText [])
      (indexedPairs key done.length texts)
    match readAll (element.read (.detached options.separator options.types)) texts with
    | .ok items => result = (target.put member.field (.list element (done ++ items)), none)
    | .error _ => result.2 ≠ none := by
  induction texts generalizing done target with
  | nil =>
    have hself : target.put member.field (.list element (done ++ [])) = target := by
      rw [List.append_nil, h.put_self]
    exact (congrArg (·, none) hself).symm
  | cons text texts ih =>
    rw [List.length_cons] at hlength
    have hitem := h.populate_newItem options hkey hplain (by omega) text
      (indexedPairs key (done.length + 1) texts)
    intro result
    rw [readAll]
    cases hread : element.read (.detached options.separator options.types) text with
    | error cause =>
      rw [hread] at hitem
      exact hitem
    | ok item =>
      rw [hread] at hitem
      have hmore : (done ++ [item]).length + texts.length < 2 ^ 64 := by
        rw [List.length_append, List.length_singleton]
        omega
      have hrest := ih hmore (h.put _)
      rw [List.length_append, List.length_singleton] at hrest
      replace hitem : result = _ := hitem
      rw [hitem]
      cases hreads : readAll (element.read (.detached options.separator options.types)) texts with
      | error cause =>
        rw [hreads] at hrest
        exact hrest
      | ok items =>
        rw [hreads] at hrest
        exact hrest.trans (by rw [Object.put_put, List.append_assoc, List.singleton_append])

/-- One text for a member replaces what is there, or leaves it as it was. -/
theorem Object.Holds.populate_text (options : BindOptions) {key : Text}
    (hkey : (KeyPath.ofText key).parts = [⟨name, []⟩]) (hplain : member.converter = none)
    (h : target.Holds schema name member slot) (raw : Text) :
    let result := target.populate schema options (KeyPath.ofText []) [Pair.ofText key (some raw)]
    match slot.type.read (.detached options.separator options.types) raw with
    | .ok read => result = (target.put member.field read, none)
    | .error _ => result.1 = target ∧ result.2 ≠ none := by
  intro result
  have hparts : (Pair.ofText key (some raw)).key.parts = [⟨name, []⟩] := hkey
  have hresult : result = _ := h.populate_cons hparts []
  rw [List.map_nil, Slot.bind, Pair.ofText, Slot.assignLeaf_eq hplain,
    Object.read_site] at hresult
  rw [hresult]
  cases slot.type.read (.detached options.separator options.types) raw with
  | ok read => rfl
  | error cause => exact ⟨h.put_self, by simp [Site.fault]⟩

theorem readAll_map (read : Text → Except Cause Slot) (change : Text → Text) (pieces : List Text) :
    readAll read (pieces.map change) = readAll (fun piece => read (change piece)) pieces := by
  induction pieces with
  | nil => rfl
  | cons piece pieces ih => rw [List.map_cons, readAll, readAll, ih]

theorem SlotType.read_list {raw : Text} (hblank : Text.allBlank raw = false) :
    (SlotType.list element).read (.detached options.separator options.types) raw =
      (readAll (element.read (.detached options.separator options.types))
        ((Text.splitOn options.separator raw).map Text.trim)).map (.list element) := by
  rw [read, if_neg (by simp [hblank]), readAll_map]
  rfl

/-- **One text for an empty list, or its pieces one after the other.** The list takes the text if it
takes the pieces between the separators, without their outer blanks, one by one at the positions
from 0 on, and then it is the same list; a text that it does not take leaves it empty. No text in
memory has so many pieces that a position could not address them. -/
theorem Object.populate_inline {key raw : Text}
    (hkey : (KeyPath.ofText key).parts = [⟨name, []⟩]) (hplain : member.converter = none)
    (h : target.Holds schema name member (.list element []))
    (hblank : Text.allBlank raw = false)
    (hlength : (Text.splitOn options.separator raw).length < 2 ^ 64) :
    let pieces := (Text.splitOn options.separator raw).map Text.trim
    let inline := target.populate schema options (KeyPath.ofText []) [Pair.ofText key (some raw)]
    let indexed := target.populate schema options (KeyPath.ofText []) (indexedPairs key 0 pieces)
    (inline.2 = none ↔ indexed.2 = none) ∧ (inline.2 = none → inline.1 = indexed.1) ∧
      (inline.2 ≠ none → inline.1 = target) := by
  intro pieces inline indexed
  have hpieces : ([] : List Slot).length + pieces.length < 2 ^ 64 := by
    rwa [List.length_nil, Nat.zero_add, List.length_map]
  have hinline := h.populate_text options hkey hplain raw
  have hindexed := h.populate_indexed options hkey hplain hpieces
  rw [Slot.type, SlotType.read_list hblank] at hinline
  cases hread : readAll (element.read (.detached options.separator options.types)) pieces with
  | ok items =>
    rw [hread] at hinline hindexed
    have hinline : inline = (target.put member.field (.list element items), none) := hinline
    have hindexed : indexed = (target.put member.field (.list element items), none) := hindexed
    rw [hinline, hindexed]
    exact ⟨Iff.rfl, fun _ => rfl, fun hne => absurd rfl hne⟩
  | error cause =>
    rw [hread] at hinline hindexed
    obtain ⟨htarget, hfault⟩ := hinline
    exact ⟨iff_of_false hfault hindexed, fun hnone => absurd hnone hfault, fun _ => htarget⟩

/-- A board has rows of numbers. -/
def boardSchema : Schema where
  types :=
    [{ typeName := "Board", label := "Board"
       members := [{ name := "Rows", field := "rows", aliases := ["Lines"] }]
       initial := [("rows", .list (.list (.scalar (.integer (.signed 32)))) [])] }]

/-- A board without rows. -/
def board : Object where
  typeName := "Board"
  fields := [("rows", .list (.list (.scalar (.integer (.signed 32)))) [])]

/-- The rows are divided by the separator that divides their numbers as well, so each of them has
one number or none. -/
theorem board_populate_inline :
    let options : BindOptions := { separator := ';' }
    let inline := board.populate boardSchema options (KeyPath.ofText [])
      [Pair.ofText "lines" (some " 1; ;-2\t;".toList)]
    let indexed := board.populate boardSchema options (KeyPath.ofText [])
      (indexedPairs "lines" 0 ["1".toList, [], "-2".toList, []])
    inline.2 = none ∧ indexed.2 = none ∧ inline.1 = indexed.1 := by
  intro options inline indexed
  have hinline : inline.2 = none := by decide
  have hholds : board.Holds boardSchema "lines"
      { name := "Rows", field := "rows", aliases := ["Lines"] }
      (.list (.list (.scalar (.integer (.signed 32)))) []) := ⟨rfl, rfl, rfl⟩
  have hkey : (KeyPath.ofText "lines").parts = [⟨"lines", []⟩] := by decide
  have hblank : Text.allBlank " 1; ;-2\t;" = false := by decide
  have hlength : (Text.splitOn options.separator " 1; ;-2\t;").length < 2 ^ 64 := by decide
  obtain ⟨hiff, hsame, -⟩ := Object.populate_inline hkey rfl hholds hblank hlength
  exact ⟨hinline, hiff.1 hinline, hsame hinline⟩

end KeyedText
