import KeyedText.Decoding.Decode
import KeyedText.Encoding.Document
import KeyedText.Proofs.Document.Branches
import KeyedText.Proofs.Number.Plain
import KeyedText.Proofs.RoundTrip.Objects

/-!
# JSON that comes back

A JSON object that was written is what its text is read as, but that booleans and numbers are read
as texts. The tree of the text has a branch for every item and every member; each branch is a tree
that was written from the leaves of the item or the member alone.

## Main definitions

- `Json.Returnable` — JSON in which nothing is empty and no two names are the same
- `Json.spelled` — JSON with its booleans and numbers as texts
- `Json.leaves` — the leaves of JSON

## Main statements

- `Json.Returnable.writes` — JSON is written as the pairs of its leaves
- `Json.Returnable.content_written` — the tree that is written from the leaves holds the JSON again
- `Json.ofPairs_encodeDocument` — the round trip of a document
-/

namespace KeyedText

namespace Json

/-- JSON of which something is left everywhere when it is written: it has no null and nothing
empty, its arrays can be indexed, the names in an object are told apart, and no text loses a
carriage return at its end. -/
inductive Returnable (options : EncodeOptions) : Json → Prop
  | bool (b : Bool) : Returnable options (.bool b)
  | integer (n : Int) : Returnable options (.integer n)
  | binary (x : Binary) : Returnable options (.binary x)
  | string {t : Text} (h : options.crlf = true ∨ t.getLast? ≠ some '\r') :
      Returnable options (.string t)
  | array {items : List Json} (ne_nil : items ≠ []) (length : items.length ≤ 2 ^ 64)
      (each : ∀ item ∈ items, Returnable options item) : Returnable options (.array items)
  | object {entries : List (Text × Json)} (ne_nil : entries ≠ [])
      (apart : entries.Pairwise fun left right => Text.fold left.1 ≠ Text.fold right.1)
      (each : ∀ entry ∈ entries, Returnable options entry.2) : Returnable options (.object entries)

mutual

/-- The value with its booleans and numbers as texts. -/
def spelled : Json → Json
  | .null => .null
  | .bool b => .string (Scalar.boolText b)
  | .integer n => .string (Text.ofInt n)
  | .binary x => .string (numeral x)
  | .string t => .string t
  | .array items => .array (spelledItems items)
  | .object entries => .object (spelledEntries entries)

/-- The items of an array with their booleans and numbers as texts. -/
def spelledItems : List Json → List Json
  | [] => []
  | item :: items => item.spelled :: spelledItems items

/-- The members of an object with their booleans and numbers as texts. -/
def spelledEntries : List (Text × Json) → List (Text × Json)
  | [] => []
  | (name, value) :: rest => (name, value.spelled) :: spelledEntries rest

end

mutual

/-- The leaves of JSON: its texts, numbers and booleans. -/
def leaves : Json → List Leaf
  | .null => []
  | .bool b => [([], Scalar.boolText b)]
  | .integer n => [([], Text.ofInt n)]
  | .binary x => [([], numeral x)]
  | .string t => [([], t)]
  | .array items => leavesOfIndexed (numbered 0 (leavesOfElements items))
  | .object entries =>
    (leavesOfMembers entries).flatMap fun entry => entry.2.map (Leaf.behind (.member entry.1))

/-- The leaves of the items of an array. -/
def leavesOfElements : List Json → List (List Leaf)
  | [] => []
  | item :: items => item.leaves :: leavesOfElements items

/-- The leaves of the members of an object. -/
def leavesOfMembers : List (Text × Json) → List (Text × List Leaf)
  | [] => []
  | (name, value) :: rest => (name, value.leaves) :: leavesOfMembers rest

end

variable {options : EncodeOptions} {value : Json} {items : List Json}
  {entries : List (Text × Json)} {text : Text}

theorem spelledItems_eq (items : List Json) : spelledItems items = items.map spelled := by
  induction items with
  | nil => rfl
  | cons item items ih => rw [spelledItems, ih, List.map_cons]

theorem spelledEntries_eq (entries : List (Text × Json)) :
    spelledEntries entries = entries.map fun entry => (entry.1, entry.2.spelled) := by
  induction entries with
  | nil => rfl
  | cons entry entries ih => rw [spelledEntries, ih, List.map_cons]

theorem leavesOfElements_eq (items : List Json) : leavesOfElements items = items.map leaves := by
  induction items with
  | nil => rfl
  | cons item items ih => rw [leavesOfElements, ih, List.map_cons]

theorem leavesOfMembers_eq (entries : List (Text × Json)) :
    leavesOfMembers entries = entries.map fun entry => (entry.1, entry.2.leaves) := by
  induction entries with
  | nil => rfl
  | cons entry entries ih => rw [leavesOfMembers, ih, List.map_cons]

/-! ## What is written -/

theorem accepted_position (position : Nat) :
    (Segment.index (Text.ofNat position)).Accepted := by
  refine checkIndex_eq_ok_iff.2 ⟨Text.trim_ofNat position, fun c hc => ?_⟩
  have hdigit := Text.isDigit_of_mem_ofNat hc
  refine ⟨?_, ?_, ?_, ?_⟩
  · rintro rfl
    exact absurd hdigit (by decide)
  · rintro rfl
    exact absurd hdigit (by decide)
  · rintro rfl
    exact absurd hdigit (by decide)
  · rintro rfl
    exact absurd hdigit (by decide)

theorem text_extend_position {key : WrittenKey} (h : key ≠ []) (position : Nat) :
    (key.extend (.index (Text.ofNat position))).text = positionKey key.text position := by
  rw [WrittenKey.extend, WrittenKey.text_addIndex h, WrittenPart.bracketed, positionKey,
    List.cons_append, List.append_assoc]
  rfl

/-- What the items of an array write, the array writes behind their positions. -/
theorem writes_elements (position : Nat)
    (h : ∀ item ∈ items, Encoder.Writes options (item.encode options) item.leaves) :
    Encoder.Writes options (fun key => encodeElements options key position items)
      (leavesOfIndexed (numbered position (leavesOfElements items))) := by
  intro key hkey text htext
  induction items generalizing position text with
  | nil =>
    obtain rfl := Except.ok.inj htext
    exact .nil options key
  | cons item items ih =>
    obtain ⟨hitem, hrest⟩ := List.forall_mem_cons.1 h
    obtain ⟨own, hown, htext⟩ := bind_eq_ok.1 htext
    obtain ⟨rest, hrestText, htext⟩ := bind_eq_ok.1 htext
    obtain rfl := Except.ok.inj htext
    have hsegment := accepted_position position
    rw [← text_extend_position hkey.ne_nil] at hown
    have hhere := hitem _ (hkey.extend hsegment) own hown
    exact (hhere.behind hsegment).append (ih (position + 1) hrest rest hrestText)

/-- What the members of an object write, the object writes behind their names. -/
theorem writes_entries {key : WrittenKey} (hkey : key = [] ∨ key.Accepted)
    (h : ∀ entry ∈ entries, Encoder.Writes options (entry.2.encode options) entry.2.leaves)
    (htext : encodeMembers options key.text entries = .ok text) :
    WritesUnder options key (Json.object entries).leaves text := by
  rw [leaves]
  induction entries generalizing text with
  | nil =>
    obtain rfl := Except.ok.inj htext
    exact .nil options key
  | cons entry entries ih =>
    obtain ⟨hentry, hrest⟩ := List.forall_mem_cons.1 h
    obtain ⟨_, hname, htext⟩ := bind_eq_ok.1 htext
    obtain ⟨own, hown, htext⟩ := bind_eq_ok.1 htext
    obtain ⟨rest, hrestText, htext⟩ := bind_eq_ok.1 htext
    obtain rfl := Except.ok.inj htext
    have hsegment : (Segment.member entry.1).Accepted := hname
    -- the members of the document itself have no key in front of them
    have haccepted : (key.extend (.member entry.1)).Accepted := by
      rcases hkey with rfl | hkey
      · exact WrittenKey.accepted_name hname
      · exact hkey.extend hsegment
    rw [← WrittenKey.text_extend_member hkey] at hown
    exact ((hentry _ haccepted own hown).behind hsegment).append (ih hrest hrestText)

/-- JSON is written as the pairs of its leaves. -/
theorem Returnable.writes (h : value.Returnable options) :
    Encoder.Writes options (value.encode options) value.leaves := by
  induction h with
  | bool b => exact fun _ _ _ => .leaf
  | integer n => exact fun _ _ _ => .leaf
  | binary x => exact fun _ _ _ => .leaf
  | string _ => exact fun _ _ _ => .leaf
  | array _ _ _ ih => exact writes_elements 0 ih
  | object _ _ _ ih => exact fun key hkey text htext => writes_entries (.inr hkey) ih htext

/-! ## What is read -/

theorem Returnable.leaves_ne_nil (h : value.Returnable options) : value.leaves ≠ [] := by
  induction h with
  | bool b => simp [leaves]
  | integer n => simp [leaves]
  | binary x => simp [leaves]
  | string h => simp [leaves]
  | array hne _ _ ih =>
    obtain ⟨item, items, rfl⟩ := List.exists_cons_of_ne_nil hne
    have hitem := ih item (by simp)
    simp [leaves, leavesOfElements, numbered, leavesOfIndexed, hitem]
  | object hne _ _ ih =>
    obtain ⟨entry, entries, rfl⟩ := List.exists_cons_of_ne_nil hne
    have hentry := ih entry (by simp)
    simp [leaves, leavesOfMembers, hentry]

theorem scanned_of_no_blank (h : ∀ c ∈ text, Text.isBlank c = false) :
    scanned options text = text := by
  refine scanned_eq (.inr fun hlast => ?_)
  exact absurd (h '\r' (List.mem_of_getLast? hlast)) (by decide)

/-- The tree that is written from the leaves of an array has the trees of its items. -/
theorem written_leavesOfIndexed (hne : ∀ item ∈ items, item.leaves ≠ []) :
    Tree.written ((Json.array items).leaves.map (Leaf.heard options)) Tree.empty =
      .node none [] (numbered 0 (items.map fun item =>
        Tree.written (item.leaves.map (Leaf.heard options)) Tree.empty)) := by
  have hgroups : ∀ group ∈ numbered 0 (items.map fun item => item.leaves.map (Leaf.heard options)),
      group.2 ≠ [] := by
    intro group hgroup
    obtain ⟨item, hitem, heq⟩ := List.mem_map.1 (mem_of_mem_numbered hgroup)
    rw [← heq]
    simpa using hne item hitem
  have htree := Tree.written_items _ hgroups (trim_numbered 0 _) (pairwise_numbered 0 _)
  have hitems : items.map (fun item => item.leaves.map (Leaf.heard options)) =
      (items.map leaves).map (List.map (Leaf.heard options)) := by
    rw [List.map_map]
    rfl
  rw [← numbered_map (fun texts => Tree.written texts Tree.empty), List.map_map] at htree
  rw [leaves, leavesOfElements_eq, heard_leavesOfIndexed]
  rw [hitems, numbered_map (List.map (Leaf.heard options)), List.flatMap_map] at htree
  exact htree

/-- The tree that is written from the leaves of an object has the trees of its members. -/
theorem written_leavesOfMembers (hne : ∀ entry ∈ entries, entry.2.leaves ≠ [])
    (hapart : entries.Pairwise fun left right => Text.fold left.1 ≠ Text.fold right.1) :
    Tree.written ((Json.object entries).leaves.map (Leaf.heard options)) Tree.empty =
      .node none (entries.map fun entry => (Spelling.ofName entry.1,
        Tree.written (entry.2.leaves.map (Leaf.heard options)) Tree.empty)) [] := by
  have hgroups := Tree.written_members
    (entries.map fun entry => (entry.1, entry.2.leaves.map (Leaf.heard options)))
    (List.forall_mem_map.2 fun entry hentry => by simpa using hne entry hentry)
    (List.pairwise_map.2 hapart)
  rw [List.map_map] at hgroups
  refine Eq.trans ?_ hgroups
  rw [leaves, leavesOfMembers_eq]
  simp only [List.map_flatMap, List.flatMap_map, List.map_map]
  rfl

theorem accepted_of_element {item : Json} (h : ∀ leaf ∈ (Json.array items).leaves, leaf.Accepted)
    (hitem : item ∈ items) : ∀ leaf ∈ item.leaves, leaf.Accepted := by
  rw [leaves, leavesOfElements_eq] at h
  obtain ⟨index, hindex⟩ := exists_mem_numbered 0 (List.mem_map_of_mem (f := leaves) hitem)
  exact fun leaf hleaf => (accepted_of_indexed h hindex hleaf).2

theorem accepted_of_entry {entry : Text × Json} {leaf : Leaf}
    (h : ∀ leaf ∈ (Json.object entries).leaves, leaf.Accepted) (hentry : entry ∈ entries)
    (hleaf : leaf ∈ entry.2.leaves) : checkName entry.1 = .ok () ∧ leaf.Accepted := by
  rw [leaves, leavesOfMembers_eq, List.flatMap_map] at h
  have hbehind := h (leaf.behind (.member entry.1))
    (List.mem_flatMap.2 ⟨entry, hentry, List.mem_map_of_mem hleaf⟩)
  exact ⟨hbehind (.member entry.1) List.mem_cons_self,
    fun segment hsegment => hbehind segment (List.mem_cons_of_mem _ hsegment)⟩

/-- The tree that is written from the leaves holds the value again. -/
theorem Returnable.content_written (h : value.Returnable options)
    (haccepted : ∀ leaf ∈ value.leaves, leaf.Accepted) :
    (Tree.written (value.leaves.map (Leaf.heard options)) Tree.empty).content = value.spelled := by
  have hleaf : ∀ text, scanned options text = text →
      (Tree.written ([([], text)].map (Leaf.heard options)) Tree.empty).content =
        .string text := by
    intro text htext
    rw [List.map_singleton, Leaf.heard, htext]
    rfl
  induction h with
  | bool b =>
    refine hleaf _ (scanned_of_no_blank (Text.no_blank_of_all ?_))
    cases b <;> decide
  | integer n => exact hleaf _ (scanned_of_no_blank fun _ => Text.not_isBlank_of_mem_ofInt)
  | binary x => exact hleaf _ (scanned_of_no_blank fun _ => Binary.isBlank_of_mem_text)
  | string h => exact hleaf _ (scanned_eq h)
  | @array items hne hlength heach ih =>
    rw [written_leavesOfIndexed fun item hitem => (heach item hitem).leaves_ne_nil,
      Tree.content_items (by simpa using hne) (by simpa using hlength), spelled, spelledItems_eq,
      List.map_map]
    congr 1
    exact List.map_congr_left fun item hitem =>
      ih item hitem (accepted_of_element haccepted hitem)
  | @object entries hne hapart heach ih =>
    rw [written_leavesOfMembers (fun entry hentry => (heach entry hentry).leaves_ne_nil) hapart,
      Tree.content_members (by simpa using hne), spelled, spelledEntries_eq, List.map_map]
    congr 1
    refine List.map_congr_left fun entry hentry => ?_
    obtain ⟨leaf, hleaf⟩ := List.exists_mem_of_ne_nil _ (heach entry hentry).leaves_ne_nil
    have hname := (accepted_of_entry haccepted hentry hleaf).1
    have htrim : Text.trim entry.1 = entry.1 := (checkName_eq_ok_iff.1 hname).2.1
    have hvalue := ih entry hentry fun leaf hleaf => (accepted_of_entry haccepted hentry hleaf).2
    simp only [Function.comp_apply, Spelling.ofName, htrim, hvalue]

/-! ## Names that occur once -/

theorem Returnable.merged_spelled (h : value.Returnable options) :
    value.spelled.merged = value.spelled := by
  induction h with
  | array _ _ _ ih =>
    rw [spelled, merged, spelledItems_eq, mergedItems_eq, List.map_map]
    congr 1
    exact List.map_congr_left ih
  | object _ hapart _ ih =>
    rw [spelled, merged, spelledEntries_eq, mergedEntries_eq, List.map_map]
    congr 1
    rw [ofList_of_pairwise]
    · exact List.map_congr_left fun entry hentry => congrArg (Prod.mk entry.1) (ih entry hentry)
    · rw [List.pairwise_map]
      exact hapart.imp fun hne heq => hne (congrArg Text.fold heq)
  | _ => rfl

/-! ## Documents -/

/-- The tree of pairs is written from what they are read as. -/
theorem ofPairs_eq_written {pairs : List Pair} {heard : List (List Step × Text)}
    (h : List.Forall₂ Pair.ReadsAs pairs heard) :
    Tree.ofPairs pairs = Tree.written heard Tree.empty := by
  rw [Tree.ofPairs, Tree.written]
  generalize Tree.empty = tree
  induction h generalizing tree with
  | nil => rfl
  | cons hpair _ ih =>
    obtain ⟨hsteps, hvalue, -⟩ := hpair
    rw [List.foldl_cons, List.foldl_cons, hsteps, hvalue, ih]

theorem encodeMembers_of_encodeDocument
    (htext : (Json.object entries).encodeDocument options = .ok text) :
    encodeMembers options [] entries = .ok text := by
  rw [encodeDocument] at htext
  cases hencode : encodeMembers options [] entries with
  | error fault => simp [hencode, Except.mapError] at htext
  | ok own =>
    rw [hencode] at htext
    exact congrArg Except.ok (Except.ok.inj htext)

theorem starts_at_member {leaf : Leaf} (hleaf : leaf ∈ (Json.object entries).leaves) :
    ∃ name rest, leaf.1 = .member name :: rest := by
  rw [leaves, leavesOfMembers_eq, List.flatMap_map] at hleaf
  obtain ⟨entry, -, hleaf⟩ := List.mem_flatMap.1 hleaf
  obtain ⟨inner, -, rfl⟩ := List.mem_map.1 hleaf
  exact ⟨entry.1, inner.1, rfl⟩

/-- **A document comes back.** When JSON in which nothing is empty or null and no two names of an
object are the same is written, its text is read as the same JSON with its booleans and numbers as
texts, unless a text in it ends in a carriage return and lines end in line feeds only. -/
theorem ofPairs_encodeDocument (shapes : Shapes) (separator : Char)
    (h : value.Returnable options) (htext : value.encodeDocument options = .ok text) :
    Shape.any.ofPairs shapes separator (Content.ofText text).pairs =
        .ok (Datum.ofJson value.spelled) ∧
      Json.ofTree (Tree.ofPairs (Content.ofText text).pairs) = value.spelled := by
  cases h with
  | @object entries hne hapart heach =>
    have hwritten : encodeMembers options [] entries = .ok text :=
      encodeMembers_of_encodeDocument htext
    have hvalue : (Json.object entries).Returnable options := .object hne hapart heach
    have hwrites : WritesUnder options [] (Json.object entries).leaves text :=
      writes_entries (.inl rfl) (fun entry hentry => (heach entry hentry).writes) hwritten
    have htree := ofPairs_eq_written (hwrites.pairs fun leaf => starts_at_member)
    have hcontent := hvalue.content_written hwrites.accepted
    rw [← htree] at hcontent
    have hjson : Json.ofTree (Tree.ofPairs (Content.ofText text).pairs) =
        (Json.object entries).spelled := by
      rw [Json.ofTree, hcontent, hvalue.merged_spelled]
    refine ⟨?_, hjson⟩
    rw [← hjson]
    rfl
  | _ => exact absurd htext (by simp [encodeDocument])

/-- A document with an array of arrays, a name that looks like a position, numbers, and a text of
two lines that ends in a carriage return. -/
def gridDocument : Json :=
  .object
    [("grid".toList, .array [.array [.bool true, .integer (-3)], .array [.string "a\nb\r".toList]]),
     ("0".toList, .object [("Ratio".toList, .binary (.finite false (2 ^ 52) (-54)))])]

theorem gridDocument_ofPairs_encodeDocument : ∃ text,
    gridDocument.encodeDocument { crlf := true } = .ok text ∧
      Shape.any.ofPairs [] ',' (Content.ofText text).pairs =
          .ok (Datum.ofJson gridDocument.spelled) ∧
        Json.ofTree (Tree.ofPairs (Content.ofText text).pairs) = gridDocument.spelled := by
  have hrow : Returnable { crlf := true } (.array [.bool true, .integer (-3)]) := by
    refine .array (by simp) (by decide) ?_
    simp only [List.forall_mem_cons]
    exact ⟨.bool true, .integer (-3), by simp⟩
  have htext : Returnable { crlf := true } (.array [.string "a\nb\r".toList]) := by
    refine .array (by simp) (by decide) ?_
    rw [List.forall_mem_singleton]
    exact .string (.inl rfl)
  have hreturns : gridDocument.Returnable { crlf := true } := by
    refine .object (by simp) (List.pairwise_pair.2 (by decide)) ?_
    simp only [List.forall_mem_cons]
    refine ⟨.array (by simp) (by decide) (by simpa using ⟨hrow, htext⟩), ?_, by simp⟩
    refine .object (by simp) (List.pairwise_singleton _ _) ?_
    rw [List.forall_mem_singleton]
    exact .binary _
  obtain ⟨text, hencode⟩ : ∃ text,
      gridDocument.encodeDocument { crlf := true } = .ok text := ⟨_, rfl⟩
  exact ⟨text, hencode, ofPairs_encodeDocument [] ',' hreturns hencode⟩

end Json

end KeyedText
