import KeyedText.Proofs.Document.Branches
import KeyedText.Proofs.Lookup
import KeyedText.Proofs.Key.Rendered

/-!
# The nodes of a tree

A node of the tree of some pairs knows only the pairs whose keys pass through it: it is the tree of
what these still write below it. So its value is the last one that was written to it, and its
branches are the classes of the steps that follow, in the order in which they were met.

A lookup tells keys apart by the tokens of their indices and a tree by their texts. For indices that
were read from a text these are the same as long as one of the two has a single token.

## Main definitions

- `Step.label`, `KeyPath.trail` — what a tree tells steps apart by
- `Tree.ofWrites` — the tree of some values with their steps
- `Tree.behind` — what is written below the end of a trail
- `Tree.Collects` — a node that holds some writes
- `KeyPath.IsRead` — a path whose indices were read from texts

## Main statements

- `Tree.ofWrites_eq` — a node and its branches
- `Tree.walk?_ofWrites` — the node at the end of some steps
- `KeyPath.same_iff_trail` — keys without composite indices are the same when their trails are
- `Tree.reached_ofPairs` — what a tree holds at the end of a path
-/

namespace KeyedText

/-! ## Trails -/

/-- What a tree tells steps apart by: folded names and texts of indices. -/
inductive Label where
  | name (folded : Text)
  | index (text : Text)
  deriving DecidableEq, Repr

/-- The label of a step. -/
def Step.label : Step → Label
  | .member name => .name (Text.fold name)
  | .index own => .index own.text

/-- The spelling of the member that a step enters. -/
def Step.spelling? : Step → Option Spelling
  | .member name => some (Spelling.ofName name)
  | .index _ => none

/-- The text of the index that a step follows. -/
def Step.text? : Step → Option Text
  | .member _ => none
  | .index own => some own.text

/-- The folded names and the texts of the indices along a path. -/
def KeyPath.trail (path : KeyPath) : List Label :=
  (stepsOf path.parts).map Step.label

namespace Tree

variable {κ : Type} {same : κ → κ → Bool} {writes : List (List Step × Option Text)}
  {groups : List (κ × List (List Step × Option Text))} {trail : List Label}

/-! ## Writes -/

/-- The tree of some values with the steps that lead to them, written one after the other. -/
def ofWrites (writes : List (List Step × Option Text)) : Tree :=
  writes.foldl (fun tree write => tree.write write.2 write.1) empty

/-- The values of pairs with the steps of their keys. -/
def writesOf (pairs : List Pair) : List (List Step × Option Text) :=
  pairs.map fun pair => (stepsOf pair.key.parts, pair.value)

theorem ofPairs_eq_ofWrites (pairs : List Pair) : ofPairs pairs = ofWrites (writesOf pairs) := by
  rw [ofWrites, writesOf, List.foldl_map]
  rfl

/-- What is written to the node itself. -/
def ownValues (writes : List (List Step × Option Text)) : List (Option Text) :=
  writes.filterMap fun write =>
    match write.1 with
    | [] => some write.2
    | _ :: _ => none

/-- What is written to branches, with their keys. -/
def branchWrites (key? : Step → Option κ) (writes : List (List Step × Option Text)) :
    List (κ × List Step × Option Text) :=
  writes.filterMap fun write =>
    match write.1 with
    | [] => none
    | step :: rest => (key? step).map fun key => (key, rest, write.2)

/-- What is written below the end of a trail. -/
def behind (trail : List Label) (writes : List (List Step × Option Text)) :
    List (List Step × Option Text) :=
  writes.filterMap fun write =>
    if trail <+: write.1.map Step.label then some (write.1.drop trail.length, write.2) else none

/-- Whether spellings are of the same name. -/
def sameName (left right : Spelling) : Bool :=
  left.folded == right.folded

/-- Writes collected by the branch that they go to. -/
def collected (same : κ → κ → Bool) (writes : List (κ × List Step × Option Text)) :
    List (κ × List (List Step × Option Text)) :=
  writes.foldl (fun groups write => Classes.add same write.1 write.2 groups) []

/-- The branches of some groups of writes. -/
def branchesOf (groups : List (κ × List (List Step × Option Text))) : List (κ × Tree) :=
  groups.map fun group => (group.1, ofWrites group.2)

theorem ofWrites_concat (writes : List (List Step × Option Text)) (steps : List Step)
    (value : Option Text) :
    ofWrites (writes ++ [(steps, value)]) = (ofWrites writes).write value steps := by
  rw [ofWrites, List.foldl_append]
  rfl

/-- A write that goes to a branch joins the group of the branch. -/
theorem updateEntry_branchesOf (same : κ → κ → Bool) (key : κ) (steps : List Step)
    (value : Option Text) (groups : List (κ × List (List Step × Option Text))) :
    updateEntry same key (write value steps) (branchesOf groups) =
      branchesOf (Classes.add same key (steps, value) groups) := by
  induction groups with
  | nil => rfl
  | cons group groups ih =>
    rw [branchesOf, List.map_cons, updateEntry, Classes.add]
    split
    · rw [branchesOf, List.map_cons, ofWrites_concat]
    · rw [branchesOf, List.map_cons, ← branchesOf, ← branchesOf, ih]

theorem updateEntry_collected (same : κ → κ → Bool) (key : κ) (steps : List Step)
    (value : Option Text) (writes : List (κ × List Step × Option Text)) :
    updateEntry same key (write value steps) (branchesOf (collected same writes)) =
      branchesOf (collected same (writes ++ [(key, steps, value)])) := by
  rw [updateEntry_branchesOf, collected, collected, List.foldl_append]
  rfl

/-- A node has the last value that is written to it, and its branches are the trees of what is
written to each of them. -/
theorem ofWrites_eq (writes : List (List Step × Option Text)) :
    ofWrites writes = .node (ownValues writes).getLast?
      (branchesOf (collected sameName (branchWrites Step.spelling? writes)))
      (branchesOf (collected (· == ·) (branchWrites Step.text? writes))) := by
  induction writes using List.reverseRecOn with
  | nil => rfl
  | append_singleton writes own ih =>
    obtain ⟨steps, value⟩ := own
    rw [ofWrites_concat, ih]
    cases steps with
    | nil =>
      simp [write, ownValues, branchWrites, Step.spelling?, Step.text?, List.filterMap_append]
    | cons step rest =>
      cases step with
      | member name =>
        rw [write, updateMember_eq]
        change node _ (updateEntry sameName _ _ _) _ = _
        rw [updateEntry_collected]
        simp [ownValues, branchWrites, Step.spelling?, Step.text?, List.filterMap_append]
      | index index =>
        rw [write, updateItem_eq, updateEntry_collected]
        simp [ownValues, branchWrites, Step.spelling?, Step.text?, List.filterMap_append]

/-! ## Nodes at the end of steps -/

/-- The branch that a step leads to. -/
def child? : Step → Tree → Option Tree
  | .member name, tree => tree.member? (Text.fold name)
  | .index index, tree => tree.item? index.text

theorem walk?_cons (step : Step) (rest : List Step) (tree : Tree) :
    walk? (step :: rest) tree = (tree.child? step).bind (walk? rest) := by
  cases step <;> rfl

theorem behind_nil (writes : List (List Step × Option Text)) : behind [] writes = writes := by
  simp [behind]

/-- What is written behind a step and then behind a trail is written behind both. -/
theorem behind_cons (label : Label) (trail : List Label)
    (writes : List (List Step × Option Text)) :
    behind (label :: trail) writes = behind trail (behind [label] writes) := by
  rw [behind, behind, behind, List.filterMap_filterMap]
  apply List.filterMap_congr
  rintro ⟨steps, value⟩ -
  cases steps with
  | nil => simp
  | cons step rest =>
    by_cases hlabel : label = step.label
    · simp [List.cons_prefix_cons, hlabel]
    · simp [List.cons_prefix_cons, hlabel]

/-- The branch of a key is the tree of what is written to it, if anything is. -/
theorem find?_branchesOf (hequiv : Equivalence fun left right => same left right = true)
    (writes : List (κ × List Step × Option Text)) (key : κ) :
    ((branchesOf (collected same writes)).find? fun entry => same entry.1 key).map Prod.snd =
      if ((writes.filter fun write => same write.1 key).map Prod.snd) = [] then none
      else some (ofWrites ((writes.filter fun write => same write.1 key).map Prod.snd)) := by
  have hfind := (Classes.collect hequiv writes).find?_eq hequiv key
  have hany : (writes.any fun write => same write.1 key) = true ↔
      ((writes.filter fun write => same write.1 key).map Prod.snd) ≠ [] := by
    rw [List.any_eq_true, ne_eq, List.map_eq_nil_iff, List.filter_eq_nil_iff]
    simp
  rw [branchesOf, List.find?_map, Option.map_map]
  change ((collected same writes).find? fun group => same group.1 key).map
    (ofWrites ∘ Prod.snd) = _
  rw [← Option.map_map, collected, hfind]
  by_cases hnil : ((writes.filter fun write => same write.1 key).map Prod.snd) = []
  · rw [if_neg fun h => hany.1 h hnil, if_pos hnil, Option.map_none]
  · rw [if_pos (hany.2 hnil), if_neg hnil, Option.map_some]

theorem sameName_equivalence : Equivalence fun left right => sameName left right = true where
  refl _ := beq_self_eq_true _
  symm h := by simpa [sameName] using (beq_iff_eq.1 h).symm
  trans h h' := by simpa [sameName] using (beq_iff_eq.1 h).trans (beq_iff_eq.1 h')

theorem beq_equivalence : Equivalence fun left right : Text => (left == right) = true where
  refl _ := beq_self_eq_true _
  symm h := by simpa using (beq_iff_eq.1 h).symm
  trans h h' := by simpa using (beq_iff_eq.1 h).trans (beq_iff_eq.1 h')

/-- What is written to the branch of a key is what is written behind the label that stands for the
key. -/
theorem filter_branchWrites {key? : Step → Option κ} {key : κ} {label : Label}
    (h : ∀ step, (key? step).any (same · key) = true ↔ label = step.label)
    (writes : List (List Step × Option Text)) :
    ((branchWrites key? writes).filter fun write => same write.1 key).map Prod.snd =
      behind [label] writes := by
  rw [branchWrites, behind, List.filter_filterMap, List.map_filterMap]
  apply List.filterMap_congr
  rintro ⟨steps, value⟩ -
  cases steps with
  | nil => simp
  | cons step rest =>
    have hstep := h step
    cases hkey : key? step with
    | none =>
      have hother : label ≠ step.label := fun heq => by simpa [hkey] using hstep.2 heq
      simp [hkey, List.cons_prefix_cons, hother]
    | some other =>
      rw [hkey, Option.any_some] at hstep
      by_cases hlabel : label = step.label
      · simp [hkey, List.cons_prefix_cons, hlabel, hstep.2 hlabel]
      · simp [hkey, List.cons_prefix_cons, hlabel, mt hstep.1 hlabel]

/-- A step leads to the tree of what is written behind it, if anything is. -/
theorem child?_ofWrites (step : Step) (writes : List (List Step × Option Text)) :
    (ofWrites writes).child? step =
      if behind [step.label] writes = [] then none
      else some (ofWrites (behind [step.label] writes)) := by
  rw [ofWrites_eq writes]
  cases step with
  | member name =>
    have hlabel : ∀ step : Step, step.spelling?.any (sameName · (Spelling.ofName name)) = true ↔
        Label.name (Text.fold name) = step.label := by
      rintro (own | own)
      · simpa [Step.spelling?, Step.label, sameName, Spelling.ofName] using eq_comm
      · simp [Step.spelling?, Step.label]
    rw [Step.label, ← filter_branchWrites hlabel]
    exact find?_branchesOf sameName_equivalence _ (Spelling.ofName name)
  | index index =>
    have hlabel : ∀ step : Step, step.text?.any (· == index.text) = true ↔
        Label.index index.text = step.label := by
      rintro (own | own)
      · simp [Step.text?, Step.label]
      · simpa [Step.text?, Step.label] using eq_comm
    rw [Step.label, ← filter_branchWrites hlabel]
    exact find?_branchesOf beq_equivalence _ index.text

/-- **The node at the end of some steps** is the tree of what is written behind them. It is there
when anything is, and the root always is. -/
theorem walk?_ofWrites (steps : List Step) (writes : List (List Step × Option Text)) :
    (ofWrites writes).walk? steps =
      if steps = [] ∨ behind (steps.map Step.label) writes ≠ [] then
        some (ofWrites (behind (steps.map Step.label) writes))
      else none := by
  induction steps generalizing writes with
  | nil => simp [walk?, behind_nil]
  | cons step rest ih =>
    rw [walk?_cons, child?_ofWrites, List.map_cons, behind_cons step.label (rest.map Step.label)]
    by_cases hnil : behind [step.label] writes = []
    · rw [if_pos hnil, hnil, if_neg (by simp [behind]), Option.bind_none]
    · rw [if_neg hnil, Option.bind_some, ih]
      by_cases hrest : rest = []
      · subst hrest
        simp [behind_nil, hnil]
      · simp [hrest]

/-- A node that holds some writes: it has the last value that is written to it itself; its members
and its items are the classes of the names and of the index texts that follow, each spelled as it
was met first and in the order in which they were met; no two of them are the same. -/
structure Collects (node : Tree) (writes : List (List Step × Option Text)) : Prop where
  value : node.value = (ownValues writes).getLast?
  members : ∃ groups, Classes sameName (branchWrites Step.spelling? writes) groups ∧
    node.members = branchesOf groups
  items : ∃ groups, Classes (· == ·) (branchWrites Step.text? writes) groups ∧
    node.items = branchesOf groups
  membersApart : node.members.Pairwise fun left right => left.1.folded ≠ right.1.folded
  itemsApart : node.items.Pairwise fun left right => left.1 ≠ right.1

theorem collects_ofWrites (writes : List (List Step × Option Text)) :
    (ofWrites writes).Collects writes := by
  have hmembers := Classes.collect sameName_equivalence (branchWrites Step.spelling? writes)
  have hitems := Classes.collect beq_equivalence (branchWrites Step.text? writes)
  rw [ofWrites_eq writes]
  refine ⟨rfl, ⟨_, hmembers, rfl⟩, ⟨_, hitems, rfl⟩, ?_, ?_⟩
  · refine List.pairwise_map.2 ((hmembers.apart sameName_equivalence).imp ?_)
    intro left right hapart
    simpa [sameName] using hapart
  · refine List.pairwise_map.2 ((hitems.apart beq_equivalence).imp ?_)
    intro left right hapart
    simpa using hapart

/-- What is written to the end of a trail itself. -/
theorem ownValues_behind (trail : List Label) (writes : List (List Step × Option Text)) :
    ownValues (behind trail writes) =
      (writes.filter fun write => write.1.map Step.label = trail).map Prod.snd := by
  induction writes with
  | nil => rfl
  | cons own writes ih =>
    obtain ⟨steps, value⟩ := own
    by_cases hbehind : trail <+: steps.map Step.label
    · have hhere : behind trail ((steps, value) :: writes) =
          (steps.drop trail.length, value) :: behind trail writes := by simp [behind, hbehind]
      -- the trail ends here just when no steps are left
      have hend : steps.drop trail.length = [] ↔ steps.map Step.label = trail := by
        rw [List.drop_eq_nil_iff]
        constructor
        · intro hlength
          exact (hbehind.eq_of_length_le (by simpa using hlength)).symm
        · intro htrail
          rw [← htrail, List.length_map]
      rw [hhere]
      by_cases htrail : steps.map Step.label = trail
      · rw [hend.2 htrail, List.filter_cons_of_pos (by simpa using htrail), List.map_cons, ← ih]
        rfl
      · obtain ⟨step, rest, hrest⟩ := List.exists_cons_of_ne_nil (mt hend.1 htrail)
        rw [hrest, List.filter_cons_of_neg (by simpa using htrail), ← ih]
        rfl
    · have htrail : steps.map Step.label ≠ trail := by
        rintro rfl
        exact hbehind List.prefix_rfl
      have hhere : behind trail ((steps, value) :: writes) = behind trail writes := by
        simp [behind, hbehind]
      rw [hhere, ih, List.filter_cons_of_neg (by simpa using htrail)]

end Tree

/-! ## Trails and keys -/

/-- A path whose indices were read from texts, as those of every key are. -/
def KeyPath.IsRead (path : KeyPath) : Prop :=
  ∀ part ∈ path.parts, ∀ index ∈ part.indices, ∃ content, index = Index.ofText content

theorem KeyPath.isRead_ofText (text : Text) : (KeyPath.ofText text).IsRead := by
  intro part hpart index hindex
  rw [KeyPath.ofText] at hpart
  split at hpart
  · simp at hpart
  · obtain ⟨piece, -, rfl⟩ := List.mem_map.1 hpart
    obtain ⟨content, -, rfl⟩ := List.mem_map.1 hindex
    exact ⟨content, rfl⟩

/-- Where one of two indices is a single token, they are the same when their texts are. -/
theorem Index.tokens_eq_iff {left right : Text}
    (hplain : (Index.ofText right).isComposite = false) :
    (Index.ofText left).tokens = (Index.ofText right).tokens ↔
      (Index.ofText left).text = (Index.ofText right).text := by
  have hsplit : ∀ content : Text, (Index.ofText content).tokens.length = 1 →
      (Index.ofText content).tokens = [(Index.ofText content).text] := by
    intro content hlength
    rw [Index.ofText, List.length_map] at hlength
    obtain ⟨piece, hpiece⟩ := List.length_eq_one_iff.1 hlength
    obtain rfl := Bracket.eq_of_splitFrom_singleton hpiece
    rw [Index.ofText, hpiece, List.map_singleton]
  have hright : (Index.ofText right).tokens.length = 1 := by
    obtain ⟨first, rest, hpieces⟩ := Bracket.exists_splitFrom ',' 0 right
    rw [isComposite, decide_eq_false_iff_not] at hplain
    rw [Index.ofText, Bracket.split, hpieces] at hplain ⊢
    simp only [List.map_cons, List.length_cons, List.length_map] at hplain ⊢
    omega
  constructor
  · intro htokens
    have hleft : (Index.ofText left).tokens.length = 1 := htokens ▸ hright
    rw [hsplit left hleft, hsplit right hright] at htokens
    exact List.singleton_inj.1 htokens
  · intro htext
    have htrim : ∀ content, (Index.ofText content).tokens =
        (Bracket.split ',' (Index.ofText content).text).map Text.trim := fun content =>
      (Bracket.tokens_trim (by decide) content).symm
    rw [htrim left, htrim right, htext]

theorem map_eq_map_congr {α β γ : Type} {f : α → β} {g : α → γ} {left right : List α}
    (h : ∀ a ∈ left, ∀ b ∈ right, f a = f b ↔ g a = g b) :
    left.map f = right.map f ↔ left.map g = right.map g := by
  induction left generalizing right with
  | nil => cases right <;> simp
  | cons a left ih =>
    cases right with
    | nil => simp
    | cons b right =>
      have hrest := ih fun x hx y hy =>
        h x (List.mem_cons_of_mem a hx) y (List.mem_cons_of_mem b hy)
      simp [h a (by simp) b (by simp), hrest]

/-- A trail goes on with a name where the indices of a part end. -/
theorem indices_append_trail {texts texts' : List Text} {left right : List KeyPart} :
    texts.map Label.index ++ (stepsOf left).map Step.label =
        texts'.map Label.index ++ (stepsOf right).map Step.label ↔
      texts = texts' ∧ (stepsOf left).map Step.label = (stepsOf right).map Step.label := by
  have hname : ∀ (text : Text) (rest : List Label) (parts : List KeyPart),
      Label.index text :: rest ≠ (stepsOf parts).map Step.label := by
    intro text rest parts heq
    cases parts with
    | nil => simp [stepsOf] at heq
    | cons part parts => simp [stepsOf, KeyPart.steps, Step.label] at heq
  induction texts generalizing texts' with
  | nil =>
    cases texts' with
    | nil => simp
    | cons text' texts' => simpa using (hname text' _ left).symm
  | cons text texts ih =>
    cases texts' with
    | nil => simpa using hname text _ right
    | cons text' texts' => simp [ih, and_assoc]

/-- The names and the indices of a path can be told from its trail. -/
theorem trail_eq_iff {left right : List KeyPart} :
    (stepsOf left).map Step.label = (stepsOf right).map Step.label ↔
      left.map (fun part => (part.folded, part.indices.map Index.text)) =
        right.map fun part => (part.folded, part.indices.map Index.text) := by
  have hpart : ∀ (part : KeyPart) parts, (stepsOf (part :: parts)).map Step.label =
      .name part.folded ::
        ((part.indices.map Index.text).map Label.index ++ (stepsOf parts).map Step.label) := by
    intro part parts
    rw [stepsOf, List.flatMap_cons, List.map_append, KeyPart.steps, List.map_cons, List.map_map,
      List.map_map]
    rfl
  have hnil : (stepsOf []).map Step.label = [] := rfl
  induction left generalizing right with
  | nil =>
    cases right with
    | nil => exact iff_of_true rfl rfl
    | cons part right => rw [hpart, hnil]; simp
  | cons part left ih =>
    cases right with
    | nil => rw [hpart, hnil]; simp
    | cons part' right =>
      rw [hpart, hpart, List.cons.injEq, indices_append_trail]
      simp [ih, and_assoc]

/-- Keys without composite indices are the same when their trails are. -/
theorem KeyPath.same_iff_trail {left right : KeyPath} (hleft : left.IsRead) (hright : right.IsRead)
    (hplain : ∀ part ∈ right.parts, ∀ index ∈ part.indices, index.isComposite = false) :
    left.same right = true ↔ left.trail = right.trail := by
  rw [KeyPath.same, beq_iff_eq, KeyPath.identity, KeyPath.identity, KeyPath.trail, KeyPath.trail,
    trail_eq_iff]
  apply map_eq_map_congr
  intro part hpart other hother
  rw [KeyPart.identity, KeyPart.identity, Prod.mk.injEq, Prod.mk.injEq]
  apply and_congr_right'
  apply map_eq_map_congr
  intro index hindex index' hindex'
  obtain ⟨content, rfl⟩ := hleft part hpart index hindex
  obtain ⟨content', rfl⟩ := hright other hother index' hindex'
  exact Index.tokens_eq_iff (hplain other hother _ hindex')

/-! ## Trees of pairs -/

/-- What a lookup holds last under a key without composite indices is the last value of the pairs
with the same trail. -/
theorem Lookup.getLast?_get? {pairs : List Pair} {path : KeyPath} (hpath : path.IsRead)
    (hpairs : ∀ pair ∈ pairs, pair.key.IsRead)
    (hplain : ∀ part ∈ path.parts, ∀ index ∈ part.indices, index.isComposite = false) :
    ((Lookup.ofPairs pairs).get? path).bind List.getLast? =
      ((pairs.filter fun pair => pair.key.trail = path.trail).map Pair.value).getLast? := by
  have hfilter : (pairs.filter fun pair => pair.key.same path) =
      pairs.filter fun pair => pair.key.trail = path.trail := by
    apply List.filter_congr
    intro pair hpair
    rw [Bool.eq_iff_iff, decide_eq_true_iff]
    exact KeyPath.same_iff_trail (hpairs pair hpair) hpath hplain
  rw [← hfilter, get?_ofPairs, valuesOf]
  split
  · next hnil => rw [hnil]; rfl
  · rfl

namespace Tree

theorem ownValues_behind_writesOf (trail : List Label) (pairs : List Pair) :
    ownValues (behind trail (writesOf pairs)) =
      (pairs.filter fun pair => pair.key.trail = trail).map Pair.value := by
  rw [ownValues_behind, writesOf, List.filter_map, List.map_map]
  rfl

theorem behind_writesOf_ne_nil (trail : List Label) (pairs : List Pair) :
    behind trail (writesOf pairs) ≠ [] ↔ ∃ pair ∈ pairs, trail <+: pair.key.trail := by
  simp [behind, writesOf, KeyPath.trail]

/-- **A tree holds the last value of each path.** Along a path it has a node just when the key of
some pair passes through there; the root is always there. The value of the node is that of the last
pair whose key has the same trail, and its branches are the classes of the steps that follow. For a
path without composite indices that value is the last one that a lookup holds. -/
theorem reached_ofPairs (pairs : List Pair) (path : KeyPath) :
    let reached := (ofPairs pairs).walk? (stepsOf path.parts)
    let values := (pairs.filter fun pair => pair.key.trail = path.trail).map Pair.value
    (reached.isSome = true ↔ path.trail = [] ∨ ∃ pair ∈ pairs, path.trail <+: pair.key.trail) ∧
      (∀ node, reached = some node → node.value = values.getLast? ∧
        node.Collects (behind path.trail (writesOf pairs))) ∧
      (path.IsRead → (∀ pair ∈ pairs, pair.key.IsRead) →
        (∀ part ∈ path.parts, ∀ index ∈ part.indices, index.isComposite = false) →
        reached.bind value = ((Lookup.ofPairs pairs).get? path).bind List.getLast?) := by
  intro reached values
  have hvalues : (ownValues (behind path.trail (writesOf pairs))).getLast? = values.getLast? := by
    rw [ownValues_behind_writesOf]
  have hreached : reached =
      if path.trail = [] ∨ ∃ pair ∈ pairs, path.trail <+: pair.key.trail then
        some (ofWrites (behind path.trail (writesOf pairs)))
      else none := by
    have hwalk := walk?_ofWrites (stepsOf path.parts) (writesOf pairs)
    rw [← ofPairs_eq_ofWrites, ← KeyPath.trail] at hwalk
    simp only [behind_writesOf_ne_nil, ← List.map_eq_nil_iff (f := Step.label)] at hwalk
    exact hwalk
  refine ⟨?_, ?_, ?_⟩
  · rw [hreached, Option.isSome_ite]
  · intro node hnode
    have hcollects := collects_ofWrites (behind path.trail (writesOf pairs))
    rw [hreached] at hnode
    split at hnode
    · obtain rfl := Option.some.inj hnode
      exact ⟨hcollects.value.trans hvalues, hcollects⟩
    · exact absurd hnode (by simp)
  · intro hpath hpairs hplain
    rw [Lookup.getLast?_get? hpath hpairs hplain, ← hvalues, hreached]
    split
    · exact (collects_ofWrites _).value
    · next hpassed =>
      -- without a node nothing is written there
      have hnothing : behind path.trail (writesOf pairs) = [] := by
        by_contra hne
        exact hpassed (.inr ((behind_writesOf_ne_nil _ _).1 hne))
      rw [hnothing]
      rfl

/-- A name in three spellings, an item with members, and an index that is written in two ways. -/
def mergedPairs : List Pair :=
  [.ofText "Man.Name".toList (some "A".toList), .ofText "man.kids[0].age".toList none,
    .ofText " MAN . name".toList (some "B".toList), .ofText "map[a,b]".toList (some "1".toList),
    .ofText "map[a, b]".toList (some "2".toList)]

theorem reached_mergedPairs :
    let path := KeyPath.ofText "man.NAME".toList
    path.IsRead ∧ (∀ pair ∈ mergedPairs, pair.key.IsRead) ∧
      (∀ part ∈ path.parts, ∀ index ∈ part.indices, index.isComposite = false) ∧
      ((ofPairs mergedPairs).walk? (stepsOf path.parts)).bind value =
        ((Lookup.ofPairs mergedPairs).get? path).bind List.getLast? := by
  intro path
  have hpath : path.IsRead := KeyPath.isRead_ofText _
  have hpairs : ∀ pair ∈ mergedPairs, pair.key.IsRead := by
    simp [mergedPairs, Pair.ofText, KeyPath.isRead_ofText]
  have hplain : ∀ part ∈ path.parts, ∀ index ∈ part.indices, index.isComposite = false := by
    decide
  exact ⟨hpath, hpairs, hplain, (reached_ofPairs mergedPairs path).2.2 hpath hpairs hplain⟩

-- blanks around a comma make another node, but not another key
example : ((ofPairs mergedPairs).walk? (stepsOf (KeyPath.ofText "map[a,b]".toList).parts)).bind
      value = some (some "1".toList) ∧
    ((Lookup.ofPairs mergedPairs).get? (KeyPath.ofText "map[a,b]".toList)).bind List.getLast? =
      some (some "2".toList) := by decide

end Tree

end KeyedText
