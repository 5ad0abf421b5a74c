import KeyedText.Configuration
import Mathlib.Data.List.TakeDrop

/-!
# Reloading a configuration

A run of a configuration is a list of requests: reloads, in which any source may give any text or
fail, and readings, which leave collected values behind. All that a run leaves to see follows from
the texts that its successful reloads read, so these are its specification: there is one snapshot
for each of them behind the empty one, with the pairs that each source gives when it is read on its
own, and the last snapshot is current.

## Main definitions

- `Configuration.Request`, `Configuration.serveAll` — runs of reloads and readings
- `Configuration.outcomes` — what the sources give to a reload
- `Configuration.loads` — what the successful reloads of a run read
- `Configuration.Follows` — the state after some successful reloads

## Main statements

- `Configuration.reload_of_texts`, `Configuration.reload_of_error` — both ends of a reload
- `Configuration.Follows.serve` — what a request keeps
- `Configuration.Follows.serveAll` — what a run keeps
- `Configuration.serveAll_atomic` — reloads are atomic, and readings agree with the last one
-/

namespace KeyedText

/-- Nothing was collected, or what was collected are the values of the content. -/
def Snapshot.Fresh (snapshot : Snapshot) : Prop :=
  ∀ lookup ∈ snapshot.collected, lookup = Lookup.ofPairs snapshot.content.pairs

theorem Snapshot.Fresh.lookup_eq {snapshot : Snapshot} (h : snapshot.Fresh) :
    snapshot.lookup = Lookup.ofPairs snapshot.content.pairs := by
  unfold Snapshot.lookup
  split
  next lookup hcollected => exact h lookup hcollected
  next => rfl

theorem Snapshot.Fresh.collect {snapshot : Snapshot} (h : snapshot.Fresh) :
    snapshot.collect.Fresh := by
  intro lookup hlookup
  rw [← Option.some.inj hlookup]
  exact h.lookup_eq

namespace Configuration

/-- What is asked of a configuration. A snapshot that was taken at some time goes by its place. -/
inductive Request where
  | reload (access : Access)
  | lookup (place : Nat)
  | contains (key : KeyPath)
  | value (key : KeyPath)
  | all (key : KeyPath)
  | configure (schema : Schema) (under : KeyPath) (target : Object)

/-- The configuration after a request, whatever the answer was. -/
def serve (configuration : Configuration) : Request → Configuration
  | .reload access => (configuration.reload access).2
  | .lookup place => (configuration.lookupAt? place).2
  | .contains key => (configuration.contains key).2
  | .value key => (configuration.value? key).2
  | .all key => (configuration.all key).2
  | .configure _ _ _ => configuration

/-- The configuration after some requests. -/
def serveAll (configuration : Configuration) (requests : List Request) : Configuration :=
  requests.foldl serve configuration

/-! ## What a reload reads -/

/-- What each of the sources gives. -/
def outcomes (access : Access) (sources : List Source) : List (Except Error Text) :=
  sources.zipIdx.map fun entry => entry.1.read access entry.2

/-- The texts of all sources, unless one of them cannot be read. -/
def texts? (access : Access) (sources : List Source) : Option (List Text) :=
  (outcomes access sources).mapM Except.toOption

/-- What a request reads from all sources, which only a reload does. -/
def Request.texts? (sources : List Source) : Request → Option (List Text)
  | .reload access => Configuration.texts? access sources
  | _ => none

/-- What the successful reloads of a run read, in order. -/
def loads (sources : List Source) (requests : List Request) : List (List Text) :=
  requests.filterMap (Request.texts? sources)

/-- The content of sources that gave some texts, each read on its own. -/
def contentOf (sources : List Source) (texts : List Text) : Content :=
  ⟨texts.flatMap fun text => (Content.ofText text).pairs, sources.map Source.name⟩

/-- The content after some successful reloads, which is that of the last one. -/
def contentAfter (sources : List Source) (loads : List (List Text)) : Content :=
  (loads.getLast?.map (contentOf sources)).getD Content.empty

variable {sources : List Source} {access : Access} {texts : List Text} {error : Error}
  {later : List (Except Error Text)}

/-- Either every outcome is a text or there is a first error. -/
theorem texts_or_error (outcomes : List (Except Error Text)) :
    (∃ texts : List Text, outcomes = texts.map .ok) ∨
      ∃ (texts : List Text) (error : Error) (later : List (Except Error Text)),
        outcomes = texts.map .ok ++ .error error :: later := by
  induction outcomes with
  | nil => exact .inl ⟨[], rfl⟩
  | cons outcome rest ih =>
    cases outcome with
    | error error => exact .inr ⟨[], error, rest, rfl⟩
    | ok text =>
      obtain ⟨texts, rfl⟩ | ⟨texts, error, later, rfl⟩ := ih
      · exact .inl ⟨text :: texts, rfl⟩
      · exact .inr ⟨text :: texts, error, later, rfl⟩

theorem texts?_of_texts (h : outcomes access sources = texts.map .ok) :
    texts? access sources = some texts := by
  rw [texts?, h]
  clear h
  induction texts with
  | nil => rfl
  | cons text texts ih => simp [Except.toOption, ih]

theorem texts?_of_error (h : outcomes access sources = texts.map .ok ++ .error error :: later) :
    texts? access sources = none := by
  rw [texts?, h]
  clear h
  induction texts with
  | nil => simp [Except.toOption]
  | cons text texts ih => simp [Except.toOption, ih]

theorem readSources_cons (entry : Source × Nat) (entries : List (Source × Nat))
    (content : Content) :
    readSources access (entry :: entries) content =
      entry.1.read access entry.2 >>= fun text =>
        readSources access entries (content.addSource entry.1.name text) :=
  rfl

/-- Sources that all give their texts are read one on top of the other. -/
theorem readSources_of_texts (entries : List (Source × Nat)) (content : Content)
    (h : (entries.map fun entry => entry.1.read access entry.2) = texts.map .ok) :
    readSources access entries content =
      .ok ⟨content.pairs ++ texts.flatMap fun text => (Content.ofText text).pairs,
        content.sources ++ entries.map fun entry => entry.1.name⟩ := by
  induction entries generalizing content texts with
  | nil =>
    obtain rfl : texts = [] := by simpa using h.symm
    simp [readSources]
  | cons entry entries ih =>
    obtain _ | ⟨text, texts⟩ := texts
    · cases h
    · have hread : entry.1.read access entry.2 = .ok text := (List.cons.inj h).1
      rw [readSources_cons, hread]
      refine (ih _ (List.cons.inj h).2).trans ?_
      simp [Content.addSource, Content.ofText, Content.empty]

/-- The first source that cannot be read ends the reading with its error. -/
theorem readSources_of_error (entries : List (Source × Nat)) (content : Content)
    (h : (entries.map fun entry => entry.1.read access entry.2) =
      texts.map .ok ++ .error error :: later) :
    readSources access entries content = .error error := by
  induction entries generalizing content texts with
  | nil => simp at h
  | cons entry entries ih =>
    obtain _ | ⟨text, texts⟩ := texts
    · have hread : entry.1.read access entry.2 = .error error := (List.cons.inj h).1
      rw [readSources_cons, hread]
      rfl
    · have hread : entry.1.read access entry.2 = .ok text := (List.cons.inj h).1
      rw [readSources_cons, hread]
      exact ih _ (List.cons.inj h).2

variable {configuration : Configuration}

/-- A reload that can read every source makes a snapshot of their texts. -/
theorem reload_of_texts (h : outcomes access configuration.sources = texts.map .ok) :
    configuration.reload access = (.ok configuration.snapshots.length,
      configuration.push (contentOf configuration.sources texts)) := by
  have hnames : (configuration.sources.zipIdx.map fun entry => entry.1.name) =
      configuration.sources.map Source.name := by
    rw [← Function.comp_def Source.name Prod.fst, ← List.map_map, List.zipIdx_map_fst]
  have hread := readSources_of_texts _ Content.empty h
  rw [hnames] at hread
  rw [reload, hread]
  rfl

/-- A reload that cannot read some source gives the error of the first such source, and changes
nothing. -/
theorem reload_of_error
    (h : outcomes access configuration.sources = texts.map .ok ++ .error error :: later) :
    configuration.reload access = (.error error, configuration) := by
  rw [reload, readSources_of_error _ Content.empty h]

/-! ## What a run keeps -/

/-- A snapshot at some place among those that some successful reloads made. Its values by key, if
they were collected, are those of its content. -/
structure Made (sources : List Source) (loads : List (List Text)) (place : Nat)
    (snapshot : Snapshot) : Prop where
  generation_eq : snapshot.generation = place
  content_eq : snapshot.content = contentAfter sources (loads.take place)
  fresh : snapshot.Fresh

/-- The state of a configuration after some successful reloads, given by the texts that each of them
read: one snapshot for each, behind the empty one, and the last one is current. -/
structure Follows (options : BindOptions) (sources : List Source) (loads : List (List Text))
    (configuration : Configuration) : Prop where
  sources_eq : configuration.sources = sources
  options_eq : configuration.options = options
  length_eq : configuration.snapshots.length = loads.length + 1
  current_eq : configuration.current = loads.length
  made : ∀ place snapshot, configuration.snapshots[place]? = some snapshot →
    Made sources loads place snapshot

variable {options : BindOptions} {loads : List (List Text)} {place : Nat} {snapshot : Snapshot}

theorem Made.append (h : Made sources loads place snapshot) (hplace : place ≤ loads.length)
    (more : List (List Text)) : Made sources (loads ++ more) place snapshot where
  generation_eq := h.generation_eq
  content_eq := by rw [List.take_append_of_le_length hplace, h.content_eq]
  fresh := h.fresh

theorem Made.collect (h : Made sources loads place snapshot) :
    Made sources loads place snapshot.collect where
  generation_eq := h.generation_eq
  content_eq := h.content_eq
  fresh := h.fresh.collect

theorem getElem?_current (configuration : Configuration) :
    configuration.snapshots[configuration.current]? = some configuration.now :=
  List.getElem?_eq_getElem configuration.current_lt

theorem push_now (configuration : Configuration) (content : Content) :
    (configuration.push content).now = ⟨content, configuration.now.generation + 1, none⟩ :=
  Option.some.inj <| (configuration.push content).getElem?_current.symm.trans
    List.getElem?_concat_length

namespace Follows

theorem made_now (h : Follows options sources loads configuration) :
    Made sources loads loads.length configuration.now :=
  h.current_eq ▸ h.made _ _ configuration.getElem?_current

theorem now_content (h : Follows options sources loads configuration) :
    configuration.now.content = contentAfter sources loads := by
  rw [h.made_now.content_eq, List.take_length]

theorem place_le (h : Follows options sources loads configuration)
    (hsnapshot : configuration.snapshots[place]? = some snapshot) : place ≤ loads.length := by
  obtain ⟨hlt, -⟩ := List.getElem?_eq_some_iff.1 hsnapshot
  have hlength := h.length_eq
  omega

theorem ofSources (options : BindOptions) (sources : List Source) :
    Follows options sources [] (ofSources options sources) where
  sources_eq := rfl
  options_eq := rfl
  length_eq := rfl
  current_eq := rfl
  made := by
    intro place snapshot h
    rw [Configuration.ofSources, List.getElem?_singleton] at h
    split at h
    next hplace =>
      obtain rfl := Option.some.inj h
      exact ⟨hplace.symm, by simp [contentAfter, Snapshot.empty], nofun⟩
    next => cases h

/-- A reload that succeeds puts its snapshot behind the others. -/
theorem push (h : Follows options sources loads configuration) (texts : List Text) :
    Follows options sources (loads ++ [texts])
      (configuration.push (contentOf sources texts)) where
  sources_eq := h.sources_eq
  options_eq := h.options_eq
  length_eq := by simp [Configuration.push, h.length_eq]
  current_eq := by simp [Configuration.push, h.length_eq]
  made := by
    intro place snapshot hsnapshot
    rw [Configuration.push, List.getElem?_append] at hsnapshot
    split at hsnapshot
    -- a snapshot from before goes by the reloads up to its place, and these are the same
    next hlt => exact (h.made place snapshot hsnapshot).append (h.place_le hsnapshot) [texts]
    next hle =>
      have hlength := h.length_eq
      rw [List.getElem?_singleton] at hsnapshot
      split at hsnapshot
      next hplace =>
        obtain rfl := Option.some.inj hsnapshot
        have hplace : place = loads.length + 1 := by omega
        refine ⟨?_, ?_, nofun⟩
        · rw [hplace, h.made_now.generation_eq]
        · rw [hplace, List.take_of_length_le (by simp), contentAfter, List.getLast?_concat]
          rfl
      next => cases hsnapshot

/-- Asking for the values of a snapshot leaves them behind, and nothing else. -/
theorem collect (h : Follows options sources loads configuration) (place : Nat) :
    Follows options sources loads (configuration.collect place) where
  sources_eq := h.sources_eq
  options_eq := h.options_eq
  length_eq := by rw [Configuration.collect, List.length_modify, h.length_eq]
  current_eq := h.current_eq
  made := by
    intro other snapshot hsnapshot
    rw [Configuration.collect, List.getElem?_modify] at hsnapshot
    obtain ⟨before, hbefore, rfl⟩ := Option.map_eq_some_iff.1 hsnapshot
    split
    · exact (h.made other before hbefore).collect
    · exact h.made other before hbefore

theorem append_nil (h : Follows options sources loads configuration) :
    Follows options sources (loads ++ []) configuration := by
  rw [List.append_nil]
  exact h

/-- A request adds what it read to the successful reloads, and keeps the state to them. -/
theorem serve (h : Follows options sources loads configuration) (request : Request) :
    Follows options sources (loads ++ (request.texts? sources).toList)
      (configuration.serve request) := by
  have hsources := h.sources_eq
  -- only a reload reads from the sources; what the other requests leave behind is collected values
  cases request with
  | reload access =>
    subst hsources
    rw [Configuration.serve, Request.texts?]
    obtain ⟨texts, hread⟩ | ⟨texts, error, later, hread⟩ :=
      texts_or_error (outcomes access configuration.sources)
    · rw [reload_of_texts hread, texts?_of_texts hread]
      exact h.push texts
    · rw [reload_of_error hread, texts?_of_error hread, Option.toList_none, List.append_nil]
      exact h
  | configure => exact h.append_nil
  | lookup place => exact (h.collect place).append_nil
  | contains | value | all => exact (h.collect configuration.current).append_nil

/-- After a run the state is that of its successful reloads. -/
theorem serveAll (h : Follows options sources loads configuration) (requests : List Request) :
    Follows options sources (loads ++ Configuration.loads sources requests)
      (configuration.serveAll requests) := by
  induction requests generalizing loads configuration with
  | nil => simpa [Configuration.loads, Configuration.serveAll] using h
  | cons request requests ih =>
    have hrun := ih (h.serve request)
    rw [List.append_assoc] at hrun
    have hloads : Configuration.loads sources (request :: requests) =
        (request.texts? sources).toList ++ Configuration.loads sources requests := by
      rw [Configuration.loads, List.filterMap_cons]
      cases request.texts? sources <;> rfl
    rw [hloads]
    exact hrun

/-- Snapshots that were taken stay as they were. -/
theorem snapshot_serveAll (h : Follows options sources loads configuration)
    (hsnapshot : configuration.snapshots[place]? = some snapshot) (requests : List Request) :
    ∃ after, (configuration.serveAll requests).snapshots[place]? = some after ∧
      after.content = snapshot.content ∧ after.generation = snapshot.generation ∧
      after.lookup = snapshot.lookup := by
  have hafter := h.serveAll requests
  have hlt : place < (configuration.serveAll requests).snapshots.length := by
    have hplace := h.place_le hsnapshot
    rw [hafter.length_eq, List.length_append]
    omega
  have hget := List.getElem?_eq_getElem hlt
  have hmade := (h.made _ _ hsnapshot).append (h.place_le hsnapshot)
    (Configuration.loads sources requests)
  have hmade' := hafter.made _ _ hget
  have hcontent := hmade'.content_eq.trans hmade.content_eq.symm
  refine ⟨_, hget, hcontent, hmade'.generation_eq.trans hmade.generation_eq.symm, ?_⟩
  rw [hmade'.fresh.lookup_eq, hmade.fresh.lookup_eq, hcontent]

/-- A reload either makes the next snapshot or changes nothing. -/
theorem reload_cases (h : Follows options sources loads configuration) (access : Access) :
    (∃ (texts : List Text) (after : Configuration), outcomes access sources = texts.map .ok ∧
      configuration.reload access = (.ok after.current, after) ∧
      after.now = ⟨contentOf sources texts, loads.length + 1, none⟩) ∨
    ∃ (texts : List Text) (error : Error) (later : List (Except Error Text)),
      outcomes access sources = texts.map .ok ++ .error error :: later ∧
      configuration.reload access = (.error error, configuration) := by
  have hsources := h.sources_eq
  subst hsources
  obtain ⟨texts, hread⟩ | ⟨texts, error, later, hread⟩ :=
    texts_or_error (outcomes access configuration.sources)
  · refine .inl ⟨texts, configuration.push (contentOf configuration.sources texts), hread,
      reload_of_texts hread, ?_⟩
    rw [push_now, h.made_now.generation_eq]
  · exact .inr ⟨texts, error, later, hread, reload_of_error hread⟩

theorem lookup_eq (h : Follows options sources loads configuration) :
    configuration.lookup.1 = Lookup.ofPairs (contentAfter sources loads).pairs := by
  show configuration.now.lookup = _
  rw [h.made_now.fresh.lookup_eq, h.now_content]

theorem configure_eq (h : Follows options sources loads configuration) (schema : Schema)
    (under : KeyPath) (target : Object) :
    configuration.configure schema under target =
      match Object.populate schema options under (contentAfter sources loads).pairs target with
      | (object, none) => .ok object
      | (_, some fault) => .error fault := by
  have hrun : configuration.populate schema under target =
      Object.populate schema options under (contentAfter sources loads).pairs target := by
    rw [populate, h.options_eq, h.now_content]
  rw [← hrun]
  rfl

end Follows

/-- **Reloads are atomic, and all that is read agrees with the last one that succeeded.** After any
run of reloads and readings the generation is the number of reloads that succeeded, and the content
is that of the texts which the last of them read, one source after the other and each on its own. A
reload either reads every source and makes the next snapshot, or gives the error of the first source
that it cannot read and changes nothing. A snapshot that was taken keeps its content, its generation
and its values by key, whatever follows; and these values, collected or not, are those of its
content, as are the answers to all readings. -/
theorem serveAll_atomic (options : BindOptions) (sources : List Source)
    (requests : List Request) :
    let configuration := (ofSources options sources).serveAll requests
    let loads := Configuration.loads sources requests
    let content := contentAfter sources loads
    let lookup := Lookup.ofPairs content.pairs
    (configuration.now.generation = loads.length ∧ configuration.now.content = content) ∧
      (∀ access : Access,
        (∃ (texts : List Text) (after : Configuration), outcomes access sources = texts.map .ok ∧
          configuration.reload access = (.ok after.current, after) ∧
          after.now = ⟨contentOf sources texts, loads.length + 1, none⟩) ∨
        ∃ (texts : List Text) (error : Error) (later : List (Except Error Text)),
          outcomes access sources = texts.map .ok ++ .error error :: later ∧
          configuration.reload access = (.error error, configuration)) ∧
      (∀ (more : List Request) (place : Nat) (snapshot : Snapshot),
        configuration.snapshots[place]? = some snapshot →
          snapshot.lookup = Lookup.ofPairs snapshot.content.pairs ∧
          ∃ after, (configuration.serveAll more).snapshots[place]? = some after ∧
            after.content = snapshot.content ∧ after.generation = snapshot.generation ∧
            after.lookup = snapshot.lookup) ∧
      (∀ key : KeyPath, (configuration.contains key).1 = lookup.contains key ∧
        (configuration.value? key).1 = lookup.value? key ∧
        (configuration.all key).1 = (lookup.all key).filterMap id) ∧
      ∀ (schema : Schema) (under : KeyPath) (target : Object),
        configuration.configure schema under target =
          match Object.populate schema options under content.pairs target with
          | (object, none) => .ok object
          | (_, some fault) => .error fault := by
  intro configuration loads content lookup
  have h : Follows options sources loads configuration := by
    simpa using (Follows.ofSources options sources).serveAll requests
  have hlookup : configuration.lookup.1 = lookup := h.lookup_eq
  refine ⟨⟨h.made_now.generation_eq, h.now_content⟩, h.reload_cases,
    fun more place snapshot hsnapshot =>
      ⟨(h.made _ _ hsnapshot).fresh.lookup_eq, h.snapshot_serveAll hsnapshot more⟩,
    fun key => ⟨?_, ?_, ?_⟩, h.configure_eq⟩
  · show configuration.lookup.1.contains key = lookup.contains key
    rw [hlookup]
  · show configuration.lookup.1.value? key = lookup.value? key
    rw [hlookup]
  · show (configuration.lookup.1.all key).filterMap id = (lookup.all key).filterMap id
    rw [hlookup]

-- the second source does not close a block of the first, and a reload that fails changes nothing
example :
    let refused : Error := .source "over" (.refused "unplugged")
    let given (text : Except Error Text) : Access := ⟨fun _ _ => .ok [], fun _ _ => text⟩
    let configuration := (ofSources {} [.inline "base" "a = \x7b\n", .provided "over"]).serveAll
      [.reload (given (.ok "b = 2\n\x7d")), .value (.ofText "b"), .reload (given (.error refused))]
    configuration.now.generation = 1 ∧
      (configuration.value? (.ofText "a")).1 = some ("\x7b" : Text) ∧
      (configuration.value? (.ofText "b")).1 = some ("2" : Text) := by
  decide

end Configuration

end KeyedText
