import KeyedText.Binding.Populate
import KeyedText.Error
import KeyedText.Lookup
import KeyedText.Source.Content

/-!
# Configurations

A configuration layers sources over one another: their pairs stand one source after the other, so
the last source wins where a single value is asked for. Its content changes only by a reload, which
reads every source and makes a snapshot of what they gave. A reload that fails changes nothing, and
a snapshot taken earlier stays as it was. The values of a snapshot by key are collected when they
are first asked for, and kept from then on.

## Main definitions

- `Source`, `Access` — where text comes from, and what it is at some time
- `Snapshot` — the content of one reload
- `Configuration` — sources, options and the snapshots made so far
- `Configuration.reload` — reads all sources again
- `Configuration.lookup` — the values of the current snapshot by key
-/

namespace KeyedText

/-- Where text comes from: a text given in place, a file, or something else that provides it. -/
inductive Source where
  | inline (name text : Text)
  | file (path : Text)
  | provided (name : Text)
  deriving DecidableEq, Repr

namespace Source

/-- The name of a source. A file is named by its path. -/
def name : Source → Text
  | inline name _ => name
  | file path => path
  | provided name => name

end Source

/-- What the sources of a configuration give at some time, each at its place among the others: the
texts of files by their paths, and the texts that something else provides. -/
structure Access where
  file : Nat → Text → Except AccessFault Text
  provided : Nat → Text → Except Error Text

/-- What a source at some place gives. A text given in place is always at hand. -/
def Source.read (access : Access) (place : Nat) : Source → Except Error Text
  | inline _ text => .ok text
  | file path => (access.file place path).mapError (Error.source path)
  | provided name => access.provided place name

/-- The content of one reload, which are counted from one; nothing has been read at zero. The values
by key are there once they were asked for. The count has no bound here; a program counts in 64 bits,
and no run reloads `2 ^ 64` times. -/
structure Snapshot where
  content : Content
  generation : Nat
  collected : Option Lookup := none
  deriving DecidableEq, Repr

namespace Snapshot

/-- The snapshot before the first reload. -/
def empty : Snapshot := { content := Content.empty, generation := 0 }

/-- The values of the snapshot by key, which are collected unless they were before. -/
def lookup (snapshot : Snapshot) : Lookup :=
  match snapshot.collected with
  | some lookup => lookup
  | none => Lookup.ofPairs snapshot.content.pairs

/-- The snapshot after its values were asked for. -/
def collect (snapshot : Snapshot) : Snapshot :=
  { snapshot with collected := some snapshot.lookup }

end Snapshot

/-- Sources in the order of their layers, the options for binding, and the snapshots in the order in
which they were made, of which one is current. Those who took a snapshot go on using it when another
one is current; a snapshot goes by its place among the others. -/
structure Configuration where
  sources : List Source
  options : BindOptions
  snapshots : List Snapshot
  current : Nat
  current_lt : current < snapshots.length

namespace Configuration

/-- A configuration of some sources, before the first reload. -/
def ofSources (options : BindOptions) (sources : List Source) : Configuration where
  sources := sources
  options := options
  snapshots := [Snapshot.empty]
  current := 0
  current_lt := Nat.one_pos

/-- The configuration with one more source on top, which counts from the next reload on. -/
def addSource (configuration : Configuration) (source : Source) : Configuration :=
  { configuration with sources := configuration.sources ++ [source] }

/-- The current snapshot. -/
def now (configuration : Configuration) : Snapshot :=
  configuration.snapshots.get ⟨configuration.current, configuration.current_lt⟩

/-! ## Reloading -/

/-- Reads some sources, each at its place, on top of the content of others. The first source that
cannot be read ends it. -/
def readSources (access : Access) : List (Source × Nat) → Content → Except Error Content
  | [], content => .ok content
  | (source, place) :: rest, content => do
    let text ← source.read access place
    readSources access rest (content.addSource source.name text)

/-- Adds a snapshot of some content, which becomes the current one. -/
def push (configuration : Configuration) (content : Content) : Configuration where
  sources := configuration.sources
  options := configuration.options
  snapshots := configuration.snapshots ++
    [{ content, generation := configuration.now.generation + 1 }]
  current := configuration.snapshots.length
  current_lt := by rw [List.length_append]; exact Nat.lt_succ_self _

/-- Reads all sources again. If every one of them can be read, there is a new current snapshot,
whose place is given; otherwise everything stays as it was. -/
def reload (access : Access) (configuration : Configuration) :
    Except Error Nat × Configuration :=
  match readSources access configuration.sources.zipIdx Content.empty with
  | .ok content => (.ok configuration.snapshots.length, configuration.push content)
  | .error error => (.error error, configuration)

/-! ## Reading -/

/-- The configuration after the values of a snapshot were asked for. -/
def collect (configuration : Configuration) (place : Nat) : Configuration where
  sources := configuration.sources
  options := configuration.options
  snapshots := configuration.snapshots.modify place Snapshot.collect
  current := configuration.current
  current_lt := by rw [List.length_modify]; exact configuration.current_lt

/-- The values by key of a snapshot that was taken at some time. -/
def lookupAt? (configuration : Configuration) (place : Nat) : Option Lookup × Configuration :=
  (configuration.snapshots[place]?.map Snapshot.lookup, configuration.collect place)

/-- The values by key of the current snapshot. -/
def lookup (configuration : Configuration) : Lookup × Configuration :=
  (configuration.now.lookup, configuration.collect configuration.current)

/-- Whether a key was written in any source. -/
def contains (configuration : Configuration) (key : KeyPath) : Bool × Configuration :=
  let (lookup, configuration) := configuration.lookup
  (lookup.contains key, configuration)

/-- The last value written under a key. -/
def value? (configuration : Configuration) (key : KeyPath) : Option Text × Configuration :=
  let (lookup, configuration) := configuration.lookup
  (lookup.value? key, configuration)

/-- The values written under a key, without the absent ones. -/
def all (configuration : Configuration) (key : KeyPath) : List Text × Configuration :=
  let (lookup, configuration) := configuration.lookup
  ((lookup.all key).filterMap id, configuration)

/-- An object after the pairs under a key, and the fault that ended the run, if any. -/
def populate (schema : Schema) (configuration : Configuration) (under : KeyPath)
    (target : Object) : Object × Option BindFault :=
  Object.populate schema configuration.options under configuration.now.content.pairs target

/-- An object with the pairs under a key, unless one of them cannot be bound. -/
def configure (schema : Schema) (configuration : Configuration) (under : KeyPath)
    (target : Object) : Except BindFault Object :=
  match configuration.populate schema under target with
  | (object, none) => .ok object
  | (_, some fault) => .error fault

/-- One object for each group of the pairs under a key. -/
def populateGroups (schema : Schema) (configuration : Configuration)
    (comparer : Option KeyComparer) (make : GroupKey → Object) (under : KeyPath) :
    Grouping.Result :=
  Grouping.populate schema configuration.options make
    (Grouping.ofPairs comparer under configuration.now.content.pairs)

/-- The configuration as messages show it. -/
def describe (configuration : Configuration) : Text :=
  "Configuration \x7b sources: ".toList ++
    Text.quotedList (configuration.sources.map Source.name) ++ ", generation: ".toList ++
    Text.ofNat configuration.now.generation ++ " \x7d".toList

end Configuration

end KeyedText
