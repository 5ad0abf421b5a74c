import KeyedText.Decoding.Input
import KeyedText.Decoding.Shape

/-!
# Decoding

An input is decoded by following its shape. Fields and entries are decoded in the order in which
they were written, so of two faults the one written first is reported; missing fields are noticed
last. Unions, records told apart by a field and the entries beside the fields of an extended record
look at the content of the input as JSON, where names are those that were written.

## Main definitions

- `Shape.readContent` — the datum of some JSON content
- `Shape.decode` — the datum of an input
- `Shape.ofPairs` — the datum of some pairs
-/

namespace KeyedText

/-- Makes a datum of something, or says why it cannot. -/
abbrev Reader (α : Type) : Type := α → Except DecodeFault Datum

/-- Makes data of some things, one after the other. -/
def readEach {α : Type} (read : Reader α) : List α → Except DecodeFault (List Datum)
  | [] => .ok []
  | part :: rest => do
    let datum ← read part
    let data ← readEach read rest
    .ok (datum :: data)

/-- Makes one datum by each reader, from the first things; things that are left over do not count.
The number of things read before is given. -/
def readTuple {α : Type} (title : Text) (count : Nat) :
    List (Reader α) → List α → Except DecodeFault (List Datum)
  | [], _ => .ok []
  | _ :: _, [] => .error (.wrongLength count title)
  | read :: readers, part :: rest => do
    let datum ← read part
    let data ← readTuple title (count + 1) readers rest
    .ok (datum :: data)

/-- Makes the entries of a map, with the reader of keys first. A key that comes up again replaces
the value of the earlier one. -/
def readEntries {α : Type} (kind : MapKind) (readKey : Reader Text) (read : Reader α)
    (found : List (MapKey × Datum)) :
    List (Text × α) → Except DecodeFault (List (MapKey × Datum))
  | [] => .ok found
  | (name, part) :: rest => do
    let key ← readKey name
    let datum ← read part
    readEntries kind readKey read
      (kind.upsert key.toKey datum (fun _ => (datum, ())) found).1 rest

/-- A field with what stands in for it when it is missing, and its reader. -/
structure FieldReader (α : Type) where
  info : FieldInfo
  absent : Option Datum
  read : Reader α

namespace FieldReader

variable {α : Type}

/-- The field that a name means. -/
def find? (fields : List (FieldReader α)) (name : Text) : Option (FieldReader α) :=
  fields.find? fun field => field.info.name == name || field.info.aliases.contains name

/-- Every name by which a field is known. -/
def names (fields : List (FieldReader α)) : List Text :=
  fields.flatMap fun field => field.info.name :: field.info.aliases

/-- The value found for a field. -/
def valueOf? (found : List (Text × Datum)) (name : Text) : Option Datum :=
  Entries.get? name found

/-- Reads the fields among some named things. What has another name goes to the given function, with
what it has made of such things so far. -/
def readAll {β : Type} (fields : List (FieldReader α))
    (other : β → Text → α → Except DecodeFault β) (found : List (Text × Datum)) (others : β) :
    List (Text × α) → Except DecodeFault (List (Text × Datum) × β)
  | [] => .ok (found, others)
  | (name, part) :: rest =>
    match find? fields name with
    | none => do
      let others ← other others name part
      readAll fields other found others rest
    | some field =>
      if (valueOf? found field.info.name).isSome then
        .error (.duplicateField field.info.name)
      else do
        let datum ← field.read part
        readAll fields other (found ++ [(field.info.name, datum)]) others rest

/-- The value of a field, which may stand in for a missing one. -/
def value (field : FieldReader α) (found : List (Text × Datum)) : Except DecodeFault Datum :=
  match (valueOf? found field.info.name).or (field.info.fallback.or field.absent) with
  | some datum => .ok datum
  | none => .error (.missingField field.info.name)

/-- The fields of a record in their order. -/
def complete (found : List (Text × Datum)) :
    List (FieldReader α) → Except DecodeFault (List (Text × Datum))
  | [] => .ok []
  | field :: rest => do
    let datum ← field.value found
    let data ← complete found rest
    if field.info.skipsNull && datum.isNull then .ok data
    else .ok ((field.info.name, datum) :: data)

/-- Things with another name than those of the fields are refused by a strict record. -/
def refuse (strict : Bool) (fields : List (FieldReader α)) (_ : Unit) (name : Text) (_ : α) :
    Except DecodeFault Unit :=
  if strict then .error (.unknownField name (names fields)) else .ok ()

/-- Reads a record from named things. -/
def readRecord (strict : Bool) (fields : List (FieldReader α)) (parts : List (Text × α)) :
    Except DecodeFault Datum := do
  let (found, _) ← readAll fields (refuse strict fields) [] () parts
  let data ← complete found fields
  .ok (Datum.record data)

/-- Reads a record from named things, and the entries beside its fields. -/
def readExtended (fields : List (FieldReader α)) (content : α → Json) (read : Reader Json)
    (parts : List (Text × α)) : Except DecodeFault Datum := do
  let keep := fun (others : List (Text × Json)) name part =>
    .ok (others ++ [(name, content part)])
  let (found, others) ← readAll fields keep [] [] parts
  let data ← complete found fields
  let others ← readEntries .inserted (fun name => .ok (Datum.text name)) read [] others
  .ok (.map (data.map (fun (name, value) => (.single (.text .plain name), value)) ++ others))

end FieldReader

/-- The first datum that one of the readers makes. -/
def readFirst {α : Type} (part : α) : List (Reader α) → Option Datum
  | [] => none
  | read :: rest =>
    match read part with
    | .ok datum => some datum
    | .error _ => readFirst part rest

/-- What messages call some JSON content. -/
def Json.title : Json → Text
  | .null => "unit value"
  | .bool b => "boolean ".toList ++ (Scalar.boolText b).ticked
  | .integer n => "integer ".toList ++ (Text.ofInt n).ticked
  | .binary x => "floating point ".toList ++ (Json.numeral x).ticked
  | .string t => "string ".toList ++ t.quoted
  | .array _ => "sequence"
  | .object _ => "map"

namespace Shape

/-- What messages call the content that a shape can be read from. -/
def title : Shape → Text
  | scalar (.text .plain) => "a string"
  | list _ => "a sequence"
  | tuple title _ => title
  | map _ _ _ => "a map"
  | union title _ => "untagged enum ".toList ++ title
  | tagged title _ _ => "internally tagged enum ".toList ++ title
  | named name => name
  | _ => "other content"

/-- Content that a shape cannot be read from. -/
def mismatch {α : Type} (shape : Shape) (content : Json) : Except DecodeFault α :=
  .error (.wrongType content.title shape.title)

/-- The first part under a tag among some named parts, and the other parts. -/
def splitTag {α : Type} (tag : Text) : List (Text × α) → Except DecodeFault (α × List (Text × α))
  | [] => .error (.missingField tag)
  | (name, part) :: rest =>
    if name == tag then .ok (part, rest)
    else do
      let (found, others) ← splitTag tag rest
      .ok (found, (name, part) :: others)

/-- A datum of a variant with its tag in front. -/
def withTag (tag name : Text) : Datum → Datum
  | .map entries => .map ((.single (.text .plain tag), Datum.text name) :: entries)
  | datum => datum

mutual

/-- Makes a datum of JSON content by a shape. Only texts, lists, maps, records and what is built
from them can be read from content; what a name stands for is said by the given function. -/
def readContent (meaning : Text → Reader Json) : Shape → Reader Json
  | .any => fun content => .ok (Datum.ofJson content.merged)
  | .nothing => fun _ => .ok .null
  | .scalar (.text .plain) => fun
    | .string t => .ok (Datum.text t)
    | content => mismatch text content
  | .optional shape =>
    let read := shape.readContent meaning
    fun
    | .null => .ok .null
    | content => read content
  | .list element =>
    let read := element.readContent meaning
    fun
    | .array items => (readEach read items).map .list
    | content => mismatch (.list element) content
  | .tuple title elements =>
    let readers := contentReaders meaning elements
    fun
    | .array items => (readTuple title 0 readers items).map .list
    | content => mismatch (.tuple title elements) content
  | .map kind key element =>
    let readKey := key.readContent meaning
    let read := element.readContent meaning
    fun
    | .object entries =>
      (readEntries kind (fun name => readKey (.string name)) read [] entries).map .map
    | content => mismatch (.map kind key element) content
  | .record strict fields =>
    let readers := contentFieldReaders meaning fields
    fun
    | .object entries => FieldReader.readRecord strict readers entries
    | content => mismatch (.record strict fields) content
  | .union title options =>
    let readers := contentReaders meaning options
    fun content =>
      match readFirst content readers with
      | some datum => .ok datum
      | none => .error (.noAlternative title)
  | .named name => meaning name
  | shape => mismatch shape

/-- The readers of content for some shapes. -/
def contentReaders (meaning : Text → Reader Json) : List Shape → List (Reader Json)
  | [] => []
  | shape :: rest => shape.readContent meaning :: contentReaders meaning rest

/-- The readers of content for fields. -/
def contentFieldReaders (meaning : Text → Reader Json) :
    List (FieldInfo × Shape) → List (FieldReader Json)
  | [] => []
  | (info, shape) :: rest =>
    ⟨info, shape.absent, shape.readContent meaning⟩ :: contentFieldReaders meaning rest

end

/-- Makes a datum of JSON content, looking up names to the given depth. -/
def readContentTo (shapes : Shapes) : Nat → Shape → Reader Json
  | 0, shape => shape.readContent fun name _ => .error (.unknownShape name)
  | depth + 1, shape =>
    shape.readContent fun name => readContentTo shapes depth (find shapes name)

/-- How inputs are decoded: the separator of lists on one line, what a name stands for, and how
content is read. -/
structure Context where
  separator : Char
  meaning : Text → Reader Input
  readContent : Shape → Reader Json

/-- The bytes of a text as a datum. -/
def bytesOf (text : Text) : Datum :=
  .list (text.toString.toUTF8.toList.map fun byte =>
    .scalar (.integer (.unsigned 8) byte.toNat))

/-- Makes a datum of the content of a variant. -/
def readCase (info : CaseInfo) (read : Reader Input) : Option Input → Except DecodeFault Datum
  | content =>
    match info.kind, content with
    | .unit, _ => .ok (Datum.text info.name)
    | kind, none => .error (.bareVariant kind)
    | _, some input => do
      let datum ← read input
      .ok (Datum.record [(info.name, datum)])

/-- Makes a datum of an input whose members tell by one of them which record they are. The others
are read as content. -/
def readTagged (title tag : Text) (cases : List (Text × Reader Json)) (input : Input) :
    Except DecodeFault Datum :=
  match input, input.content with
  | .tree node, .object _ => do
    let (found, others) ← splitTag tag (Input.entriesOf node)
    let name ← found.text
    match Entries.get? name cases with
    | none => .error (.unknownVariant name (cases.map (·.1)))
    | some read =>
      if others.any fun entry => entry.1 == tag then .error (.duplicateField tag)
      else
        let others := others.map fun (name, part) => (name, part.content)
        (read (.object others)).map (withTag tag name)
  | _, content => mismatch (.tagged title tag []) content

mutual

/-- Makes a datum of an input by a shape. -/
def decodeIn (context : Context) : Shape → Reader Input
  | .any => fun input => .ok (Datum.ofJson input.content.merged)
  | .scalar type => fun input => (input.scalar type).map .scalar
  | .bytes => fun input => input.text.map bytesOf
  | .nothing => fun _ => .ok .null
  | .unkeyed => fun input => do
    let _ ← input.entries
    .error .valueWithoutKey
  | .optional shape =>
    let read := shape.decodeIn context
    fun input => if input.isAbsent then .ok .null else read input
  | .list element =>
    let read := element.decodeIn context
    fun input => do
      let items ← input.items context.separator
      (readEach read items).map .list
  | .tuple title elements =>
    let readers := inputReaders context elements
    fun input => do
      let items ← input.items context.separator
      (readTuple title 0 readers items).map .list
  | .map kind key element =>
    let readKey := key.decodeIn context
    let read := element.decodeIn context
    fun input => do
      let entries ← input.entries
      (readEntries kind (fun name => readKey (.piece name)) read [] entries).map .map
  | .record strict fields =>
    let readers := inputFieldReaders context fields
    fun input => do
      let parts ← input.fields (FieldReader.names readers)
      FieldReader.readRecord strict readers parts
  | .extended fields element =>
    let readers := inputFieldReaders context fields
    let read := context.readContent element
    fun input => do
      let parts ← input.entries
      FieldReader.readExtended readers Input.content read parts
  | .choice cases =>
    let readers := inputCaseReaders context cases
    fun input => do
      let known := readers.map fun reader => reader.1.name
      let (name, content) ← input.choice known
      match readers.find? fun reader => reader.1.name == name with
      | some (info, read) => readCase info read content
      | none => .error (.unknownVariant name known)
  | .union title options =>
    let read := context.readContent (.union title options)
    fun input => read input.content
  | .tagged title tag cases => readTagged title tag
      (cases.map fun (name, shape) => (name, context.readContent shape))
  | .named name => context.meaning name

/-- The readers of inputs for some shapes. -/
def inputReaders (context : Context) : List Shape → List (Reader Input)
  | [] => []
  | shape :: rest => shape.decodeIn context :: inputReaders context rest

/-- The readers of inputs for fields. -/
def inputFieldReaders (context : Context) :
    List (FieldInfo × Shape) → List (FieldReader Input)
  | [] => []
  | (info, shape) :: rest =>
    ⟨info, shape.absent, shape.decodeIn context⟩ :: inputFieldReaders context rest

/-- The readers of inputs for variants. -/
def inputCaseReaders (context : Context) :
    List (CaseInfo × Shape) → List (CaseInfo × Reader Input)
  | [] => []
  | (info, shape) :: rest => (info, shape.decodeIn context) :: inputCaseReaders context rest

end

/-- Makes a datum of an input, looking up names to the given depth. -/
def decodeTo (shapes : Shapes) (separator : Char) : Nat → Shape → Reader Input
  | 0, shape =>
    shape.decodeIn
      { separator
        meaning := fun name _ => .error (.unknownShape name)
        readContent := readContentTo shapes 0 }
  | depth + 1, shape =>
    shape.decodeIn
      { separator
        meaning := fun name => decodeTo shapes separator depth (find shapes name)
        readContent := readContentTo shapes (depth + 1) }

/-- Makes a datum of a tree. A shape that is well founded looks up at most one name on each level of
the tree, and one more. -/
def decode (shapes : Shapes) (separator : Char) (shape : Shape) (tree : Tree) :
    Except DecodeFault Datum :=
  shape.decodeTo shapes separator (tree.depth + 1) (.tree tree)

/-- Makes a datum of some pairs. -/
def ofPairs (shapes : Shapes) (separator : Char) (shape : Shape) (pairs : List Pair) :
    Except DecodeFault Datum :=
  shape.decode shapes separator (Tree.ofPairs pairs)

end Shape

end KeyedText
