import KeyedText.Source.Reading

/-!
# Files

Files and directories below a working directory, by the names that lead to them. A path is followed
name by name: each name but the last must belong to a directory, `..` leads to the directory above,
and empty pieces and single dots stay where they are. What lies outside the working directory is not
known, apart from the directories above it and the null device.

## Main definitions

- `Files` — files and directories by the names that lead to them
- `Files.follow` — the place that a path leads to
- `Files.read` — the bytes of a file
- `Files.write` — the files after one of them was written
-/

namespace KeyedText

/-- A file with its bytes, or a directory. -/
inductive FileNode where
  | directory
  | file (bytes : ByteArray)

/-- Files and directories by the names that lead to them from the working directory. -/
abbrev Files := List (List Text × FileNode)

/-- Where a path leads: to some names below the working directory, to a directory outside of it, to
a name in such a directory, or to the null device. -/
inductive Place where
  | within (names : List Text)
  | outside
  | unknown
  | nullDevice
  deriving DecidableEq, Repr

namespace Files

/-- The longest name of a file in bytes. -/
def nameLimit : Nat := 255

/-- The longest path in bytes. -/
def pathLimit : Nat := 4095

/-- The name of the directory above. -/
def parentName : Text := ['.', '.']

/-- The names of a path: its pieces between slashes, without empty ones and single dots. -/
def names (path : Text) : List Text :=
  (Text.splitOn '/' path).filter fun piece => !(piece.isEmpty || piece == ['.'])

/-- Whether a path starts outside the working directory. -/
def isAbsolute (path : Text) : Bool :=
  path.head? == some '/'

/-- Whether a path ends with a slash. -/
def endsWithSlash (path : Text) : Bool :=
  path.getLast? == some '/'

/-- Whether the last piece of a path that is not empty is a single dot. -/
def endsWithDot (path : Text) : Bool :=
  ((Text.splitOn '/' path).filter fun piece => !piece.isEmpty).getLast? == some ['.']

/-- What some names lead to. A directory that is not listed is there when something in it is. -/
def node? (files : Files) (names : List Text) : Option FileNode :=
  match files.find? fun entry => entry.1 == names with
  | some entry => some entry.2
  | none =>
    if names.isEmpty || files.any fun entry => names.isPrefixOf entry.1 then some .directory
    else none

/-- The place that a name leads to from another place, which must be a directory. -/
def step (files : Files) (place : Place) (name : Text) : Except AccessFault Place :=
  match place with
  | .unknown => .error .missing
  | .nullDevice => .error .notDirectory
  | .outside =>
    if name == parentName then .ok .outside
    else if Text.byteSize name > nameLimit then .error .nameTooLong
    else .ok .unknown
  | .within names =>
    match files.node? names with
    | none => .error .missing
    | some (.file _) => .error .notDirectory
    | some .directory =>
      if name == parentName then
        if names.isEmpty then .ok .outside else .ok (.within names.dropLast)
      else if Text.byteSize name > nameLimit then .error .nameTooLong
      else .ok (.within (names ++ [name]))

/-- The place that a path leads to, which need not bear anything. -/
def follow (files : Files) (path : Text) : Except AccessFault Place :=
  if path.isEmpty then .error .missing
  else if path.contains '\x00' then .error .nulInName
  else if Text.byteSize path > pathLimit then .error .nameTooLong
  else if isAbsolute path then
    if names path == ["dev".toList, "null".toList] then .ok .nullDevice
    else (names path).foldlM (step files) .outside
  else (names path).foldlM (step files) (.within [])

/-- The bytes of a file. A path that ends like that of a directory is none of a file. -/
def read (files : Files) (path : Text) : Except AccessFault ByteArray := do
  let found := fun bytes =>
    if endsWithSlash path || endsWithDot path then .error .notDirectory else .ok bytes
  match ← files.follow path with
  | .outside => .error .directory
  | .unknown => .error .missing
  | .nullDevice => found ByteArray.empty
  | .within names =>
    match files.node? names with
    | none => .error .missing
    | some .directory => .error .directory
    | some (.file bytes) => found bytes

/-- The text of a file. -/
def readText (files : Files) (path : Text) : Except AccessFault Text := do
  let bytes ← files.read path
  Text.ofBytes bytes

/-- The files with something put under some names. -/
def put (files : Files) (names : List Text) (node : FileNode) : Files :=
  (names, node) :: files.filter fun entry => entry.1 != names

/-- The files after one of them was written, whose directory must be there. Files outside the
working directory are lost sight of. -/
def write (files : Files) (path : Text) (bytes : ByteArray) : Except AccessFault Files := do
  let place ← files.follow path
  let node : Option FileNode := match place with
    | .outside => some .directory
    | .unknown => none
    | .nullDevice => some (.file ByteArray.empty)
    | .within names => files.node? names
  match node with
  | some .directory => .error .directory
  | node =>
    if endsWithDot path then .error (if node.isSome then .notDirectory else .missing)
    else if endsWithSlash path then .error .directory
    else
      match place with
      | .within names => .ok (files.put names (.file bytes))
      | _ => .ok files

/-- The files without what some names lead to. -/
def remove (files : Files) (names : List Text) : Files :=
  files.filter fun entry => !names.isPrefixOf entry.1

end Files

end KeyedText
