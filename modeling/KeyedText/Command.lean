import KeyedText.Error
import KeyedText.Json.Printer
import KeyedText.Json.Reader
import KeyedText.Lookup
import KeyedText.Source.Content
import KeyedText.Source.Files

/-!
# The command

The command turns configuration text into JSON and back, or prints the values of one key. Its
arguments say where the input comes from and where the output goes; what lies between is a function
of the input's text.

## Main definitions

- `Command` — what the arguments ask for
- `Command.ofArguments` — reads the arguments
- `Command.respond` — the output for an input
- `Command.run` — a whole run among some files
-/

namespace KeyedText

/-- A question for the values of a key: the last one, or all of them. -/
inductive Query where
  | last (key : Text)
  | all (key : Text)
  deriving DecidableEq, Repr

/-- The arguments as they are collected. -/
structure Arguments where
  input : Option Text := none
  output : Option Text := none
  encode : Bool := false
  decode : Bool := false
  get : Option Text := none
  all : Option Text := none
  separator : Option Char := none
  indent : Option Nat := none
  compact : Bool := false
  crlf : Bool := false
  deriving DecidableEq, Repr

/-- What the arguments ask for. Without the name of an input or of an output, or with `-` in its
place, the standard streams are used. -/
structure Command where
  input : Option Text
  output : Option Text
  query : Option Query
  encodes : Bool
  separator : Char
  indent : Nat
  options : EncodeOptions
  deriving DecidableEq, Repr

/-- An argument that takes a value. -/
inductive ValueArgument where
  | output
  | get
  | all
  | separator
  | indent
  deriving DecidableEq, Repr

/-- An argument that takes none. -/
inductive FlagArgument where
  | encode
  | decode
  | compact
  | crlf
  deriving DecidableEq, Repr

/-- The argument of a long name. -/
def longArgument? (name : Text) : Option (ValueArgument ⊕ FlagArgument) :=
  if name == "output" then some (.inl .output)
  else if name == "get" then some (.inl .get)
  else if name == "all" then some (.inl .all)
  else if name == "separator" then some (.inl .separator)
  else if name == "indent" then some (.inl .indent)
  else if name == "encode" then some (.inr .encode)
  else if name == "decode" then some (.inr .decode)
  else if name == "compact" then some (.inr .compact)
  else if name == "crlf" then some (.inr .crlf)
  else none

/-- The argument of a short name. -/
def shortArgument? (name : Char) : Option (ValueArgument ⊕ FlagArgument) :=
  if name = 'o' then some (.inl .output)
  else if name = 'e' then some (.inr .encode)
  else if name = 'd' then some (.inr .decode)
  else none

namespace Arguments

/-- A value for a place that must still be empty. -/
def fill {α : Type} (place : Option α) (value : Option α) : Option (Option α) :=
  if place.isSome || value.isNone then none else some value

/-- The arguments with one more value. Each argument may be given once. -/
def setValue (arguments : Arguments) (argument : ValueArgument) (value : Text) :
    Option Arguments :=
  match argument with
  | .output => (fill arguments.output (some value)).map fun output => { arguments with output }
  | .get => (fill arguments.get (some value)).map fun get => { arguments with get }
  | .all => (fill arguments.all (some value)).map fun all => { arguments with all }
  | .separator =>
    let single := match value with
      | [c] => some c
      | _ => none
    (fill arguments.separator single).map fun separator => { arguments with separator }
  | .indent =>
    (fill arguments.indent (readPosition? value)).map fun indent => { arguments with indent }

/-- The arguments with one more flag. Each flag may be given once. -/
def setFlag (arguments : Arguments) : FlagArgument → Option Arguments
  | .encode => if arguments.encode then none else some { arguments with encode := true }
  | .decode => if arguments.decode then none else some { arguments with decode := true }
  | .compact => if arguments.compact then none else some { arguments with compact := true }
  | .crlf => if arguments.crlf then none else some { arguments with crlf := true }

/-- The arguments with the name of the input. -/
def setInput (arguments : Arguments) (name : Text) : Option Arguments :=
  (fill arguments.input (some name)).map fun input => { arguments with input }

/-- The arguments with those of a long name, behind the two dashes, and the argument that still
waits for its value. -/
def addLong (arguments : Arguments) (text : Text) : Option (Arguments × Option ValueArgument) :=
  let name := text.takeWhile (· ≠ '=')
  match longArgument? name, text.dropWhile (· ≠ '=') with
  | some (.inl argument), _ :: value =>
    (arguments.setValue argument value).map fun arguments => (arguments, none)
  | some (.inl argument), [] => some (arguments, some argument)
  | some (.inr flag), [] => (arguments.setFlag flag).map fun arguments => (arguments, none)
  | _, _ => none

/-- The arguments with those of short names, behind the dash. The rest behind the name of an
argument with a value is its value, which may stand behind an equals sign. -/
def addShort (arguments : Arguments) : Text → Option (Arguments × Option ValueArgument)
  | [] => some (arguments, none)
  | name :: rest =>
    match shortArgument? name, rest with
    | some (.inl argument), [] => some (arguments, some argument)
    | some (.inl argument), '=' :: value =>
      (arguments.setValue argument value).map fun arguments => (arguments, none)
    | some (.inl argument), value =>
      (arguments.setValue argument value).map fun arguments => (arguments, none)
    | some (.inr flag), rest =>
      (arguments.setFlag flag).bind fun arguments => arguments.addShort rest
    | none, _ => none

/-- Collects the arguments one after the other. An argument may wait for its value, which does not
start with a dash unless it is one; behind two dashes everything is the name of the input. -/
def collect (arguments : Arguments) (waiting : Option ValueArgument) (plain : Bool) :
    List Text → Option Arguments
  | [] => if waiting.isSome then none else some arguments
  | word :: rest =>
    match plain, word, waiting with
    | false, ['-', '-'], none => arguments.collect none true rest
    | false, '-' :: '-' :: _, some _ => none
    | false, '-' :: '-' :: name, none =>
      (arguments.addLong name).bind fun (arguments, waiting) => arguments.collect waiting false rest
    | false, '-' :: _ :: _, some _ => none
    | false, '-' :: c :: names, none =>
      (arguments.addShort (c :: names)).bind fun (arguments, waiting) =>
        arguments.collect waiting false rest
    | false, value, some argument =>
      (arguments.setValue argument value).bind fun arguments => arguments.collect none false rest
    | _, name, _ =>
      (arguments.setInput name).bind fun arguments => arguments.collect none plain rest

end Arguments

/-- The part of a file's name behind its last dot. A dot at its very front does not count. -/
def fileExtension? (path : Text) : Option Text :=
  let name := (Files.names path).getLast?.getD []
  match (Text.splitOn '.' name).reverse with
  | [] => none
  | [_] => none
  | last :: before => if before == [[]] || name == Files.parentName then none else some last

/-- A name that does not stand for a standard stream. -/
def namedFile? : Option Text → Option Text
  | some ['-'] => none
  | name => name

namespace Command

/-- Whether the input is JSON: as a flag says, or else when it is a file with the extension of
JSON. -/
def encodesInput (arguments : Arguments) : Bool :=
  arguments.encode ||
    (!arguments.decode &&
      match (namedFile? arguments.input).bind fileExtension? with
      | some extension => Text.asciiLowercase extension == "json"
      | none => false)

/-- What some arguments ask for; `none` when they contradict one another or make no sense. -/
def ofArguments (words : List Text) : Option Command :=
  match Arguments.collect {} none false words with
  | none => none
  | some arguments =>
    if arguments.encode && arguments.decode || arguments.get.isSome && arguments.all.isSome then
      none
    else
      some
        { input := namedFile? arguments.input
          output := namedFile? arguments.output
          query := (arguments.get.map .last).or (arguments.all.map .all)
          encodes := encodesInput arguments
          separator := arguments.separator.getD ','
          indent := arguments.indent.getD 2
          options := ⟨arguments.compact, arguments.crlf⟩ }

/-- The values that a question asks for, each on its own line. -/
def answer (query : Query) (text : Text) : Except Text Text :=
  let lookup := Lookup.ofPairs (Content.readPairs text)
  match query with
  | .last key =>
    match lookup.value? (KeyPath.ofText key) with
    | some value => .ok (value ++ ['\n'])
    | none => .error ("no value for ".toList ++ key.ticked)
  | .all key =>
    .ok ((lookup.all (KeyPath.ofText key)).flatMap fun value => value.getD [] ++ ['\n'])

/-- Configuration text for JSON. -/
def encode (options : EncodeOptions) (text : Text) : Except Text Text :=
  match Json.read text with
  | .error failure => .error failure.message
  | .ok value => (value.encodeDocument options).mapError fun fault => (Error.ofWrite fault).message

/-- JSON for configuration text. -/
def decode (indent : Nat) (text : Text) : Text :=
  (Json.ofTree (Tree.ofPairs (Content.readPairs text))).print indent ++ ['\n']

/-- The output for an input, or the wording of what went wrong. -/
def respond (command : Command) (text : Text) : Except Text Text :=
  match command.query with
  | some query => answer query text
  | none =>
    if command.encodes then encode command.options text
    else .ok (decode command.indent text)

/-- The wording of an input that cannot be read. -/
def inputFault (command : Command) (fault : AccessFault) : Text :=
  match command.input with
  | some path => "failed to read ".toList ++ path.ticked ++ ": ".toList ++ fault.message
  | none => fault.message

/-- The line that reports what went wrong. -/
def report (message : Text) : Text :=
  "ERROR  ".toList ++ message ++ ['\n']

/-- How a run ended: its code, what it printed, what it reported and the files after it. -/
structure Ending where
  code : Nat
  output : Text
  report : Text
  files : Files

/-- A run that failed. -/
def failed (files : Files) (message : Text) : Ending :=
  ⟨1, [], report message, files⟩

/-- Puts the output in its place. -/
def deliver (command : Command) (files : Files) (output : Text) : Ending :=
  match command.output with
  | none => ⟨0, output, [], files⟩
  | some path =>
    match files.write path output.toString.toUTF8 with
    | .ok files => ⟨0, [], [], files⟩
    | .error fault => failed files fault.message

/-- A run of the command among some files. -/
def runCommand (command : Command) (files : Files) (standardInput : Text) : Ending :=
  let input := match command.input with
    | some path => files.readText path
    | none => .ok standardInput
  match input with
  | .error fault => failed files (command.inputFault fault)
  | .ok text =>
    match command.respond text with
    | .error message => failed files message
    | .ok output => command.deliver files output

/-- A whole run among some files. Arguments that make no sense end it with code 2. -/
def run (words : List Text) (files : Files) (standardInput : Text) : Ending :=
  match ofArguments words with
  | none => ⟨2, [], [], files⟩
  | some command => command.runCommand files standardInput

end Command

end KeyedText
