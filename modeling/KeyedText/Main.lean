import KeyedText.Command

/-!
# The program

Runs the command on the standard streams and on files. Arguments that make no sense end the program
with code 2, anything else that goes wrong with code 1 and a line on the error stream.
-/

namespace KeyedText.Program

/-- Why the system refused to read or write. -/
def accessFault : IO.Error → AccessFault
  | .noFileOrDirectory .. => .missing
  | .inappropriateType _ code _ => if code = 20 then .notDirectory else .directory
  | error => .refused error.toString.toList

/-- The bytes of the input. -/
def readBytes (command : Command) : IO ByteArray :=
  match command.input with
  | some path => IO.FS.readBinFile path.toString
  | none => do
    let input ← IO.getStdin
    input.readBinToEnd

/-- The text of the input. -/
def readInput (command : Command) : IO (Except AccessFault Text) := do
  try
    let bytes ← readBytes command
    return Text.ofBytes bytes
  catch error =>
    return .error (accessFault error)

/-- Writes the output. -/
def writeOutput (command : Command) (text : Text) : IO Unit :=
  match command.output with
  | some path => IO.FS.writeBinFile path.toString text.toString.toUTF8
  | none => do
    let output ← IO.getStdout
    output.putStr text.toString

/-- Reports what went wrong. -/
def fail (message : Text) : IO UInt32 := do
  IO.eprint (Command.report message).toString
  return 1

/-- Answers the input that the arguments name. -/
def answer (command : Command) : IO UInt32 := do
  match ← readInput command with
  | .error fault => fail (command.inputFault fault)
  | .ok input =>
    match command.respond input with
    | .error message => fail message
    | .ok output =>
      try
        writeOutput command output
        return 0
      catch error =>
        fail (accessFault error).message

end KeyedText.Program

/-- Runs the command that the arguments ask for. -/
def main (words : List String) : IO UInt32 :=
  match KeyedText.Command.ofArguments (words.map String.toList) with
  | some command => KeyedText.Program.answer command
  | none => return 2
