import ResourceAgent.Log.Line
import ResourceAgent.Program

/-!
# The executable

Everything that a run needs from outside is fetched first: the file or the standard input that the
command reads, and the variables that are asked for. No process is started from here; every
command that the agent would run is refused.
-/
namespace ResourceAgent.Executable

/-- The fault behind an error of the system. -/
def faultOf : IO.Error → FileFault
  | .permissionDenied _ _ _ => .noPermission
  | .inappropriateType _ _ _ => .isDirectory
  | _ => .noEntry

def readFile (path : String) : IO (Except FileFault (List UInt8)) := do
  try
    return .ok (← IO.FS.readBinFile path).toList
  catch e => return .error (faultOf e)

/-- All that is left of a stream, after what has been read of it. -/
partial def readRest (stream : IO.FS.Stream) (read : ByteArray) : IO ByteArray := do
  let chunk ← stream.read 65536
  if chunk.isEmpty then return read else readRest stream (read ++ chunk)

/-- Those of the named variables that are defined. -/
def readVariables (names : List String) : IO (List Variable) :=
  names.filterMapM fun name => do
    return (← IO.getEnv name).map (Variable.ofText name)

def fileOf : CommandLine.Command → Option String
  | .parse file => file
  | .apply file _ => some file
  | .info _ _ | .ensure _ _ => none

/-- The command reads the standard input. -/
def readsInput : CommandLine.Command → Bool
  | .parse none => true
  | _ => false

/-- The text of bytes, which should be UTF-8. -/
def textOf (bytes : Except FileFault (List UInt8)) : Except FileFault String :=
  bytes.bind fun bytes => (Text.decodeUtf8 bytes).mapError fun _ => .notText

/-- What a command finds around it. -/
def surroundings (command : CommandLine.Command) : IO Surroundings := do
  let text ←
    match fileOf command with
    | some path => textOf <$> readFile path
    | none => pure (.error .noEntry)
  let input ← if readsInput command then readRest (← IO.getStdin) .empty else pure .empty
  let mentioned :=
    match text with
    | .ok text => Params.referenced (Params.pieces text.toList)
    | .error _ => []
  return {
    readText := fun _ => text
    input := Text.decodeUtf8 input.toList
    vars :=
      ← readVariables (CommandLine.binaryVariable :: Program.filterVariable :: mentioned) }

/-- The runner that refuses every command. -/
def refuse : Runner Unit := fun call state =>
  { answer := .error (Machine.notStarted call "Operation not permitted (os error 1)"), state }

def logLine : CommandLine.LogFormat → Log.Entry → String
  | .text => Log.Entry.textLine
  | .json => Log.Entry.jsonLine

end ResourceAgent.Executable

open ResourceAgent Executable

/-- Run the program on the words of the command line. -/
def main (words : List String) : IO UInt32 := do
  let bare : Surroundings :=
    { readText := fun _ => .error .noEntry
      vars := ← readVariables [CommandLine.binaryVariable] }
  let around ←
    match Program.parse bare words with
    | .ok cli => surroundings cli.command
    | .error _ => pure bare
  let run := Program.run around refuse () words
  for entry in run.log do
    IO.eprintln (logLine run.logFormat entry)
  IO.print run.exit.stdout
  return run.exit.code.toUInt32
