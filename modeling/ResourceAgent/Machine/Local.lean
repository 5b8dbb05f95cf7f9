import ResourceAgent.Dialogue
import ResourceAgent.Machine.Disk

/-!
# Running commands on a machine

A program without a slash in its name is looked up among the installed ones, any other is the
path of a file. A command that cannot be started and one that overruns its time limit are
failures; a command that ends by itself is none, whatever its exit code, and its output is read
leniently as text.
-/
namespace ResourceAgent

/-- How a process comes to its end. -/
inductive Ending where
  | exited (code : Nat)
  /-- Ended by a signal. -/
  | killed
deriving Repr, DecidableEq

/-- What a process does, as seen from outside. -/
structure Conduct where
  ending : Ending := .exited 0
  stdout : List UInt8 := []
  stderr : List UInt8 := []
  /-- The nanoseconds it takes; none if it never ends. -/
  duration : Option Nat := some 0
deriving Repr

def Ending.code : Ending → Int
  | .exited code => code
  | .killed => -1

def Conduct.output (c : Conduct) : Output where
  exitCode := c.ending.code
  stdout := Text.decodeUtf8Lenient c.stdout
  stderr := Text.decodeUtf8Lenient c.stderr

/-- The process ends before its time is over. -/
def Conduct.meets (c : Conduct) (limit : Duration) : Bool :=
  c.duration.any (· < limit.totalNanos)

/-- A program: its arguments decide what it does, and it may leave a trace in the machine. -/
abbrev Installed (σ : Type) := List String → σ → Conduct × σ

/-- A machine: its disk and its installed programs. -/
structure Machine (σ : Type) where
  disk : Disk := { }
  programs : List (String × Installed σ) := []

namespace Machine

variable {σ : Type}

/-- A program that is not to be found by its name. -/
def notFound (program : String) : Failure :=
  .process program none "" "Command not found: cannot find binary path"

/-- A command that cannot be started. -/
def notStarted (call : Invocation) (cause : String) : Failure :=
  .process (commandLine call.program call.args) none "" ("Failed to execute command: " ++ cause)

/-- A command that took too long. -/
def overran (call : Invocation) : Failure :=
  .timeout ("`" ++ commandLine call.program call.args ++ "` did not finish within " ++
    toString call.limit.seconds.toNat ++ "s")

/-- The bytes that one argument may have. -/
def argumentLimit : Nat := 131071

/-- A text has the character NUL in it, which the system cannot take over. -/
def hasNul (s : String) : Bool := s.toList.contains '\x00'

/-- The program is named by the path of a file. -/
def isPath (program : String) : Bool := program.toList.contains '/'

/-- The name of the installed program that a command starts, once its texts are known to be fit. -/
def programName (m : Machine σ) (program : String) : Except FileFault String :=
  if isPath program then m.disk.readProgram program else .ok program

/-- What a command starts. -/
def start (m : Machine σ) (call : Invocation) : Except Failure (Installed σ) :=
  if !isPath call.program && (m.programs.lookup call.program).isNone then
    .error (notFound call.program)
  else if hasNul call.program || call.args.any hasNul then
    .error (notStarted call "nul byte found in provided data")
  else if call.args.any (argumentLimit < Disk.byteLength ·) then
    .error (notStarted call FileFault.tooManyArguments.message)
  else
    match m.programName call.program with
    | .error fault => .error (notStarted call fault.message)
    | .ok name =>
        match m.programs.lookup name with
        | some program => .ok program
        | none => .error (notStarted call FileFault.noPermission.message)

/-- An entry of the runner. -/
def note (level : Log.Level) (message : String) : Log.Entry := { level, origin := .runner, message }

def startNote (call : Invocation) : Log.Entry :=
  note .debug ("Executing local command: " ++ commandLine call.program call.args)

def endNote (call : Invocation) (output : Output) : Log.Entry :=
  note .debug ("Command '" ++ commandLine call.program call.args ++ "' exited with " ++
    toString output.exitCode ++ " (" ++ toString (Disk.byteLength output.stdout) ++
    " bytes of output)")

def overrunNote (call : Invocation) : Log.Entry :=
  note .error ("Command timed out after " ++ toString call.limit.seconds.toNat ++ "s: " ++
    commandLine call.program call.args)

def run (m : Machine σ) : Runner σ := fun call state =>
  match m.start call with
  | .error failure => { answer := .error failure, notes := [startNote call], state }
  | .ok program =>
      let (conduct, state) := program call.args state
      if conduct.meets call.limit then
        let output := conduct.output
        { answer := .ok output, notes := [startNote call, endNote call output], state }
      else
        { answer := .error (overran call), notes := [startNote call, overrunNote call], state }

end Machine

end ResourceAgent
