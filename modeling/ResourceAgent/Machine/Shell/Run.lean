import ResourceAgent.Machine.Local
import ResourceAgent.Machine.Shell.Reader
import ResourceAgent.Machine.Shell.Utility
import ResourceAgent.Text.Blank

/-!
# Running shell scripts

A session holds what a script changes. What is written is kept in order with the stream it goes
to, so that a redirection can send on all that was written within it. A session halts when the
script exits, when a signal ends the shell, or when the fuel is used up: then the script is taken
to run forever.
-/
namespace ResourceAgent.Shell

inductive Halt where
  | exited
  | killed
  | never
deriving Repr, DecidableEq

structure Session where
  disk : Disk
  /-- The positional parameters, the name of the shell first. -/
  parameters : List String
  values : List (String × String) := []
  input : List UInt8 := []
  status : Nat := 0
  /-- What was written to which stream, the latest first. -/
  written : List (Nat × List UInt8) := []
  elapsed : Nat := 0
  halt : Option Halt := none

namespace Session

/-- The number of the process, as `$$` tells it. -/
def processNumber : String := "4242"

/-- The value of a parameter. -/
def value (s : Session) (name : String) : String :=
  match name with
  | "#" => toString (s.parameters.length - 1)
  | "?" => toString s.status
  | "$" => processNumber
  | "@" | "*" => Text.join " " s.parameters.tail
  | _ =>
      match Text.readNatural 10 name.toList with
      | some n => s.parameters.getD n ""
      | none => (s.values.lookup name).getD ""

def assign (s : Session) (name value : String) : Session :=
  { s with values := (name, value) :: s.values.filter (·.1 != name) }

def write (s : Session) (stream : Nat) (bytes : List UInt8) : Session :=
  if bytes.isEmpty then s else { s with written := (stream, bytes) :: s.written }

/-- Take over what a utility does. -/
def perform (s : Session) (d : Deed) : Session :=
  { (s.write 1 d.stdout).write 2 d.stderr with
    status := d.status, elapsed := s.elapsed + d.time }

/-- Fail with a message under the name of the shell. Lines of a script are not counted. -/
def complain (s : Session) (status : Nat) (message : String) : Session :=
  s.perform (.fail status (s.parameters.headD "sh" ++ ": 1: " ++ message))

def stream (s : Session) (n : Nat) : List UInt8 :=
  (s.written.reverse.filter (·.1 == n)).flatMap Prod.snd

/-- Fields under construction: those that are complete, the latest first, and an open one. -/
abbrev Fields := List String × Option String

def extend (f : Fields) (s : String) : Fields := (f.1, some (f.2.getD "" ++ s))

def close (f : Fields) : Fields := (f.2.toList ++ f.1, none)

/-- Add a value that is split at blanks. -/
def extendSplit (f : Fields) (s : String) : Fields :=
  s.toList.foldl (fun f c =>
    if c = ' ' || c = '\t' || c = '\n' then close f else extend f (String.singleton c)) f

/-- Add values as fields of their own; the first joins the open field, the last stays open. -/
def extendAll (f : Fields) : List String → Fields
  | [] => f
  | [s] => extend f s
  | s :: rest => extendAll (close (extend f s)) rest

def expandSegment (session : Session) (f : Fields) (segment : Segment) : Fields :=
  match segment.part with
  | .text s => extend f s
  | .sum source =>
      extend f (((evaluateSum session.value source).map toString).getD "")
  | .parameter name =>
      if segment.quoted then
        if name = "@" then extendAll f session.parameters.tail else extend f (session.value name)
      else extendSplit f (session.value name)

/-- A quoted word that names all positional parameters stands for no field if there are none. -/
def standsForNothing (session : Session) (w : Word) : Bool :=
  w == [⟨true, .text ""⟩, ⟨true, .parameter "@"⟩] && session.parameters.tail.isEmpty

def expand (session : Session) (w : Word) : List String :=
  if session.standsForNothing w then []
  else (close (w.foldl session.expandSegment ([], none))).1.reverse

/-- The value of a word where no fields are made. -/
def expandWhole (session : Session) (w : Word) : String :=
  Text.join " " (session.expand w)

end Session

def Word.assignment? : Word → Option (String × Word)
  | ⟨false, .text s⟩ :: rest =>
      let cs := s.toList
      let name := cs.takeWhile isNameChar
      match cs.dropWhile isNameChar with
      | '=' :: value =>
          if name.isEmpty || name.head?.any Char.isDigit then none
          else
            some (String.ofList name,
              if value.isEmpty then rest else ⟨false, .text (String.ofList value)⟩ :: rest)
      | _ => none
  | _ => none

/-- Signals that leave a process alone. -/
def harmlessSignals : List String :=
  ["0", "CHLD", "CONT", "URG", "WINCH", "17", "18", "23", "28"]

/-- Signals that stop a process. -/
def stoppingSignals : List String := ["STOP", "TSTP", "TTIN", "TTOU", "19", "20", "21", "22"]

/-- Send a signal to the shell itself. -/
def signal (s : Session) (name : String) : Session :=
  let name := if "SIG".isPrefixOf name then (name.drop 3).toString else name
  if harmlessSignals.contains name then { s with status := 0 }
  else if stoppingSignals.contains name then { s with halt := some .never }
  else { s with halt := some .killed }

def kill (s : Session) (args : List String) : Session :=
  let self := fun pid => pid == Session.processNumber
  let noProcess := s.complain 1 "kill: No such process"
  match args with
  | [pid] => if self pid then signal s "TERM" else noProcess
  | ["-s", name, pid] => if self pid then signal s name else noProcess
  | [name, pid] => if self pid then signal s (name.drop 1).toString else noProcess
  | _ => s.complain 2 "kill: Usage: kill [-s sigspec | -signum | -sigspec] [pid]..."

def exit (s : Session) (args : List String) : Session :=
  let s :=
    match args with
    | [] => s
    | a :: _ =>
        match Text.readNatural 10 a.toList with
        | some n => { s with status := n % 256 }
        | none => s.complain 2 ("exit: Illegal number: " ++ a)
  { s with halt := some .exited }

/-- Give the words of a line to variables; the last one takes what is left. -/
def assignWords (s : Session) (line : List Char) : List String → Session
  | [] => s
  | [name] => s.assign name (String.ofList (Text.trim line))
  | name :: rest =>
      let line := Text.trimStart line
      assignWords (s.assign name (String.ofList (line.takeWhile (!Text.isBlank ·))))
        (line.dropWhile (!Text.isBlank ·)) rest

/-- Read a line of the input into variables. It fails at the end of the input. -/
def readLine (s : Session) (names : List String) : Session :=
  let line := s.input.takeWhile (· != 10)
  let rest := s.input.dropWhile (· != 10)
  { assignWords s (Text.decodeLenientFrom 0 line) names with
    input := rest.drop 1, status := if rest.isEmpty then 1 else 0 }

def invoke (s : Session) (name : String) (args : List String) : Session :=
  match name with
  | "exit" => exit s args
  | "read" => readLine s args
  | "kill" => kill s args
  | "shift" => { s with parameters := s.parameters.take 1 ++ s.parameters.drop 2, status := 0 }
  | _ =>
      match utility s.disk name args s.input with
      | some deed => s.perform deed
      | none => s.complain 127 (name ++ ": not found")

/-- Set the variables of leading assignments; the other words are left. -/
def assignAll (s : Session) : List Word → Session × List Word
  | [] => (s, [])
  | w :: rest =>
      match w.assignment? with
      | some (name, value) => assignAll (s.assign name (s.expandWhole value)) rest
      | none => (s, w :: rest)

/-- Run a simple command. `exec` runs its command in the place of the shell. -/
def runSimple (s : Session) (words : List Word) : Session :=
  let (s, words) := assignAll s words
  match words.flatMap s.expand with
  | [] => { s with status := 0 }
  | "exec" :: name :: args =>
      let s := invoke s name args
      { s with halt := s.halt <|> some .exited }
  | name :: args => invoke s name args

/-- Where a redirection sends what is written to a stream; none for a file. -/
def redirectStream (stream : Nat) : List Redirect → Option Nat
  | [] => some stream
  | r :: earlier =>
      match r with
      | .onto a b => redirectStream (if stream = a then b else stream) earlier
      | .away a => if stream = a then none else redirectStream stream earlier
      | .input _ => redirectStream stream earlier

/-- Send on what was written; the redirections are in the order of the script. -/
def sendOn (rs : List Redirect) (written : List (Nat × List UInt8)) : List (Nat × List UInt8) :=
  written.filterMap fun w => (redirectStream w.1 rs.reverse).map (·, w.2)

/-- The input after the redirections, or the file that cannot be read. -/
def redirectInput (s : Session) (rs : List Redirect) : Except (String × String) (List UInt8) :=
  rs.foldlM (fun input r =>
    match r with
    | .input w =>
        let name := s.expandWhole w
        match s.disk.readBytes name with
        | .ok bytes => .ok bytes
        | .error fault =>
            .error (name, if fault = .noEntry then "No such file" else fault.reason)
    | _ => .ok input) s.input

/-- The session of a shell within the shell. -/
def Session.fork (s : Session) (input : List UInt8) : Session :=
  { s with input, written := [], elapsed := 0 }

/-- The end of a shell within the shell: its exit is not the exit of the outer shell. -/
def innerHalt : Option Halt → Option Halt
  | some .exited => none
  | h => h

/-- Run a script, with fuel for every step and every turn of a loop. -/
def run (fuel : Nat) (script : Script) (s : Session) : Session :=
  match fuel with
  | 0 => { s with halt := some .never }
  | fuel + 1 =>
      if s.halt.isSome then s
      else
        match script with
        | .nothing => s
        | .simple words => runSimple s words
        | .sequence first second => run fuel second (run fuel first s)
        | .both first second =>
            let s := run fuel first s
            if s.status = 0 then run fuel second s else s
        | .either first second =>
            let s := run fuel first s
            if s.status = 0 then s else run fuel second s
        | .negate body =>
            let s := run fuel body s
            { s with status := if s.status = 0 then 1 else 0 }
        | .loop condition body =>
            let s := run fuel condition s
            if s.halt.isSome then s
            else if s.status = 0 then run fuel (.loop condition body) (run fuel body s)
            else { s with status := 0 }
        | .choose condition yes no =>
            let s := run fuel condition s
            if s.status = 0 then run fuel yes s else run fuel no { s with status := 0 }
        | .each name words body =>
            (words.flatMap s.expand).foldl (fun s value => run fuel body (s.assign name value)) s
        | .isolated body =>
            let inner := run fuel body (s.fork s.input)
            { s with
              status := inner.status
              written := inner.written ++ s.written
              elapsed := s.elapsed + inner.elapsed
              halt := innerHalt inner.halt }
        | .pipe first second =>
            let a := run fuel first (s.fork s.input)
            let b := run fuel second (s.fork (a.stream 1))
            { s with
              status := b.status
              written := b.written ++ a.written.filter (·.1 != 1) ++ s.written
              elapsed := s.elapsed + max a.elapsed b.elapsed
              halt := innerHalt a.halt <|> innerHalt b.halt }
        | .redirected body rs =>
            match redirectInput s rs with
            | .error (name, fault) =>
                s.complain 2 ("cannot open " ++ name ++ ": " ++ fault)
            | .ok input =>
                let inner := run fuel body { s with written := [], input }
                { inner with
                  written := sendOn rs inner.written ++ s.written
                  input := if rs.any Redirect.isInput then s.input else inner.input }

def stepLimit : Nat := 200000

/-- The conduct of a session that has come to its end. -/
def Session.conduct (s : Session) : Conduct where
  ending := if s.halt = some .killed then .killed else .exited s.status
  stdout := s.stream 1
  stderr := s.stream 2
  duration := if s.halt = some .never then none else some s.elapsed

/-- The conduct of a shell that runs a text. -/
def runText (disk : Disk) (text : String) (parameters : List String) : Conduct :=
  match Script.parse text with
  | none =>
      { ending := .exited 2
        stderr := Text.encodeUtf8 "sh: 1: Syntax error: Unterminated quoted string\n" }
  | some script => (run stepLimit script { disk, parameters }).conduct

/-- The conduct of a shell with the given arguments; it has nothing to read. -/
def shell (disk : Disk) (args : List String) : Conduct :=
  match args with
  | [] => { }
  | ["-c", text] => runText disk text ["sh"]
  | "-c" :: text :: parameters => runText disk text parameters
  | file :: parameters =>
      match disk.readBytes file with
      | .ok bytes => runText disk (Text.decodeUtf8Lenient bytes) (file :: parameters)
      | .error _ =>
          { ending := .exited 2
            stderr := Text.encodeUtf8 ("sh: 0: cannot open " ++ file ++ ": No such file\n") }

/-- The conduct of a utility that is run as a program. -/
def program (disk : Disk) (name : String) (args : List String) : Conduct :=
  match utility disk name args [] with
  | none => { ending := .exited 127 }
  | some deed =>
      { ending := .exited deed.status
        stdout := deed.stdout
        stderr := deed.stderr
        duration := some deed.time }

def utilityNames : List String := ["sleep", "echo", "printf", "true", "false", "cat", "test", "seq"]

/-- The disk with the shell and the utilities in the directories of the system, and with the given
files in the working directory. -/
def disk (files : List (List String × DiskNode)) : Disk :=
  let installed := ("sh" :: utilityNames).flatMap fun name =>
    [(["bin", name], DiskNode.program name), (["usr", "bin", name], .program name)]
  { Disk.system with nodes := installed ++ Disk.system.nodes }.putAll files

/-- A machine with a shell and the utilities, and with the given files in its working directory. -/
def machine (files : List (List String × DiskNode)) : Machine Unit where
  disk := disk files
  programs :=
    ("sh", fun args _ => (shell (disk files) args, ())) ::
      utilityNames.map fun name => (name, fun args _ => (program (disk files) name args, ()))

end ResourceAgent.Shell
