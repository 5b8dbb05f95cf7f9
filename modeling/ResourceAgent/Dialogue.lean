import ResourceAgent.Failure
import ResourceAgent.Log.Entry
import ResourceAgent.Text.Numeral
import ResourceAgent.Text.Search

/-!
# Dialogues with a runner

The agent works by running commands. A dialogue is such a piece of work as a tree: it is done, or
it writes a log entry and goes on, or it asks for one command to be run and goes on according to
the answer. What the commands do is left to a runner, which may be a list of prepared answers, a
simulated cluster or a machine. So what holds of a dialogue for every answer holds of every run.
-/
namespace ResourceAgent

structure Duration where
  seconds : UInt64
  nanos : Fin 1000000000 := ⟨0, by decide⟩
deriving Repr, DecidableEq

namespace Duration

def ofSeconds (n : UInt64) : Duration := ⟨n, ⟨0, by decide⟩⟩

def ofMillis (n : UInt64) : Duration :=
  ⟨n / 1000, Fin.ofNat 1000000000 (n.toNat % 1000 * 1000000)⟩

/-- The whole milliseconds beyond the whole seconds. -/
def millis (d : Duration) : Nat := d.nanos.val / 1000000

def totalNanos (d : Duration) : Nat := d.seconds.toNat * 1000000000 + d.nanos.val

/-- A number of whole seconds more, if the seconds still fit their 64 bits. -/
def addSeconds? (d : Duration) (n : Nat) : Option Duration :=
  if d.seconds.toNat + n < Text.wordLimit then
    some { d with seconds := d.seconds + UInt64.ofNat n }
  else none

end Duration

/-- A command to run: a program, its arguments, and the time it may take. -/
structure Invocation where
  program : String
  args : List String
  limit : Duration
deriving Repr, DecidableEq

/-- A program and its arguments in one line, separated by single blanks. -/
def commandLine (program : String) (args : List String) : String :=
  Text.join " " (program :: args)

/-- What a finished command leaves behind. -/
structure Output where
  /-- `-1` when a signal ended the command. -/
  exitCode : Int := 0
  stdout : String := ""
  stderr : String := ""
deriving Repr, DecidableEq

instance : Inhabited Output := ⟨{ }⟩

namespace Output

def succeeded (o : Output) : Bool := o.exitCode == 0

/-- Both streams, the output first, a line break between them. -/
def combined (o : Output) : String := o.stdout ++ "\n" ++ o.stderr

end Output

/-- What a runner says about a command: its output, or why it could not be run to its end. -/
abbrev Answer := Except Failure Output

/-- Work that runs commands and writes log entries on the way to a value. -/
inductive Dialogue (α : Type) where
  | done (value : α)
  | note (entry : Log.Entry) (rest : Dialogue α)
  | ask (scope : Option Log.Scope) (call : Invocation) (rest : Answer → Dialogue α)

namespace Dialogue

/-- Go on with what the value decides. -/
def bind {α β : Type} (d : Dialogue α) (f : α → Dialogue β) : Dialogue β :=
  match d with
  | .done value => f value
  | .note entry rest => .note entry (rest.bind f)
  | .ask scope call rest => .ask scope call fun answer => (rest answer).bind f

instance : Monad Dialogue where
  pure := .done
  bind := bind

def call (invocation : Invocation) : Dialogue Answer := .ask none invocation .done

def write (level : Log.Level) (origin : Log.Origin) (message : String) : Dialogue Unit :=
  .note ⟨level, origin, message, none⟩ (.done ())

def within {α : Type} (scope : Log.Scope) : Dialogue α → Dialogue α
  | .done value => .done value
  | .note entry rest => .note { entry with scope := some scope } (rest.within scope)
  | .ask _ call rest => .ask (some scope) call fun answer => (rest answer).within scope

end Dialogue

/-- What a runner does with one command: it answers, and may write log entries of its own. -/
structure Reply (σ : Type) where
  answer : Answer
  notes : List Log.Entry := []
  state : σ

abbrev Runner (σ : Type) := Invocation → σ → Reply σ

/-- What happened while a dialogue was held. -/
structure Transcript (σ α : Type) where
  value : α
  calls : List Invocation
  log : List Log.Entry
  state : σ

def Dialogue.hold {σ α : Type} (runner : Runner σ) (state : σ) : Dialogue α → Transcript σ α
  | .done value => ⟨value, [], [], state⟩
  | .note entry rest =>
      let t := rest.hold runner state
      { t with log := entry :: t.log }
  | .ask scope call rest =>
      let reply := runner call state
      let t := (rest reply.answer).hold runner reply.state
      { t with
        calls := call :: t.calls
        log := reply.notes.map (fun entry => { entry with scope }) ++ t.log }

/-- The runner that gives prepared answers; after the last one every command succeeds in silence. -/
def scripted : Runner (List Answer) := fun _ answers =>
  match answers with
  | [] => { answer := .ok default, state := [] }
  | answer :: rest => { answer, state := rest }

/-- Why work was given up. -/
inductive Abort where
  | failed (failure : Failure)
  /-- A time limit cannot be extended any more. -/
  | limitOverflow
  /-- A variable of the environment is no text. -/
  | garbledVariable
deriving Repr, DecidableEq

/-- Work that may be given up. -/
abbrev Work (α : Type) := ExceptT Abort Dialogue α

namespace Work

def fail {α : Type} (failure : Failure) : Work α := throw (.failed failure)

def write (level : Log.Level) (origin : Log.Origin) (message : String) : Work Unit :=
  ExceptT.lift (Dialogue.write level origin message)

/-- Go on with a value, or give up for want of it. -/
def ofExcept {α : Type} : Except Failure α → Work α
  | .ok value => pure value
  | .error failure => fail failure

/-- Run one command; give up if it cannot be run to its end. -/
def call (invocation : Invocation) : Work Output := do
  ofExcept (← ExceptT.lift (Dialogue.call invocation))

def within {α : Type} (scope : Log.Scope) (work : Work α) : Work α :=
  ExceptT.mk (Dialogue.within scope work.run)

end Work

end ResourceAgent
