/-!
# Words of a command line

A program and each of its commands are levels with options of their own. The words of a level are
taken from left to right. A word that starts with two hyphens is a long option, one that starts
with a single hyphen and goes on is a row of short options; `--` makes all later words operands.
Every other word is the value of the option that waits for one, or the name of a command, or the
operand.

An option that takes a value gets it attached, after an equals sign, or, for a short option, right
away; or else it waits for the next word. Its value is looked at only when the next option or
operand is met or the words end, so a fault there is reported before a fault in an earlier value.
An option is given once at most.
-/
namespace ResourceAgent.CommandLine

/-- Why a command line is not carried out. -/
inductive Stop where
  | help
  | version
  /-- There is nothing on the command line. -/
  | nothingGiven
  /-- There are options but no command. -/
  | missingCommand
  | unknownCommand
  | unknownArgument
  | repeatedArgument
  | missingArgument
  /-- There is no value, or not one of those that can be chosen from. -/
  | invalidValue
  | malformedNumber
  /-- There is a value where none is taken. -/
  | surplusValue
  /-- There is a value that is no text. -/
  | notText
deriving Repr, DecidableEq

/-- The exit code of a program that stops here. -/
def Stop.exitCode : Stop → Nat
  | .help | .version => 0
  | _ => 2

/-- How the value of an option or an operand changes the settings. -/
abbrev Reading (σ : Type) := String → Except Stop (σ → σ)

/-- What an option does. -/
inductive Effect (σ : Type) where
  | set (update : σ → σ)
  /-- Change the settings as the value says. -/
  | take (read : Reading σ)
  | stop (reason : Stop)

structure Opt (σ : Type) where
  name : String
  otherName : Option String := none
  short : Option Char := none
  effect : Effect σ

/-- What the words of one level may be. -/
structure Level (σ : Type) where
  options : List (Opt σ)
  operand : Option (Reading σ) := none
  commands : List String := []

/-- An option or an operand that has been met and not been looked at yet. -/
structure Pending (σ : Type) where
  name : String
  read : Reading σ
  /-- None while the option waits for the next word. -/
  value : Option String

/-- How far the words of a level have been taken. -/
structure State (σ : Type) where
  settings : σ
  /-- The names of the options that have been given. -/
  given : List String := []
  pending : Option (Pending σ) := none
  /-- After `--`. -/
  operandsOnly : Bool := false
  operandTaken : Bool := false

namespace State

variable {σ : Type}

def awaitsValue (s : State σ) : Bool := s.pending.any (·.value.isNone)

/-- Change the settings for an option that has not been given before. -/
def record (s : State σ) (name : String) (update : Except Stop (σ → σ)) : Except Stop (State σ) :=
  if s.given.contains name then .error .repeatedArgument
  else
    update.map fun f => { s with settings := f s.settings, given := name :: s.given }

/-- Look at what is pending. -/
def settle (s : State σ) : Except Stop (State σ) :=
  match s.pending with
  | none => .ok s
  | some p =>
      match p.value with
      | none => .error .invalidValue
      | some value => { s with pending := none }.record p.name (p.read value)

/-- Leave an option or an operand, with its value or waiting for it, to be looked at later. -/
def defer (s : State σ) (p : Pending σ) : Except Stop (State σ) :=
  s.settle.map fun s => { s with pending := some p }

/-- An option with its value attached. -/
def attach (s : State σ) (name : String) (read : Reading σ) (value : List Char) :
    Except Stop (State σ) := do
  (← s.settle).record name (read (String.ofList value))

def flag (s : State σ) (name : String) (update : σ → σ) : Except Stop (State σ) := do
  (← s.settle).record name (.ok update)

def stop (s : State σ) (reason : Stop) : Except Stop (State σ) := do
  discard s.settle
  .error reason

/-- The settings when the words have ended. -/
def finish (s : State σ) : Except Stop σ := s.settle.map State.settings

end State

namespace Level

variable {σ : Type}

def long? (level : Level σ) (name : String) : Option (Opt σ) :=
  level.options.find? fun o => o.name == name || o.otherName == some name

def short? (level : Level σ) (c : Char) : Option (Opt σ) :=
  level.options.find? fun o => o.short == some c

/-- A long option, without its hyphens. -/
def takeLong (level : Level σ) (s : State σ) (body : List Char) : Except Stop (State σ) :=
  let attached :=
    match body.dropWhile (· ≠ '=') with
    | [] => none
    | _ :: value => some value
  match level.long? (String.ofList (body.takeWhile (· ≠ '='))), attached with
  | none, _ => .error .unknownArgument
  | some ⟨name, _, _, .take read⟩, some value => s.attach name read value
  | some ⟨name, _, _, .take read⟩, none => s.defer ⟨name, read, none⟩
  | some _, some _ => .error .surplusValue
  | some ⟨name, _, _, .set update⟩, none => s.flag name update
  | some ⟨_, _, _, .stop reason⟩, none => s.stop reason

/-- The value in the rest of a row of short options. -/
def attachedToShort : List Char → Option (List Char)
  | [] => none
  | '=' :: value => some value
  | value => some value

/-- A row of short options. -/
def takeShort (level : Level σ) (s : State σ) : List Char → Except Stop (State σ)
  | [] => .ok s
  | c :: rest =>
      match level.short? c with
      | none => .error .unknownArgument
      | some ⟨name, _, _, .set update⟩ =>
          match s.flag name update with
          | .error e => .error e
          | .ok s => level.takeShort s rest
      | some ⟨_, _, _, .stop reason⟩ => s.stop reason
      | some ⟨name, _, _, .take read⟩ =>
          match attachedToShort rest with
          | some value => s.attach name read value
          | none => s.defer ⟨name, read, none⟩

/-- The fault of a word that nothing takes. -/
def strayWord (level : Level σ) (s : State σ) (word : String) : Stop :=
  if level.commands.isEmpty || s.operandsOnly && level.commands.contains word then
    .unknownArgument
  else .unknownCommand

def takeOperand (level : Level σ) (s : State σ) (word : String) : Except Stop (State σ) :=
  match level.operand with
  | none => .error (level.strayWord s word)
  | some read =>
      if s.operandTaken then .error (level.strayWord s word)
      else (s.defer ⟨"", read, some word⟩).map fun s => { s with operandTaken := true }

/-- The value that the pending option waits for, or an operand. -/
def takePlain (level : Level σ) (s : State σ) (word : String) : Except Stop (State σ) :=
  match s.pending with
  | some ⟨name, read, none⟩ => .ok { s with pending := some ⟨name, read, some word⟩ }
  | _ => level.takeOperand s word

/-- A word that is not the name of a command. -/
def take (level : Level σ) (s : State σ) (word : String) : Except Stop (State σ) :=
  if s.operandsOnly then level.takeOperand s word
  else
    match word.toList with
    | ['-', '-'] => .ok { s with operandsOnly := true }
    | '-' :: '-' :: body => level.takeLong s body
    | '-' :: c :: rest => level.takeShort s (c :: rest)
    | _ => level.takePlain s word

/-- The word is taken for the name of a command. -/
def isCommand (level : Level σ) (s : State σ) (word : String) : Bool :=
  !s.operandsOnly && !s.awaitsValue && level.commands.contains word

/-- Take the words up to the name of a command; then that name and the words after it are left. -/
def scan (level : Level σ) (s : State σ) :
    List String → Except Stop (State σ × Option (String × List String))
  | [] => .ok (s, none)
  | word :: rest =>
      if level.isCommand s word then .ok (s, some (word, rest))
      else
        match level.take s word with
        | .error e => .error e
        | .ok s => level.scan s rest

/-- Take all words of a level without commands. -/
def read (level : Level σ) (settings : σ) (words : List String) : Except Stop σ := do
  (← level.scan { settings } words).1.finish

end Level

end ResourceAgent.CommandLine
