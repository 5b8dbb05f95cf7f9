import ResourceAgent.CommandLine.Level
import ResourceAgent.Params.Basic
import ResourceAgent.Params.Reference
import ResourceAgent.Text.Numeral

/-!
# The command line of the agent

Four commands: `parse` reads a configuration dump, `info` queries a resource, `ensure` brings a
resource described by options into its state, and `apply` does so for a parameter file. Some
options are global: they may stand before the command and after it, and what stands after it
counts. Where the `pcs` binary is not named, the variable `PCS_BINARY` names it.
-/
namespace ResourceAgent.CommandLine

inductive LogFormat where
  | text
  | json
deriving Repr, DecidableEq

def LogFormat.word : LogFormat → String
  | .text => "text"
  | .json => "json"

inductive Command where
  /-- Read a dump from a file, or from standard input. -/
  | parse (file : Option String)
  /-- Query a resource within so many seconds. -/
  | info (name : String) (timeout : UInt64)
  /-- Bring a resource into its state, or only say how. -/
  | ensure (params : Params) (check : Bool)
  /-- Do so for a parameter file. -/
  | apply (file : String) (check : Bool)
deriving Repr, DecidableEq

/-- A command line that can be carried out. -/
structure Cli where
  verbose : Bool
  quiet : Bool
  logFormat : LogFormat
  /-- The `pcs` binary. -/
  pcs : String
  command : Command
deriving Repr, DecidableEq

def textValue {σ : Type} (update : String → σ → σ) : Reading σ := fun s => .ok (update s)

/-- The path of a file; it is not empty. -/
def pathValue {σ : Type} (update : String → σ → σ) : Reading σ := fun s =>
  if s = "" then .error .invalidValue else .ok (update s)

def secondsValue {σ : Type} (update : UInt64 → σ → σ) : Reading σ := fun s =>
  match Text.readWord s.toList with
  | some n => .ok (update n)
  | none => .error .malformedNumber

/-- A choice between words. -/
def choiceValue {σ α : Type} (choose : String → Option α) (update : α → σ → σ) : Reading σ :=
  fun s =>
    match choose s with
    | some a => .ok (update a)
    | none => .error .invalidValue

def truthWord : String → Option Bool
  | "true" => some true
  | "false" => some false
  | _ => none

def formatWord : String → Option LogFormat
  | "text" => some .text
  | "json" => some .json
  | _ => none

structure Globals where
  verbose : Bool := false
  quiet : Bool := false
  logFormat : Option LogFormat := none
  pcs : Option String := none
deriving Repr, DecidableEq

/-- The options that every level has. -/
def globalOptions : List (Opt Globals) := [
  { name := "verbose", short := some 'v', effect := .set fun g => { g with verbose := true } },
  { name := "quiet", short := some 'q', effect := .set fun g => { g with quiet := true } },
  { name := "log-format",
    effect := .take <| choiceValue formatWord fun f g => { g with logFormat := some f } },
  { name := "pcs", effect := .take <| textValue fun s g => { g with pcs := some s } },
  { name := "help", short := some 'h', effect := .stop .help }]

/-- The settings of a command: the global ones and its own. -/
structure Scoped (α : Type) where
  globals : Globals := { }
  own : α

def Scoped.update {α : Type} (f : α → α) (s : Scoped α) : Scoped α := { s with own := f s.own }

def Reading.owned {α : Type} (read : Reading α) : Reading (Scoped α) := fun s =>
  (read s).map Scoped.update

def Opt.owned {α : Type} (o : Opt α) : Opt (Scoped α) :=
  { o with
    effect :=
      match o.effect with
      | .set f => .set (Scoped.update f)
      | .take read => .take (Reading.owned read)
      | .stop reason => .stop reason }

def Opt.inherited {α : Type} (o : Opt Globals) : Opt (Scoped α) :=
  { o with
    effect :=
      match o.effect with
      | .set f => .set fun s => { s with globals := f s.globals }
      | .take read => .take fun v =>
          (read v).map fun f s => { s with globals := f s.globals }
      | .stop reason => .stop reason }

def commandLevel {α : Type} (options : List (Opt α)) (operand : Option (Reading α)) :
    Level (Scoped α) where
  options := options.map Opt.owned ++ globalOptions.map Opt.inherited
  operand := operand.map Reading.owned

def parseLevel : Level (Scoped (Option String)) :=
  commandLevel [] (some (pathValue fun s _ => some s))

structure InfoFlags where
  name : Option String := none
  timeout : UInt64 := defaultTimeout

def infoLevel : Level (Scoped InfoFlags) :=
  commandLevel [
    { name := "name", short := some 'n',
      effect := .take <| textValue fun s f => { f with name := some s } },
    { name := "timeout", effect := .take <| secondsValue fun n f => { f with timeout := n } }]
    none

structure ApplyFlags where
  file : Option String := none
  check : Bool := false

def applyLevel : Level (Scoped ApplyFlags) :=
  commandLevel [{ name := "check", effect := .set fun f => { f with check := true } }]
    (some (pathValue fun s f => { f with file := some s }))

structure EnsureFlags where
  name : Option String := none
  state : TargetState := .present
  node : Option String := none
  timeout : UInt64 := defaultTimeout
  force : Bool := true
  check : Bool := false
  /-- The agent's type; without it there is no definition. -/
  type : Option String := none
  /-- The definition but for its type. -/
  spec : ResourceSpec := { }

def EnsureFlags.define (change : ResourceSpec → ResourceSpec) (f : EnsureFlags) : EnsureFlags :=
  { f with spec := change f.spec }

/-- An option with a text for the definition. -/
def specOption (name : String) (change : String → ResourceSpec → ResourceSpec)
    (otherName : Option String := none) : Opt EnsureFlags :=
  { name, otherName, effect := .take <| textValue fun s => EnsureFlags.define (change s) }

def ensureLevel : Level (Scoped EnsureFlags) :=
  commandLevel [
    { name := "name", short := some 'n',
      effect := .take <| textValue fun s f => { f with name := some s } },
    { name := "state", short := some 's',
      effect := .take <| choiceValue TargetState.ofWord? fun s f => { f with state := s } },
    { name := "node", effect := .take <| textValue fun s f => { f with node := some s } },
    { name := "timeout", effect := .take <| secondsValue fun n f => { f with timeout := n } },
    { name := "force", effect := .take <| choiceValue truthWord fun b f => { f with force := b } },
    { name := "check", effect := .set fun f => { f with check := true } },
    specOption "standard" fun s spec => { spec with standard := s },
    specOption "provider" fun s spec => { spec with provider := s },
    { name := "type", effect := .take <| textValue fun s f => { f with type := some s } },
    specOption "operations" fun s spec => { spec with operations := some s },
    specOption "meta" fun s spec => { spec with metaOptions := some s },
    specOption "clone" fun s spec => { spec with cloneOptions := some s },
    specOption "promotable" fun s spec => { spec with promotableOptions := some s },
    specOption "group" fun s spec => { spec with group := some s },
    { name := "disabled",
      effect := .set (EnsureFlags.define fun spec => { spec with disabled := true }) },
    { name := "agent-validation",
      effect := .set (EnsureFlags.define fun spec => { spec with agentValidation := true }) },
    specOption "resource-options" (fun s spec => { spec with resourceOptions := some s })
      (some "options")]
    none

/-- The names of the commands; `help` tells about another one. -/
def commandNames : List String := ["parse", "info", "ensure", "apply", "help"]

def rootLevel : Level Globals where
  options := globalOptions ++
    [{ name := "version", short := some 'V', effect := .stop .version }]
  commands := commandNames

/-- What has to be given. -/
def require {α : Type} : Option α → Except Stop α
  | some a => .ok a
  | none => .error .missingArgument

/-- The parameters that the options of `ensure` describe, for a resource of the given name. -/
def EnsureFlags.params (f : EnsureFlags) (name : String) : Params where
  name := name
  state := f.state
  node := f.node
  timeout := f.timeout
  force := f.force
  resources :=
    match f.type with
    | none => []
    | some type => [{ f.spec with type }]

def readParse (words : List String) : Except Stop (Globals × Command) := do
  let s ← parseLevel.read { own := none } words
  return (s.globals, .parse s.own)

def readInfo (words : List String) : Except Stop (Globals × Command) := do
  let s ← infoLevel.read { own := { } } words
  return (s.globals, .info (← require s.own.name) s.own.timeout)

def readEnsure (words : List String) : Except Stop (Globals × Command) := do
  let s ← ensureLevel.read { own := { } } words
  return (s.globals, .ensure (s.own.params (← require s.own.name)) s.own.check)

def readApply (words : List String) : Except Stop (Globals × Command) := do
  let s ← applyLevel.read { own := { } } words
  return (s.globals, .apply (← require s.own.file) s.own.check)

/-- Help on the program, or on the command that the words name. -/
def helpOn : List String → Stop
  | [] => .help
  | [name] => if commandNames.contains name then .help else .unknownCommand
  | _ => .unknownCommand

/-- The words after the name of a command. -/
def readCommand (name : String) (words : List String) : Except Stop (Globals × Command) :=
  match name with
  | "parse" => readParse words
  | "info" => readInfo words
  | "ensure" => readEnsure words
  | "apply" => readApply words
  | _ => .error (helpOn words)

/-- The variable that names the `pcs` binary. -/
def binaryVariable : String := "PCS_BINARY"

/-- Settle what was given before the command and after it. -/
def combine (env : Params.Environment) (outer inner : Globals) (command : Command) : Cli where
  verbose := outer.verbose || inner.verbose
  quiet := outer.quiet || inner.quiet
  logFormat := (inner.logFormat <|> outer.logFormat).getD .text
  pcs := (inner.pcs <|> outer.pcs <|> env binaryVariable).getD "pcs"
  command

/-- The fault of a command line without a command. -/
def withoutCommand (env : Params.Environment) (s : State Globals) : Stop :=
  if s.given.isEmpty && (env binaryVariable).isNone then .nothingGiven else .missingCommand

def parse (env : Params.Environment) (words : List String) : Except Stop Cli := do
  match ← rootLevel.scan { settings := { } } words with
  | (s, none) => .error (withoutCommand env (← s.settle))
  | (s, some (name, rest)) =>
      let (inner, command) ← readCommand name rest
      return combine env (← s.finish) inner command

/-- The command line where the variable for the `pcs` binary is set to something that is no text. It
is looked at before the command and after it, wherever the binary is not named. -/
def parseGarbled (words : List String) : Except Stop Cli := do
  match ← rootLevel.scan { settings := { } } words with
  | (s, none) => .error (if (← s.finish).pcs.isSome then .missingCommand else .notText)
  | (s, some (name, rest)) =>
      let (inner, command) ← readCommand name rest
      let outer ← s.finish
      if inner.pcs.isSome && outer.pcs.isSome then return combine .empty outer inner command
      else .error .notText

end ResourceAgent.CommandLine
