import ResourceAgent.CommandLine.Parse
import ResourceAgent.Commands
import ResourceAgent.Json.Writer
import ResourceAgent.Log.Filter
import ResourceAgent.Machine.Local

/-!
# The program

The standard output carries one JSON document: the tree of a dump, or the report of an operation,
also of one that failed. The exit code tells whether it failed. Log entries go elsewhere, and how
many of them are shown has no influence on the rest.
-/
namespace ResourceAgent

/-- The document that a command ends with. -/
inductive Document where
  | tree (tree : Outline.Tree)
  | report (report : Report)
deriving Repr

def Document.toJson : Document → Json.Value
  | .tree t => t.toJson
  | .report r => r.toJson

/-- What a program leaves behind. -/
structure Exit where
  code : Nat
  stdout : String
deriving Repr, DecidableEq

namespace Program

/-- The name and the version of the program. -/
def versionText : String := "pcs-resource-agent 0.1.0\n"

/-- What the program can be told. -/
def helpText : String :=
  Text.join "\n" [
    "Manage Pacemaker cluster resources through pcs",
    "",
    "Usage: pcs-resource-agent [OPTIONS] <COMMAND>",
    "",
    "Commands:",
    "  parse   Parse a configuration dump and print it as JSON",
    "  info    Show the parsed configuration of a resource",
    "  ensure  Bring one resource into the requested state",
    "  apply   Bring a resource into the state described by a YAML parameter file",
    "  help    Print this message",
    ""]

def print (document : Json.Value) : String := document.pretty ++ "\n"

def work (around : Surroundings) (pcs : String) : CommandLine.Command → Work Document
  | .parse file => .tree <$> Commands.parse around file
  | .info name timeout => .report <$> Commands.info pcs name timeout
  | .ensure params check => .report <$> Commands.ensure pcs params check
  | .apply file check => .report <$> Commands.apply around pcs file check

/-- The exit code of a program that had to be given up. -/
def brokenExit : Nat := 101

/-- How the program ends. -/
def conclude : Except Abort Document → Dialogue Exit
  | .ok document => .done ⟨0, print document.toJson⟩
  | .error (.failed failure) => do
      Dialogue.write .error .program failure.message
      return ⟨1, print (Report.ofFailure failure).toJson⟩
  | .error .limitOverflow | .error .garbledVariable => .done ⟨brokenExit, ""⟩

def perform (around : Surroundings) (cli : CommandLine.Cli) : Dialogue Exit := do
  conclude (← (work around cli.pcs cli.command).run)

/-- The end of a program whose command line is not carried out. -/
def stopped (reason : CommandLine.Stop) : Exit where
  code := reason.exitCode
  stdout :=
    match reason with
    | .help => helpText
    | .version => versionText
    | _ => ""

/-- The variable that holds a filter for log entries. -/
def filterVariable : String := "RUST_LOG"

/-- The filter that the options ask for. -/
def defaultFilter (verbose quiet : Bool) : Log.Filter :=
  .ofLevel (if quiet then .error else if verbose then .debug else .info)

/-- The filter for log entries: that of the environment, unless there is none or it cannot be
read. -/
def filter (env : Params.Environment) (cli : CommandLine.Cli) : Log.Filter :=
  (env filterVariable >>= Log.Filter.parse).getD (defaultFilter cli.verbose cli.quiet)

/-- The words of the command line, with the variable for the `pcs` binary. -/
def parse (around : Surroundings) (words : List String) :
    Except CommandLine.Stop CommandLine.Cli :=
  match Variable.lookup around.vars CommandLine.binaryVariable with
  | some (.error _) => CommandLine.parseGarbled words
  | _ => CommandLine.parse around.setting words

/-- What is left behind by a run of the program. -/
structure Run (σ : Type) where
  exit : Exit
  /-- The log entries that are shown. -/
  log : List Log.Entry
  logFormat : CommandLine.LogFormat
  state : σ

def run {σ : Type} (around : Surroundings) (runner : Runner σ) (state : σ) (words : List String) :
    Run σ :=
  match parse around words with
  | .error reason => { exit := stopped reason, log := [], logFormat := .text, state }
  | .ok cli =>
      let t := (perform around cli).hold runner state
      { exit := t.value
        log := (filter around.setting cli).apply t.log
        logFormat := cli.logFormat
        state := t.state }

end Program

end ResourceAgent
