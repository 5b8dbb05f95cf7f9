import ResourceAgent.Machine.Disk
import ResourceAgent.Params.Load
import ResourceAgent.Reconcile
import ResourceAgent.Variable

/-!
# The commands

What each command does, given what it finds around it: the files, the standard input and the
environment. Everything else it learns from the commands that it runs.
-/
namespace ResourceAgent

/-- What a command finds around it. -/
structure Surroundings where
  readText : String → Except FileFault String
  /-- The text of the standard input. -/
  input : Except Text.Utf8Fault String := .ok ""
  /-- The variables of the environment. -/
  vars : List Variable := []

namespace Surroundings

/-- The variables as they are looked up one by one: one that is no text has no value. -/
def setting (around : Surroundings) : Params.Environment := fun name =>
  match Variable.lookup around.vars name with
  | some (.ok value) => some value
  | _ => none

/-- The variables that are text, taken all together. -/
def environment (around : Surroundings) : Params.Environment :=
  .ofList (around.vars.filterMap Variable.text?)

/-- All variables are text. -/
def isText (around : Surroundings) : Bool := around.vars.all (·.text?.isSome)

end Surroundings

namespace Commands

def manager (pcs : String) (timeout : UInt64) (check : Bool) : Manager where
  client := { binary := pcs, limit := .ofSeconds timeout }
  checkMode := check

/-- The text of a configuration dump, from a file or from the standard input. -/
def dumpText (around : Surroundings) : Option String → Work String
  | some path => do
      Work.write .info .commands ("Parsing " ++ path)
      Work.ofExcept ((around.readText path).mapError fun fault => .io fault.message)
  | none => Work.ofExcept (around.input.mapError fun fault => .io fault.message)

def parse (around : Surroundings) (file : Option String) : Work Outline.Tree := do
  Work.ofExcept ((Outline.parse (← dumpText around file)).mapError .outline)

def info (pcs name : String) (timeout : UInt64) : Work Report := do
  Work.write .info .commands ("Querying resource " ++ name)
  (manager pcs timeout false).info name

/-- What `ensure` says first. -/
def ensureMessage (params : Params) (check : Bool) : String :=
  "Ensuring resource " ++ params.name ++ " is " ++ params.state.word ++
    (if check then " (check mode)" else "")

def ensure (pcs : String) (params : Params) (check : Bool) : Work Report := do
  Work.write .info .commands (ensureMessage params check)
  (manager pcs params.timeout check).ensure params

def loadFile (around : Surroundings) (path : String) : Work Params := do
  match around.readText path with
  | .error fault => Work.fail (Params.unreadableFile path fault.message)
  | .ok text =>
      Work.write .debug .loader ("Loaded parameter file " ++ path)
      Work.ofExcept (Params.load around.environment text)

/-- Before a parameter file is loaded all variables are taken over, also those that it does not
refer to. One that is no text is not coped with. -/
def requireText (around : Surroundings) : Work Unit :=
  if around.isText then pure () else throw .garbledVariable

/-- Bring the resource that a parameter file describes into its state. -/
def apply (around : Surroundings) (pcs path : String) (check : Bool) : Work Report := do
  requireText around
  ensure pcs (← loadFile around path) check

end Commands

end ResourceAgent
