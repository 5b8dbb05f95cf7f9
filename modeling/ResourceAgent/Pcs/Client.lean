import ResourceAgent.Dialogue
import ResourceAgent.Outline.Reader
import ResourceAgent.Pcs.Command

/-!
# The client of `pcs`

A query is answered by what the output says: that the cluster is down, that there is no such
resource, or else the dump of the resource. What `pcs` says on either stream goes before its exit
code, because it reports a missing resource with code zero and with others, depending on its
release. A command that changes something is judged by its exit code first.
-/
namespace ResourceAgent.Pcs

/-- Said when the cluster does not run on this node. -/
def clusterDownMarker : String := "Error: cluster is not currently running on this node"

/-- Said about an unknown resource. -/
def noResourceMarker : String := "Error: No resource found"

/-- Said about an unknown resource by older releases. -/
def unableToFindMarker : String := "Warning: Unable to find resource"

/-- The seconds a move may take beyond its own wait, so that it can report that wait's end. -/
def moveGrace : Nat := 30

/-- What a query found out. -/
inductive Lookup where
  /-- The resource exists; this is its configuration dump. -/
  | found (raw : String)
  | missing (message : String)
deriving Repr, DecidableEq

namespace Lookup

def exists? : Lookup → Bool
  | .found _ => true
  | .missing _ => false

/-- The dump of an existing resource, read as an outline. -/
def tree : Lookup → Option (Except Outline.Error Outline.Tree)
  | .found raw => some (Outline.parse raw)
  | .missing _ => none

end Lookup

/-- Where `pcs` is and how long it may take. -/
structure Client where
  binary : String := "pcs"
  limit : Duration := .ofSeconds defaultTimeout
deriving Repr, DecidableEq

namespace Client

def withLimit (client : Client) (limit : Duration) : Client := { client with limit }

def line (client : Client) (command : Command) : String := commandLine client.binary command.args

def invoke (client : Client) (command : Command) (limit : Duration) : Work Output := do
  Work.write .debug .client ("Running " ++ client.line command)
  Work.call ⟨client.binary, command.args, limit⟩

/-- What the output of a query says, first the failures and last the dump. -/
def classify (client : Client) (command : Command) (output : Output) : Except Failure Lookup :=
  let said := output.combined
  if Text.contains said clusterDownMarker then .error (.clusterDown (client.line command))
  else if Text.contains said noResourceMarker || Text.contains said unableToFindMarker then
    .ok (.missing (Text.trimmed said))
  else if !output.succeeded then
    .error (.process (client.line command) (some output.exitCode) output.stdout output.stderr)
  else if Text.isBlankText output.stdout then .ok (.missing "")
  else .ok (.found output.stdout)

/-- The entry that goes with the answer to a query. -/
def lookupNote (name : String) : Except Failure Lookup → Work Unit
  | .ok (.missing "") =>
      Work.write .debug .client ("Resource " ++ name ++ " has no configuration output")
  | .ok (.missing _) => Work.write .debug .client ("Resource " ++ name ++ " does not exist")
  | _ => pure ()

def getResource (client : Client) (name : String) : Work Lookup := do
  let command := Command.config name
  let answer := client.classify command (← client.invoke command client.limit)
  lookupNote name answer
  Work.ofExcept answer

/-- Run a command that has to succeed. -/
def invokeChecked (client : Client) (command : Command) (limit : Duration) : Work Output := do
  let output ← client.invoke command limit
  if output.succeeded then return output
  let line := client.line command
  if Text.contains output.combined clusterDownMarker then Work.fail (.clusterDown line)
  Work.write .warn .client
    ("Command '" ++ line ++ "' failed with exit code " ++ toString output.exitCode)
  Work.fail (.process line (some output.exitCode) output.stdout output.stderr)

def create (client : Client) (name : String) (spec : ResourceSpec) : Work Output := do
  Work.write .info .client ("Creating resource " ++ name ++ " (" ++ spec.agent ++ ")")
  client.invokeChecked (.create name spec) client.limit

def update (client : Client) (name : String) (spec : ResourceSpec) : Work Output := do
  Work.write .info .client ("Updating resource " ++ name)
  client.invokeChecked (.update name spec) client.limit

def delete (client : Client) (name : String) (force : Bool) : Work Output := do
  Work.write .info .client ("Deleting resource " ++ name)
  client.invokeChecked (.delete name force) client.limit

/-- How long a move waits: the whole seconds of the limit, if there are any. -/
def moveWait (limit : Duration) : Option UInt64 :=
  if limit.seconds = 0 then none else some limit.seconds

/-- Move a resource to a node and wait for it. -/
def relocate (client : Client) (name node : String) : Work Output := do
  Work.write .info .client ("Moving resource " ++ name ++ " to " ++ node)
  match client.limit.addSeconds? moveGrace with
  | none => throw .limitOverflow
  | some limit => client.invokeChecked (.move name node (moveWait client.limit)) limit

end Client

end ResourceAgent.Pcs
