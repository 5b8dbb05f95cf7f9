import ResourceAgent.Params.Validation
import ResourceAgent.Report

/-!
# Bringing a resource into its state

An operation queries the resource first. If it is not yet in the requested state, one command
changes it, and unless it is gone then, a second query tells what came of it. In check mode the
command is left out, and the report says what would have changed.
-/
namespace ResourceAgent

/-- A client that reconciles resources, or in check mode only says what it would do. -/
structure Manager where
  client : Pcs.Client := { }
  checkMode : Bool := false
deriving Repr, DecidableEq

namespace Manager

/-- A defect of the parameters as a failure. -/
def failOnDefect {α : Type} : Except Defect α → Work α
  | .ok a => pure a
  | .error defect => Work.fail (.validation defect.message)

/-- Attach what a query found, with a warning about a dump that is no outline. -/
def attach (report : Report) (lookup : Pcs.Lookup) : Work Report := do
  match lookup.tree with
  | some (.error e) =>
      Work.write .warn .report ("Could not parse resource configuration: " ++ e.message)
  | _ => pure ()
  return report.withLookup lookup

/-- The report on one resource. Here a dump that is no outline is a failure. -/
def describe (manager : Manager) (name : String) : Work Report := do
  match ← manager.client.getResource name with
  | .missing _ => return .ofUnchanged ("Resource " ++ name ++ " not found")
  | .found raw =>
      match Outline.parse raw with
      | .error e => Work.fail (.outline e)
      | .ok tree =>
          return { Report.ofUnchanged ("Resource " ++ name ++ " found") with
            resource := some tree, raw := some raw }

def info (manager : Manager) (name : String) : Work Report :=
  Work.within ⟨"info", name⟩ (manager.describe name)

def leaveAlone (message : String) : Work Report := do
  Work.write .info .manager message
  return .ofUnchanged message

/-- The state `present`, given what the first query found. -/
def reconcilePresent (manager : Manager) (client : Pcs.Client) (p : Params)
    (current : Pcs.Lookup) : Work Report := do
  if current.exists? then
    attach (← leaveAlone ("Resource " ++ p.name ++ " already exists")) current
  else if manager.checkMode then
    return .ofChanged ("Resource " ++ p.name ++ " would be created")
  else
    discard <| client.create p.name (← failOnDefect p.resource)
    attach (.ofChanged ("Resource " ++ p.name ++ " created")) (← client.getResource p.name)

def reconcileUpdated (manager : Manager) (client : Pcs.Client) (p : Params)
    (current : Pcs.Lookup) : Work Report := do
  if !current.exists? then Work.fail (.resourceMissing (p.name ++ " does not exist to update"))
  else if manager.checkMode then
    attach (.ofChanged ("Resource " ++ p.name ++ " would be updated")) current
  else
    discard <| client.update p.name (← failOnDefect p.resource)
    attach (.ofChanged ("Resource " ++ p.name ++ " updated")) (← client.getResource p.name)

def reconcileAbsent (manager : Manager) (client : Pcs.Client) (p : Params)
    (current : Pcs.Lookup) : Work Report := do
  if !current.exists? then leaveAlone ("Resource " ++ p.name ++ " is already absent")
  else if manager.checkMode then
    return .ofChanged ("Resource " ++ p.name ++ " would be deleted")
  else
    discard <| client.delete p.name p.force
    return .ofChanged ("Resource " ++ p.name ++ " deleted")

def reconcileRelocated (manager : Manager) (client : Pcs.Client) (p : Params)
    (current : Pcs.Lookup) : Work Report := do
  let node := p.node.getD ""
  if !current.exists? then Work.fail (.resourceMissing (p.name ++ " does not exist to relocate"))
  else if manager.checkMode then
    attach (.ofChanged ("Resource " ++ p.name ++ " would be moved to " ++ node)) current
  else
    discard <| client.relocate p.name node
    attach (.ofChanged ("Resource " ++ p.name ++ " moved to " ++ node))
      (← client.getResource p.name)

/-- Query the resource and do what the requested state asks for. -/
def reconcile (manager : Manager) (client : Pcs.Client) (p : Params) : Work Report := do
  let current ← client.getResource p.name
  match p.state with
  | .present => manager.reconcilePresent client p current
  | .updated => manager.reconcileUpdated client p current
  | .absent => manager.reconcileAbsent client p current
  | .relocated => manager.reconcileRelocated client p current

/-- Bring the named resource into the requested state, with the time limit of the parameters. -/
def ensure (manager : Manager) (p : Params) : Work Report := do
  failOnDefect p.validate
  Work.within ⟨p.state.word, p.name⟩
    (manager.reconcile (manager.client.withLimit (.ofSeconds p.timeout)) p)

end Manager

end ResourceAgent
