import ResourceAgent.Failure
import ResourceAgent.Outline.Json
import ResourceAgent.Pcs.Client

/-!
# Reports

A report is the document an operation ends with: whether something changed, whether it failed,
and a message; then, where they apply, the configuration of the resource as a tree and as it was
dumped, why the dump is no outline, and what a failed command left behind.
-/
namespace ResourceAgent

/-- The outcome of an operation. -/
structure Report where
  changed : Bool := false
  failed : Bool := false
  message : String := ""
  /-- The dump, read as an outline. -/
  resource : Option Outline.Tree := none
  /-- The dump as it was printed. -/
  raw : Option String := none
  /-- Why the dump is no outline. -/
  parseError : Option String := none
  /-- The exit code of the failed command. -/
  exitCode : Option Int := none
  output : Option String := none
  errorOutput : Option String := none
deriving Repr, DecidableEq

namespace Report

def ofUnchanged (message : String) : Report := { message }

def ofChanged (message : String) : Report := { changed := true, message }

/-- Attach what a query found. A dump that is no outline is attached with the reason. -/
def withLookup (report : Report) (lookup : Pcs.Lookup) : Report :=
  match lookup with
  | .missing _ => report
  | .found raw =>
      match Outline.parse raw with
      | .ok tree => { report with raw := some raw, resource := some tree }
      | .error e => { report with raw := some raw, parseError := some e.message }

/-- The report of an operation that failed. -/
def ofFailure (failure : Failure) : Report :=
  let report : Report := { failed := true, message := failure.message }
  match failure with
  | .process _ exitCode stdout stderr =>
      { report with exitCode, output := some stdout, errorOutput := some stderr }
  | .outline error => { report with parseError := some error.message }
  | _ => report

/-- A member that is written only if there is a value for it. -/
def optionalMember {α : Type} (name : String) (toJson : α → Json.Value) :
    Option α → List (String × Json.Value)
  | none => []
  | some a => [(name, toJson a)]

def toJson (report : Report) : Json.Value :=
  .object <|
    [("changed", .bool report.changed), ("failed", .bool report.failed),
      ("msg", .string report.message)] ++
    optionalMember "resource" Outline.Tree.toJson report.resource ++
    optionalMember "raw" .string report.raw ++
    optionalMember "parse_error" .string report.parseError ++
    optionalMember "rc" .int report.exitCode ++
    optionalMember "output" .string report.output ++
    optionalMember "error" .string report.errorOutput

end Report

end ResourceAgent
