import ResourceAgent.Outline.Error

/-!
# Failures

Everything that can end an operation early, and how it is told to the caller.
-/
namespace ResourceAgent

/-- Why an operation failed. -/
inductive Failure where
  | io (cause : String)
  /-- The configuration dump of a resource is no outline. -/
  | outline (error : Outline.Error)
  /-- The parameter file cannot be used. -/
  | config (reason : String)
  | validation (reason : String)
  /-- A command failed, or could not be started: then there is no exit code. -/
  | process (command : String) (exitCode : Option Int) (stdout stderr : String)
  | timeout (reason : String)
  | clusterDown (command : String)
  | resourceMissing (reason : String)
  | badJson (reason : String)
  | badYaml (reason : String)
deriving Repr, DecidableEq

namespace Failure

/-- An exit code that may be missing. -/
def exitCodeText : Option Int → String
  | none => "None"
  | some code => "Some(" ++ toString code ++ ")"

def message : Failure → String
  | .io cause => "IO error: " ++ cause
  | .outline error => "Malformed pcs output: " ++ error.message
  | .config reason => "Configuration error: " ++ reason
  | .validation reason => "Validation error: " ++ reason
  | .process command exitCode _ stderr =>
      "Command `" ++ command ++ "` failed with exit code " ++ exitCodeText exitCode ++ ": " ++ stderr
  | .timeout reason => "Timeout: " ++ reason
  | .clusterDown command => "Cluster is not running on this node: " ++ command
  | .resourceMissing reason => "Resource not found: " ++ reason
  | .badJson reason => "Serialization error: " ++ reason
  | .badYaml reason => "YAML error: " ++ reason

/-- The output and the error output of a failed command. -/
def capturedOutput : Failure → Option (String × String)
  | .process _ _ stdout stderr => some (stdout, stderr)
  | _ => none

end Failure

end ResourceAgent
