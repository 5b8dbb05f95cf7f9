import ResourceAgent.Failure
import ResourceAgent.Params.Reference
import ResourceAgent.Params.Validation
import ResourceAgent.Params.Yaml

/-!
# Parameter files

A parameter file is YAML with references to the environment. The references are replaced in the
text, so a value may bring YAML of its own; then the document is decoded and the parameters are
checked.
-/
namespace ResourceAgent.Params

/-- The failure of references to variables that are not defined. -/
def undefinedVariables (names : List String) : Failure :=
  .config ("Missing environment variables: " ++ Text.join ", " names)

/-- The failure of a file that cannot be read. -/
def unreadableFile (path cause : String) : Failure :=
  .config ("Failed to read parameter file " ++ path ++ ": " ++ cause)

/-- The parameters of a YAML text without references, not yet checked. -/
def ofYamlText (text : String) : Except Failure Params :=
  match Yaml.Document.parse text with
  | .error e => .error (.badYaml e.message)
  | .ok d =>
      match ofYaml? d with
      | none => .error (.badYaml Yaml.Error.wrongShape.message)
      | some p => .ok p

/-- Check parameters. -/
def checked (p : Params) : Except Failure Params :=
  match p.validate with
  | .ok _ => .ok p
  | .error defect => .error (.validation defect.message)

/-- The parameters of the text of a parameter file. -/
def load (env : Environment) (text : String) : Except Failure Params :=
  match expand env text with
  | .error names => .error (undefinedVariables names)
  | .ok expanded => ofYamlText expanded >>= checked

end ResourceAgent.Params
