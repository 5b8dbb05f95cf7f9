import ResourceAgent.Json.Writer
import ResourceAgent.Log.Filter

/-!
# Log entries as lines

A line is either meant for reading or a JSON object. No line tells the time.
-/
namespace ResourceAgent.Log

/-- The scope of an entry for reading. -/
def Scope.text (s : Scope) : String :=
  scopeName ++ "\x7bname=" ++ s.operation ++ " resource=" ++ s.resource ++ "\x7d: "

/-- The scope of an entry as JSON. -/
def Scope.toJson (s : Scope) : Json.Value :=
  .object [("name", .string scopeName), ("operation", .string s.operation),
    ("resource", .string s.resource)]

/-- The entry as a line for reading. -/
def Entry.textLine (e : Entry) : String :=
  e.level.label ++ " " ++ (e.scope.map Scope.text).getD "" ++ e.message

/-- The entry as a JSON object. -/
def Entry.jsonLine (e : Entry) : String :=
  (Json.Value.object <|
    [("level", .string e.level.label),
      ("fields", .object [("message", .string e.message)]),
      ("target", .string e.origin.target)] ++
    (e.scope.map fun s => ("span", s.toJson)).toList).compact

end ResourceAgent.Log
