import ResourceAgent.Text.Utf8

/-!
# The variables of the environment

A process is given its variables as bytes, in a list. A variable is looked up by its name, and then
the first one of that name is found. A variable is text if both its name and its value are UTF-8.
-/
namespace ResourceAgent

/-- A variable of the environment, as a process is given it. -/
structure Variable where
  name : List UInt8
  value : List UInt8
deriving Repr, DecidableEq

namespace Variable

def ofText (name value : String) : Variable := ⟨Text.encodeUtf8 name, Text.encodeUtf8 value⟩

/-- The name and the value, if both of them are text. -/
def text? (v : Variable) : Option (String × String) :=
  match Text.decodeUtf8 v.name, Text.decodeUtf8 v.value with
  | .ok name, .ok value => some (name, value)
  | _, _ => none

def isNamed (name : String) (v : Variable) : Bool := v.name == Text.encodeUtf8 name

/-- The value of the variable with the given name, which may be no text. -/
def lookup (vars : List Variable) (name : String) : Option (Except Text.Utf8Fault String) :=
  (vars.find? (isNamed name)).map fun v => Text.decodeUtf8 v.value

end Variable

end ResourceAgent
