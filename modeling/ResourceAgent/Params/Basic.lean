/-!
# Parameters of one resource operation

What a caller asks for: a resource by name, the state it should be in, and, for the states that
define a resource, its definition. Times are whole seconds of 64 bits.
-/
namespace ResourceAgent

/-- The state a resource should be in. -/
inductive TargetState where
  /-- Created if it is missing, left alone if it exists. -/
  | present
  /-- Updated in place; it has to exist. -/
  | updated
  /-- Deleted if it exists. -/
  | absent
  /-- Moved to a node; it has to exist. -/
  | relocated
deriving Repr, DecidableEq

namespace TargetState

def word : TargetState → String
  | .present => "present"
  | .updated => "updated"
  | .absent => "absent"
  | .relocated => "relocated"

/-- The states, each once. -/
def all : List TargetState := [.present, .updated, .absent, .relocated]

/-- The state that a word names; the case of the letters counts. -/
def ofWord? (word : String) : Option TargetState := all.find? (·.word == word)

theorem ofWord?_word (s : TargetState) : ofWord? s.word = some s := by
  cases s <;> decide

end TargetState

structure ResourceSpec where
  /-- Where the agent comes from, as `ocf` or `systemd`. -/
  standard : String := "ocf"
  provider : String := "heartbeat"
  /-- The agent itself, as `IPaddr2`. -/
  type : String := ""
  operations : Option String := none
  metaOptions : Option String := none
  cloneOptions : Option String := none
  promotableOptions : Option String := none
  group : Option String := none
  /-- Create the resource without starting it. -/
  disabled : Bool := false
  /-- Have the agent check its options. -/
  agentValidation : Bool := false
  /-- Instance attributes, as `ip=10.0.0.1 cidr_netmask=24`. -/
  resourceOptions : Option String := none
deriving Repr, DecidableEq

/-- The agent in the form `standard:provider:type`. -/
def ResourceSpec.agent (spec : ResourceSpec) : String :=
  spec.standard ++ ":" ++ spec.provider ++ ":" ++ spec.type

/-- The seconds a command may take when nothing else is said. -/
def defaultTimeout : UInt64 := 300

/-- Everything one operation is told. -/
structure Params where
  name : String := ""
  state : TargetState := .present
  /-- The node a relocated resource goes to. -/
  node : Option String := none
  /-- The seconds each command may take. -/
  timeout : UInt64 := defaultTimeout
  /-- Force destructive commands. -/
  force : Bool := true
  /-- Definitions; the states `absent` and `relocated` ignore them. -/
  resources : List ResourceSpec := []
deriving Repr, DecidableEq

end ResourceAgent
