import ResourceAgent.Params.Basic
import ResourceAgent.Text.Blank

/-!
# Argument vectors of `pcs`

Options are given as text and passed word by word: `op`, `meta`, `clone` and `promotable` each
introduce the words of one field, and a field that is absent or blank introduces nothing. The
group is passed as one argument, trimmed.

An update cannot change the agent, the group or what a resource is wrapped in, so it passes none
of them.
-/
namespace ResourceAgent.Pcs

/-- A `pcs` invocation that works on one resource. -/
inductive Command where
  | config (name : String)
  | create (name : String) (spec : ResourceSpec)
  | update (name : String) (spec : ResourceSpec)
  | delete (name : String) (force : Bool)
  | move (name node : String) (wait : Option UInt64)
deriving Repr, DecidableEq

/-- The text without its outer blanks, if anything is left. -/
def nonBlank (text : Option String) : Option String :=
  (text.map Text.trimmed).filter (· ≠ "")

/-- The words of a text that may be absent. -/
def optionWords (text : Option String) : List String :=
  match text with
  | none => []
  | some s => Text.wordsOf s

/-- The words of a field after the keyword that introduces them. -/
def keywordSection (keyword : String) (text : Option String) : List String :=
  match nonBlank text with
  | none => []
  | some s => keyword :: Text.wordsOf s

/-- The group as an argument. -/
def groupArgs (group : Option String) : List String :=
  match nonBlank group with
  | none => []
  | some g => ["--group", g]

def flagArg (flag : String) (passed : Bool) : List String := if passed then [flag] else []

/-- The limit of a wait as an argument. -/
def waitArg (wait : Option UInt64) : List String :=
  match wait with
  | none => []
  | some seconds => ["--wait=" ++ toString seconds.toNat]

def Command.args : Command → List String
  | .config name => ["resource", "config", name]
  | .create name spec =>
      ["resource", "create", name, spec.agent] ++ optionWords spec.resourceOptions ++
        keywordSection "op" spec.operations ++ keywordSection "meta" spec.metaOptions ++
        keywordSection "clone" spec.cloneOptions ++
        keywordSection "promotable" spec.promotableOptions ++ groupArgs spec.group ++
        flagArg "--disabled" spec.disabled ++ flagArg "--agent-validation" spec.agentValidation
  | .update name spec =>
      ["resource", "update", name] ++ optionWords spec.resourceOptions ++
        keywordSection "op" spec.operations ++ keywordSection "meta" spec.metaOptions ++
        flagArg "--agent-validation" spec.agentValidation
  | .delete name force => ["resource", "delete", name] ++ flagArg "--force" force
  | .move name node wait => ["resource", "move", name, node] ++ waitArg wait

end ResourceAgent.Pcs
