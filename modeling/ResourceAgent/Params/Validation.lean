import ResourceAgent.Params.Basic
import ResourceAgent.Text.Blank
import ResourceAgent.Text.Quoted

/-!
# Which parameters make sense

A resource name is not empty and has no blank in it, and a time limit is not zero. The states
`present` and `updated` need exactly one definition, whose type, standard and provider are not
blank; a colon in the standard or the provider would shift the parts of the agent's name. The
state `relocated` needs a node.
-/
namespace ResourceAgent

/-- What is wrong with parameters. -/
inductive Defect where
  | unknownState (word : String)
  | noName
  | blankInName (name : String)
  | zeroTimeout
  | noDefinition (state : TargetState)
  | manyDefinitions (count : Nat)
  | noType
  | badStandard (standard : String)
  | badProvider (provider : String)
  | noNode
deriving Repr, DecidableEq

def Defect.message : Defect → String
  | .unknownState word => "Unknown resource state: " ++ word
  | .noName => "Must specify a resource name"
  | .blankInName name => "Resource name cannot contain whitespace: " ++ Text.quoted name
  | .zeroTimeout => "Timeout must be greater than zero"
  | .noDefinition state => "State '" ++ state.word ++ "' requires a resource definition"
  | .manyDefinitions count =>
      "Expected exactly one resource definition, got " ++ toString count
  | .noType => "Resource type cannot be empty"
  | .badStandard standard => "Invalid resource standard: " ++ Text.quoted standard
  | .badProvider provider => "Invalid resource provider: " ++ Text.quoted provider
  | .noNode => "State 'relocated' requires a target node"

/-- The state that a word names, or the defect of the word. -/
def TargetState.ofWord (word : String) : Except Defect TargetState :=
  match ofWord? word with
  | some state => .ok state
  | none => .error (.unknownState word)

/-- A part of the agent's name that would not stand between colons. -/
def isBadAgentPart (part : String) : Bool :=
  Text.isBlankText part || part.toList.contains ':'

/-- Check a definition; the first defect counts. -/
def ResourceSpec.validate (spec : ResourceSpec) : Except Defect Unit :=
  if Text.isBlankText spec.type then .error .noType
  else if isBadAgentPart spec.standard then .error (.badStandard spec.standard)
  else if isBadAgentPart spec.provider then .error (.badProvider spec.provider)
  else .ok ()

namespace Params

/-- The one definition that `present` and `updated` work with. -/
def resource (p : Params) : Except Defect ResourceSpec :=
  match p.resources with
  | [spec] => .ok spec
  | [] => .error (.noDefinition p.state)
  | _ => .error (.manyDefinitions p.resources.length)

/-- Check what only the requested state needs. -/
def validateState (p : Params) : Except Defect Unit :=
  match p.state with
  | .present | .updated => p.resource >>= ResourceSpec.validate
  | .relocated =>
      if p.node.all Text.isBlankText then .error .noNode else .ok ()
  | .absent => .ok ()

/-- Check the parameters; the first defect counts. -/
def validate (p : Params) : Except Defect Unit :=
  if Text.isBlankText p.name then .error .noName
  else if Text.hasBlank p.name then .error (.blankInName p.name)
  else if p.timeout = 0 then .error .zeroTimeout
  else p.validateState

end Params

end ResourceAgent
