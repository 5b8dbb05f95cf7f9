import ResourceAgent.Json.Value
import ResourceAgent.Params.Source
import ResourceAgent.Text.Numeral

/-!
# Parameters as JSON

Every field is written, an absent text as null. Reading accepts an object or an array for a
record, a string or an object with one null member for a choice, and null for an absent text.
-/
namespace ResourceAgent

open Json (Value)

/-- The JSON form of a definition. -/
def ResourceSpec.toJson (spec : ResourceSpec) : Value :=
  .object [
    ("standard", .string spec.standard),
    ("provider", .string spec.provider),
    ("type", .string spec.type),
    ("operations", .optionalString spec.operations),
    ("meta", .optionalString spec.metaOptions),
    ("clone", .optionalString spec.cloneOptions),
    ("promotable", .optionalString spec.promotableOptions),
    ("group", .optionalString spec.group),
    ("disabled", .bool spec.disabled),
    ("agent_validation", .bool spec.agentValidation),
    ("resource_options", .optionalString spec.resourceOptions)]

/-- The JSON form of parameters. -/
def Params.toJson (p : Params) : Value :=
  .object [
    ("name", .string p.name),
    ("state", .string p.state.word),
    ("node", .optionalString p.node),
    ("timeout", .nat p.timeout.toNat),
    ("force", .bool p.force),
    ("resources", .array (p.resources.map ResourceSpec.toJson))]

/-- JSON values as a source of parameters. -/
def jsonSource : Source Option Value where
  reject := none
  record
    | .object members => some (.named members)
    | .array items => some (.positional items)
    | _ => none
  items
    | .array items => some items
    | _ => none
  text
    | .string s => some s
    | _ => none
  optionalText
    | .null => some none
    | .string s => some (some s)
    | _ => none
  flag
    | .bool b => some b
    | _ => none
  seconds
    | .number (.integer (.ofNat n)) => Text.toWord n
    | _ => none
  choice
    | .string s => some s
    | .object [(name, .null)] => some name
    | _ => none

/-- The definition that a JSON value stands for. -/
def ResourceSpec.ofJson? (v : Value) : Option ResourceSpec := jsonSource.spec v

/-- The parameters that a JSON value stands for. -/
def Params.ofJson? (v : Value) : Option Params := jsonSource.params v

end ResourceAgent
