import ResourceAgent.Params.Basic

/-!
# Decoding parameters

Parameters are decoded from values that describe themselves, such as JSON values and the nodes of
a YAML document. A `Source` says how one kind of value is looked into; what the fields are called,
in which order they come and what they default to is said here, once.

A record is given by named fields, in any order and with unknown names ignored, or by its leading
fields in their order. A field that is not given takes its default. A known field given twice, a
value of the wrong kind and a surplus value make the decoding fail.
-/
namespace ResourceAgent

/-- The fields of a record, by name or by position. -/
inductive Record (ν : Type) where
  | named (fields : List (String × ν))
  | positional (values : List ν)

/-- How a kind of values is looked into. -/
structure Source (m : Type → Type) (ν : Type) where
  /-- Give up. -/
  reject : {α : Type} → m α
  record : ν → m (Record ν)
  items : ν → m (List ν)
  text : ν → m String
  /-- A text, or the null of the format. -/
  optionalText : ν → m (Option String)
  flag : ν → m Bool
  seconds : ν → m UInt64
  /-- The name of a choice without content. -/
  choice : ν → m String

namespace Source

variable {m : Type → Type} [Monad m] {ν : Type}

/-- The value of the field with one of the given names and the given position. -/
def field? (s : Source m ν) (r : Record ν) (names : List String) (position : Nat) :
    m (Option ν) :=
  match r with
  | .positional values => pure values[position]?
  | .named fields =>
      match fields.filter (fun field => names.contains field.1) with
      | [] => pure none
      | [field] => pure (some field.2)
      | _ => s.reject

/-- Decode a field, or take the default. -/
def field {α : Type} (s : Source m ν) (r : Record ν) (names : List String) (position : Nat)
    (decode : ν → m α) (default : α) : m α := do
  match ← s.field? r names position with
  | none => pure default
  | some v => decode v

/-- Refuse a record that gives more than `count` fields by position. -/
def atMost (s : Source m ν) (count : Nat) : Record ν → m Unit
  | .named _ => pure ()
  | .positional values => if values.length ≤ count then pure () else s.reject

def spec (s : Source m ν) (v : ν) : m ResourceSpec := do
  let r ← s.record v
  s.atMost 11 r
  let d : ResourceSpec := { }
  return {
    standard := ← s.field r ["standard"] 0 s.text d.standard
    provider := ← s.field r ["provider"] 1 s.text d.provider
    type := ← s.field r ["type"] 2 s.text d.type
    operations := ← s.field r ["operations"] 3 s.optionalText d.operations
    metaOptions := ← s.field r ["meta"] 4 s.optionalText d.metaOptions
    cloneOptions := ← s.field r ["clone"] 5 s.optionalText d.cloneOptions
    promotableOptions :=
      ← s.field r ["promotable"] 6 s.optionalText d.promotableOptions
    group := ← s.field r ["group"] 7 s.optionalText d.group
    disabled := ← s.field r ["disabled"] 8 s.flag d.disabled
    agentValidation := ← s.field r ["agent_validation"] 9 s.flag d.agentValidation
    resourceOptions :=
      ← s.field r ["resource_options", "options"] 10 s.optionalText d.resourceOptions }

def state (s : Source m ν) (v : ν) : m TargetState := do
  match TargetState.ofWord? (← s.choice v) with
  | some state => pure state
  | none => s.reject

def specs (s : Source m ν) (v : ν) : m (List ResourceSpec) := do
  (← s.items v).mapM s.spec

/-- Decode the parameters of an operation. -/
def params (s : Source m ν) (v : ν) : m Params := do
  let r ← s.record v
  s.atMost 6 r
  let d : Params := { }
  return {
    name := ← s.field r ["name"] 0 s.text d.name
    state := ← s.field r ["state"] 1 s.state d.state
    node := ← s.field r ["node"] 2 s.optionalText d.node
    timeout := ← s.field r ["timeout"] 3 s.seconds d.timeout
    force := ← s.field r ["force"] 4 s.flag d.force
    resources := ← s.field r ["resources"] 5 s.specs d.resources }

end Source

end ResourceAgent
