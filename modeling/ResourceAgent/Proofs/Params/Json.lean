import ResourceAgent.Proofs.Json.RoundTrip
import ResourceAgent.Proofs.Params.Source

/-!
# Presentations of parameters in JSON

The same parameters can be presented in many ways: with the members of each object in any order
and among members of other names, with the alias of a name, or with an array in place of an
object, which may leave off fields at its end. All of them are decoded to the parameters. What is
no presentation of any parameters is refused however it is rearranged.
-/
namespace ResourceAgent

open Json (Value)

/-- Objects that differ in the order of their members, or in a member of an unknown name. -/
inductive Json.Value.Rearranged (known : List (List String)) : Value → Value → Prop
  | permute {members members' : List (String × Value)} :
      members.Perm members' → Rearranged known (.object members) (.object members')
  | insert {before after : List (String × Value)} {name : String} (v : Value) :
      (∀ names ∈ known, name ∉ names) →
        Rearranged known (.object (before ++ after)) (.object (before ++ (name, v) :: after))

/-- The values of an object's members, in their order. -/
def Json.Value.memberValues : Value → List Value
  | .object members => members.map Prod.snd
  | _ => []

namespace ResourceSpec

/-- The first fields as they are, the others at their defaults. -/
def upTo (count : ℕ) (spec : ResourceSpec) : ResourceSpec :=
  let d : ResourceSpec := { }
  { standard := if 0 < count then spec.standard else d.standard
    provider := if 1 < count then spec.provider else d.provider
    type := if 2 < count then spec.type else d.type
    operations := if 3 < count then spec.operations else d.operations
    metaOptions := if 4 < count then spec.metaOptions else d.metaOptions
    cloneOptions := if 5 < count then spec.cloneOptions else d.cloneOptions
    promotableOptions := if 6 < count then spec.promotableOptions else d.promotableOptions
    group := if 7 < count then spec.group else d.group
    disabled := if 8 < count then spec.disabled else d.disabled
    agentValidation := if 9 < count then spec.agentValidation else d.agentValidation
    resourceOptions := if 10 < count then spec.resourceOptions else d.resourceOptions }

/-- The ways to present a definition. -/
inductive Presents : ResourceSpec → Value → Prop
  | json (spec : ResourceSpec) : Presents spec spec.toJson
  | values (spec : ResourceSpec) : Presents spec (.array spec.toJson.memberValues)
  | leading (spec : ResourceSpec) (count : ℕ) :
      Presents (spec.upTo count) (.array (spec.toJson.memberValues.take count))
  | renamed {spec : ResourceSpec} {before after : List (String × Value)} {v : Value} :
      Presents spec (.object (before ++ ("resource_options", v) :: after)) →
        Presents spec (.object (before ++ ("options", v) :: after))
  | rearranged {spec : ResourceSpec} {v v' : Value} :
      Presents spec v → v.Rearranged fieldNames v' → Presents spec v'

end ResourceSpec

namespace Params

/-- The first fields as they are, the others at their defaults. -/
def upTo (count : ℕ) (p : Params) : Params :=
  let d : Params := { }
  { name := if 0 < count then p.name else d.name
    state := if 1 < count then p.state else d.state
    node := if 2 < count then p.node else d.node
    timeout := if 3 < count then p.timeout else d.timeout
    force := if 4 < count then p.force else d.force
    resources := if 5 < count then p.resources else d.resources }

/-- The JSON form with other values in place of the definitions. -/
def toJsonWith (p : Params) (resources : List Value) : Value :=
  .object [
    ("name", .string p.name),
    ("state", .string p.state.word),
    ("node", .optionalString p.node),
    ("timeout", .nat p.timeout.toNat),
    ("force", .bool p.force),
    ("resources", .array resources)]

/-- The ways to present parameters, each definition in a way of its own. -/
inductive Presents : Params → Value → Prop
  | json {p : Params} {resources : List Value} :
      List.Forall₂ ResourceSpec.Presents p.resources resources →
        Presents p (p.toJsonWith resources)
  | values {p : Params} {resources : List Value} :
      List.Forall₂ ResourceSpec.Presents p.resources resources →
        Presents p (.array (p.toJsonWith resources).memberValues)
  | leading {p : Params} {resources : List Value} (count : ℕ) :
      List.Forall₂ ResourceSpec.Presents p.resources resources →
        Presents (p.upTo count) (.array ((p.toJsonWith resources).memberValues.take count))
  | rearranged {p : Params} {v v' : Value} :
      Presents p v → v.Rearranged fieldNames v' → Presents p v'

/-- Values for parameters of which one object is rearranged, be it that of a definition. -/
inductive Rearranged : Value → Value → Prop
  | outer {v v' : Value} : v.Rearranged fieldNames v' → Rearranged v v'
  | definition {before after : List (String × Value)} {specs specs' : List Value} {v v' : Value} :
      v.Rearranged ResourceSpec.fieldNames v' →
        Rearranged (.object (before ++ ("resources", .array (specs ++ v :: specs')) :: after))
          (.object (before ++ ("resources", .array (specs ++ v' :: specs')) :: after))
  | positional {before after : List Value} {specs specs' : List Value} {v v' : Value} :
      before.length = 5 → v.Rearranged ResourceSpec.fieldNames v' →
        Rearranged (.array (before ++ .array (specs ++ v :: specs') :: after))
          (.array (before ++ .array (specs ++ v' :: specs') :: after))

end Params

theorem Json.Value.Rearranged.exists_given_perm {known : List (List String)} {v v' : Value}
    (h : v.Rearranged known v') : ∃ members members', v = .object members ∧ v' = .object members' ∧
      ∀ names ∈ known, (given names members).Perm (given names members') := by
  cases h with
  | permute h => exact ⟨_, _, rfl, rfl, fun names _ => given_perm h⟩
  | insert v h =>
      refine ⟨_, _, rfl, rfl, fun names hnames => ?_⟩
      rw [given_append, given_append, given_cons_of_not_mem (h names hnames)]

theorem ResourceSpec.ofJson?_rearranged {v v' : Value} (h : v.Rearranged fieldNames v') :
    ofJson? v = ofJson? v' := by
  obtain ⟨members, members', rfl, rfl, hgiven⟩ := h.exists_given_perm
  exact Source.spec_congr rfl rfl hgiven

theorem Params.ofJson?_rearranged {v v' : Value} (h : Rearranged v v') :
    ofJson? v = ofJson? v' := by
  cases h with
  | outer h =>
      obtain ⟨members, members', rfl, rfl, hgiven⟩ := h.exists_given_perm
      exact Source.params_congr rfl rfl (fun names hnames _ => hgiven names hnames)
        (Source.choose_perm (hgiven _ (by decide)))
  | @definition before after specs specs' v v' h =>
      refine Source.params_congr rfl rfl ?_ ?_
      · intro names hnames hne
        have hother : "resources" ∉ names := by
          revert names
          decide
        rw [given_append, given_append, given_cons_of_not_mem hother,
          given_cons_of_not_mem hother]
      · rw [given_append, given_append, given_cons_of_mem (by decide),
          given_cons_of_mem (by decide)]
        refine Source.choose_exchange ?_ _ _
        exact Source.specs_exchange rfl rfl (ResourceSpec.ofJson?_rearranged h)
  | @positional before after specs specs' v v' hlen h =>
      refine Source.params_congr_positional rfl rfl hlen ?_
      exact Source.specs_exchange rfl rfl (ResourceSpec.ofJson?_rearranged h)

theorem jsonSource_text (text : String) : jsonSource.text (.string text) = pure text := rfl

theorem jsonSource_optionalText (text : Option String) :
    jsonSource.optionalText (.optionalString text) = pure text := by
  cases text <;> rfl

theorem jsonSource_flag (b : Bool) : jsonSource.flag (.bool b) = pure b := rfl

theorem jsonSource_seconds (n : UInt64) : jsonSource.seconds (.nat n.toNat) = pure n := by
  simp [jsonSource, Value.nat, Text.toWord_toNat]

theorem represents_jsonSource : jsonSource.Represents id where
  object members := by simp [jsonSource]
  array items := by simp [jsonSource]
  text := jsonSource_text
  optionalText := jsonSource_optionalText
  flag := jsonSource_flag
  seconds := jsonSource_seconds
  choice _ := rfl

theorem jsonSource_state (state : TargetState) :
    jsonSource.state (.string state.word) = pure state :=
  represents_jsonSource.state state

/-- Whether a field is among the leading ones decides what it is, not whether it is decoded. -/
theorem ite_pure {α : Type} (c : Prop) [Decidable c] (a b : α) :
    (if c then pure a else pure b : Option α) = pure (if c then a else b) :=
  (apply_ite pure c a b).symm

theorem ResourceSpec.ofJson?_leading (spec : ResourceSpec) (count : ℕ) :
    ofJson? (.array (spec.toJson.memberValues.take count)) = some (spec.upTo count) := by
  have hrecord : jsonSource.record (.array (spec.toJson.memberValues.take count)) =
      pure (.positional (spec.toJson.memberValues.take count)) := rfl
  have hlen : (spec.toJson.memberValues.take count).length ≤ 11 := by
    simp [toJson, Json.Value.memberValues]
  simp only [ofJson?, Source.spec, hrecord, pure_bind, Source.atMost, if_pos hlen,
    Source.field_take]
  simp only [toJson, Json.Value.memberValues, List.map_cons, List.map_nil,
    List.getElem?_cons_zero, List.getElem?_cons_succ, Option.elim_some, jsonSource_text,
    jsonSource_optionalText, jsonSource_flag, ite_pure, pure_bind]
  rfl

theorem Params.ofJson?_leading {p : Params} {resources : List Value} (count : ℕ)
    (h : jsonSource.specs (.array resources) = pure p.resources) :
    ofJson? (.array ((p.toJsonWith resources).memberValues.take count)) =
      some (p.upTo count) := by
  have hrecord : jsonSource.record (.array ((p.toJsonWith resources).memberValues.take count)) =
      pure (.positional ((p.toJsonWith resources).memberValues.take count)) := rfl
  have hlen : ((p.toJsonWith resources).memberValues.take count).length ≤ 6 := by
    simp [toJsonWith, Json.Value.memberValues]
  simp only [ofJson?, Source.params, hrecord, pure_bind, Source.atMost, if_pos hlen,
    Source.field_take]
  simp only [toJsonWith, Json.Value.memberValues, List.map_cons, List.map_nil,
    List.getElem?_cons_zero, List.getElem?_cons_succ, Option.elim_some, jsonSource_text,
    jsonSource_optionalText, jsonSource_flag, jsonSource_state, jsonSource_seconds, h, ite_pure,
    pure_bind]
  rfl

theorem ResourceSpec.ofJson?_alias (before after : List (String × Value)) (v : Value) :
    ofJson? (.object (before ++ ("resource_options", v) :: after)) =
      ofJson? (.object (before ++ ("options", v) :: after)) := by
  refine Source.spec_congr rfl rfl fun names hnames => ?_
  rw [given_append, given_append]
  have hboth : "resource_options" ∈ names ↔ "options" ∈ names := by
    revert names
    decide
  by_cases h : "options" ∈ names
  · rw [given_cons_of_mem h, given_cons_of_mem (hboth.mpr h)]
  · rw [given_cons_of_not_mem h, given_cons_of_not_mem (mt hboth.mp h)]

theorem ResourceSpec.Presents.ofJson? {spec : ResourceSpec} {v : Value} (h : spec.Presents v) :
    ResourceSpec.ofJson? v = some spec := by
  induction h with
  | json spec => exact represents_jsonSource.spec spec
  | values spec => exact spec.ofJson?_leading 11
  | leading spec count => exact spec.ofJson?_leading count
  | renamed _ ih => rw [← ih, ofJson?_alias]
  | rearranged _ hv ih => rw [← ih, ofJson?_rearranged hv]

theorem specs_of_presents {specs : List ResourceSpec} {values : List Value}
    (h : List.Forall₂ ResourceSpec.Presents specs values) :
    jsonSource.specs (.array values) = some specs := by
  have hitems : jsonSource.specs (.array values) = values.mapM jsonSource.spec := rfl
  rw [hitems]
  clear hitems
  induction h with
  | nil => rfl
  | @cons spec v specs values hspec _ ih =>
      have hv : jsonSource.spec v = some spec := hspec.ofJson?
      rw [List.mapM_cons, hv, ih]
      rfl

theorem Params.ofJson?_toJsonWith {p : Params} {resources : List Value}
    (h : jsonSource.specs (.array resources) = some p.resources) :
    ofJson? (p.toJsonWith resources) = some p := by
  have hrecord : jsonSource.record (p.toJsonWith resources) =
      pure (.named [("name", .string p.name), ("state", .string p.state.word),
        ("node", .optionalString p.node), ("timeout", .nat p.timeout.toNat),
        ("force", .bool p.force), ("resources", .array resources)]) := rfl
  simp [ofJson?, Source.params, hrecord, Source.atMost, Source.field_named, given, Source.choose,
    jsonSource_text, jsonSource_optionalText, jsonSource_flag, jsonSource_state,
    jsonSource_seconds, h]

theorem Params.Presents.ofJson? {p : Params} {v : Value} (h : p.Presents v) :
    Params.ofJson? v = some p := by
  induction h with
  | json h => exact ofJson?_toJsonWith (specs_of_presents h)
  | values h => exact ofJson?_leading 6 (specs_of_presents h)
  | leading count h => exact ofJson?_leading count (specs_of_presents h)
  | rearranged _ hv ih => rw [← ih, ofJson?_rearranged (.outer hv)]

/-- The JSON form is the presentation with the JSON form of each definition in it. -/
theorem Params.presents_toJson (p : Params) : p.Presents p.toJson := by
  have hresources : List.Forall₂ ResourceSpec.Presents p.resources
      (p.resources.map ResourceSpec.toJson) :=
    List.forall₂_map_right_iff.mpr (List.forall₂_same.mpr fun spec _ => .json spec)
  exact .json hresources

theorem Json.Value.nests_optionalString (n : ℕ) (text : Option String) :
    (Value.optionalString text).Nests n := by
  cases text with
  | none => exact .null
  | some text => exact .string

theorem Json.Value.integral_optionalString (p : ℤ → Prop) (text : Option String) :
    (Value.optionalString text).Integral p := by
  cases text with
  | none => exact .null
  | some text => exact .string

theorem ResourceSpec.nests_toJson (spec : ResourceSpec) (n : ℕ) : spec.toJson.Nests (n + 1) := by
  refine .object ?_
  simp [Value.nests_optionalString, Value.Nests.string, Value.Nests.bool]

theorem ResourceSpec.integral_toJson (spec : ResourceSpec) (p : ℤ → Prop) :
    spec.toJson.Integral p := by
  refine .object ?_
  simp [Value.integral_optionalString, Value.Integral.string, Value.Integral.bool]

theorem Params.nests_toJson (p : Params) (n : ℕ) : p.toJson.Nests (n + 3) := by
  refine .object ?_
  have hresources : (Value.array (p.resources.map ResourceSpec.toJson)).Nests (n + 2) := by
    refine .array fun v hv => ?_
    obtain ⟨spec, -, rfl⟩ := List.mem_map.mp hv
    exact spec.nests_toJson n
  simp [Value.nests_optionalString, Value.Nests.string, Value.Nests.bool, Value.Nests.number,
    Value.nat, hresources]

theorem Params.integral_toJson (p : Params) : p.toJson.Integral Json.IsShort := by
  refine .object ?_
  have hresources : (Value.array (p.resources.map ResourceSpec.toJson)).Integral Json.IsShort := by
    refine .array fun v hv => ?_
    obtain ⟨spec, -, rfl⟩ := List.mem_map.mp hv
    exact spec.integral_toJson _
  have htimeout : (Value.nat p.timeout.toNat).Integral Json.IsShort := by
    have hlt := p.timeout.toNat_lt
    exact .number (Json.isShort_of_lt (by omega))
  simp [Value.integral_optionalString, Value.Integral.string, Value.Integral.bool, htimeout,
    hresources]

theorem Params.parse_toJson (p : Params) (l : Json.Layout) :
    Value.parse (String.ofList (p.toJson.chars l 0)) = .ok p.toJson :=
  Value.parse_chars (p.nests_toJson 124) p.integral_toJson l

/-- Parameters are decoded from their JSON text and from every presentation of them, and what a
value is decoded to, if it is, does not change when an object in it is rearranged. -/
theorem Params.json_presentations (p : Params) :
    (∀ text ∈ [p.toJson.compact, p.toJson.pretty],
      ((Value.parse text).toOption >>= ofJson?) = some p) ∧
    (∀ v, p.Presents v → ofJson? v = some p) ∧
    (∀ v v', Rearranged v v' → ofJson? v = ofJson? v') ∧
    (∀ (spec : ResourceSpec) (v : Value), spec.Presents v → ResourceSpec.ofJson? v = some spec) ∧
    ∀ v v' : Value, v.Rearranged ResourceSpec.fieldNames v' →
      ResourceSpec.ofJson? v = ResourceSpec.ofJson? v' := by
  have hcompact : p.toJson.compact = String.ofList (p.toJson.chars .compact 0) := by
    rw [Value.compact, Value.compactChars_eq 0]
  have hpretty : p.toJson.pretty = String.ofList (p.toJson.chars .pretty 0) := by
    rw [Value.pretty, Value.prettyChars_eq]
  have hdecode : ofJson? p.toJson = some p := p.presents_toJson.ofJson?
  refine ⟨?_, fun v => Presents.ofJson?, fun v v' => ofJson?_rearranged,
    fun spec v => ResourceSpec.Presents.ofJson?, fun v v' => ResourceSpec.ofJson?_rearranged⟩
  simp only [List.forall_mem_cons, hcompact, hpretty, parse_toJson]
  simp [Except.toOption, hdecode]

/-- Members in another order, one of an unknown name, and two definitions: an array of leading
fields, and an object with the alias. -/
theorem Params.json_presentations_shuffled :
    let members : List (String × Value) := [("standard", .string "ocf"),
      ("provider", .string "heartbeat"), ("type", .string "IPaddr2"), ("operations", .null),
      ("meta", .null), ("clone", .null), ("promotable", .null), ("group", .null),
      ("disabled", .bool false), ("agent_validation", .bool false)]
    let first : Value := .array [.string "ocf", .string "heartbeat", .string "Dummy"]
    let second : Value := .object (members ++ [("options", .string "ip=10.0.0.1")])
    ofJson? (.object [("comment", .array [.null]), ("resources", .array [first, second]),
      ("name", .string "vip"), ("state", .string "present"), ("node", .null),
      ("timeout", .nat 300), ("force", .bool true)]) =
    some { name := "vip", resources := [{ type := "Dummy" },
      { type := "IPaddr2", resourceOptions := some "ip=10.0.0.1" }] } := by
  intro members first second
  refine (json_presentations _).2.1 _ ?_
  have hfirst : ResourceSpec.Presents { type := "Dummy" } first := .leading { type := "Dummy" } 3
  have hsecond : ResourceSpec.Presents
      { type := "IPaddr2", resourceOptions := some "ip=10.0.0.1" } second :=
    @ResourceSpec.Presents.renamed _ members [] _ (.json _)
  have hresources := List.Forall₂.cons hfirst (.cons hsecond .nil)
  have hrotate : ∀ (member : String × Value) (rest : List (String × Value)),
      (rest ++ [member]).Perm (member :: rest) :=
    fun member rest => List.perm_append_comm
  exact .rearranged (.rearranged (.json hresources) (.permute (hrotate _ [_, _, _, _, _])))
    (@Value.Rearranged.insert _ [] _ _ (.array [.null]) (by decide))

end ResourceAgent
