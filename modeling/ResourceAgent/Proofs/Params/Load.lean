import ResourceAgent.Proofs.Params.Reference
import ResourceAgent.Proofs.Params.Source
import ResourceAgent.Proofs.Yaml.Reader

/-!
# Loading parameters from their JSON text

The JSON text of parameters is a parameter file for them, if they are valid, their texts are of
printable ASCII characters, and no reference to the environment is in the text. A text such as
`null` or `0x1` stays a text, since it is quoted.
-/
namespace ResourceAgent

open Json (Value)
open Yaml (IsPrintableText Node Simple nodeOf)

/-- Digits carry neither a sign nor the mark of a radix, if no zero stands before others. -/
theorem Yaml.readSeconds_of_readWordDigits {cs : List Char} {n : UInt64}
    (h : Text.readWordDigits 10 cs = some n) (hsign : ∀ r, cs ≠ '+' :: r)
    (hzero : ∀ d ds, cs ≠ '0' :: d :: ds) : readSeconds (String.ofList cs) = some n := by
  have hmark : ∀ c radix, readMarked ['0', c] radix cs = none := by
    intro c radix
    refine if_neg fun hprefix => ?_
    obtain ⟨rest, hrest⟩ := List.isPrefixOf_iff_prefix.mp hprefix
    exact hzero c rest hrest.symm
  have hunmarked : readUnmarked cs = some n := by
    unfold readUnmarked
    split
    · exact absurd rfl (hzero _ _)
    · exact h
  unfold readSeconds
  simp only [String.toList_ofList]
  rw [hmark, hmark, hmark, hunmarked]
  rfl

theorem Yaml.readSeconds_toString (n : UInt64) :
    readSeconds (String.ofList (toString n.toNat).toList) = some n :=
  readSeconds_of_readWordDigits (Text.readWordDigits_toString n)
    (Text.toString_ne_cons (by decide) n.toNat) (Text.toString_ne_zero_cons n.toNat)

theorem represents_yamlSource (d : Yaml.Document) : (yamlSource d).Represents nodeOf where
  object members := by
    let key (entry : Node × Node) : Following String := d.decode Yaml.scalarText? entry.1
    let entry (m : String × Value) : Node × Node := (.scalar none .doubleQuoted m.1, nodeOf m.2)
    have hkey : ∀ m, key (entry m) = pure m.1 := fun _ => rfl
    have hnames : (members.map entry).mapM key = pure (members.map Prod.fst) :=
      Source.mapM_map_eq_pure hkey members
    have hrecord : ∀ entries : List (Node × Node), (yamlSource d).record (.mapping none entries) =
        (do
          let names ← entries.mapM key
          return .named (names.zip (entries.map Prod.snd))) := fun _ => rfl
    rw [nodeOf, hrecord, hnames, pure_bind, List.map_map, List.zip_map']
    rfl
  array items := by
    rw [nodeOf]
    rfl
  text text := by
    rw [nodeOf]
    rfl
  optionalText text := by
    cases text with
    | none =>
        rw [Value.optionalString, nodeOf]
        rfl
    | some text =>
        rw [Value.optionalString, nodeOf]
        rfl
  flag b := by
    rw [nodeOf]
    cases b <;> rfl
  seconds n := by
    have hread := Yaml.readSeconds_toString n
    have hseconds : ∀ text, (yamlSource d).seconds (.scalar none .plain text) =
        StateT.lift (Yaml.readSeconds text) := fun _ => rfl
    rw [Value.nat, nodeOf, hseconds]
    exact congrArg StateT.lift hread
  choice word := by
    rw [nodeOf]
    rfl

/-- The texts of a definition that anyone may choose. -/
def ResourceSpec.texts (spec : ResourceSpec) : List String :=
  [spec.standard, spec.provider, spec.type] ++
    [spec.operations, spec.metaOptions, spec.cloneOptions, spec.promotableOptions, spec.group,
      spec.resourceOptions].filterMap id

/-- The texts of parameters that anyone may choose. -/
def Params.texts (p : Params) : List String :=
  p.name :: p.node.toList ++ p.resources.flatMap ResourceSpec.texts

theorem simple_optionalString {text : Option String} (h : ∀ t ∈ text, IsPrintableText t) :
    Simple (.optionalString text) := by
  cases text with
  | none => exact .null
  | some text => exact .string (h text rfl)

theorem ResourceSpec.simple_toJson {spec : ResourceSpec}
    (h : ∀ text ∈ spec.texts, IsPrintableText text) : Simple spec.toJson := by
  have hstring : ∀ text ∈ [spec.standard, spec.provider, spec.type], Simple (.string text) :=
    fun text ht => .string (h text (List.mem_append_left _ ht))
  have hoptional : ∀ text ∈ [spec.operations, spec.metaOptions, spec.cloneOptions,
      spec.promotableOptions, spec.group, spec.resourceOptions], Simple (.optionalString text) := by
    intro text ht
    refine simple_optionalString fun t ht' => h t (List.mem_append_right _ ?_)
    exact List.mem_filterMap.mpr ⟨text, ht, ht'⟩
  refine .object ?_ ?_
  · simp only [List.forall_mem_cons, List.not_mem_nil, false_implies, implies_true]
    decide
  · simp only [List.forall_mem_cons, List.not_mem_nil, false_implies, implies_true]
      at hstring hoptional ⊢
    simp [hstring, hoptional, Simple.bool]

theorem Params.simple_toJson {p : Params} (h : ∀ text ∈ p.texts, IsPrintableText text) :
    Simple p.toJson := by
  have hname : Simple (.string p.name) := .string (h p.name (by simp [texts]))
  have hnode : Simple (.optionalString p.node) :=
    simple_optionalString fun text ht => h text (by simp [texts, Option.mem_def.mp ht])
  have hstate : Simple (.string p.state.word) := by
    refine .string ?_
    cases p.state <;> decide
  have hresources : Simple (.array (p.resources.map ResourceSpec.toJson)) := by
    refine .array (List.forall_mem_map.mpr fun spec hspec => ?_)
    refine ResourceSpec.simple_toJson fun text ht => h text ?_
    exact List.mem_append_right _ (List.mem_flatMap.mpr ⟨spec, hspec, ht⟩)
  refine .object ?_ ?_
  · simp only [List.forall_mem_cons, List.not_mem_nil, false_implies, implies_true]
    decide
  · simp [hname, hstate, hnode, hresources, Simple.bool, Simple.nat]

/-- Valid parameters are loaded back from their JSON text in every environment. -/
theorem Params.load_compact {p : Params} (hvalid : p.validate = .ok ())
    (hprintable : ∀ text ∈ p.texts, IsPrintableText text)
    (hreference : ¬HasReference p.toJson.compact.toList) (env : Environment) :
    load env p.toJson.compact = .ok p := by
  have hparse : Yaml.Document.parse p.toJson.compact = .ok { root := some (nodeOf p.toJson) } :=
    Yaml.parse_compact (simple_toJson hprintable)
  have hdecode : ofYaml? { root := some (nodeOf p.toJson) } = some p := by
    have hparams := (represents_yamlSource { root := some (nodeOf p.toJson) }).params p
    simp [ofYaml?, hparams]
  rw [load, expand_of_not_hasReference env hreference]
  simp only [ofYamlText, hparse, hdecode, bind, Except.bind, checked, hvalid]

theorem Params.not_hasReference_of_not_mem {cs : List Char} (h : '$' ∉ cs) : ¬HasReference cs := by
  rintro ⟨before, name, after, rfl, -, -⟩
  exact h (by simp)

/-- Texts that would be something else without the quotes, and characters that are escaped. -/
theorem Params.load_compact_quoted :
    let p : Params := {
      name := "true", state := .relocated, node := some "null", timeout := 5, force := false
      resources := [
        { type := "0x1", group := some "a: #b", resourceOptions := some "x=\"1\" \\" }] }
    p.validate = .ok () ∧ ∀ env, load env p.toJson.compact = .ok p := by
  intro p
  have hvalid : p.validate = .ok () := by decide
  have hprintable : ∀ text ∈ p.texts, IsPrintableText text := by decide
  have hreference : ¬HasReference p.toJson.compact.toList := by
    refine not_hasReference_of_not_mem ?_
    rw [Value.compact, String.toList_ofList]
    decide +kernel
  exact ⟨hvalid, load_compact hvalid hprintable hreference⟩

end ResourceAgent
