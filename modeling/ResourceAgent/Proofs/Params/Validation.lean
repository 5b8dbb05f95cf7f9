import Mathlib.Data.List.Forall2
import ResourceAgent.Params.Validation
import ResourceAgent.Proofs.Text.Blank

/-!
# Which parameters are accepted

Validation looks at one thing after the other and stops at the first defect. Here it is compared
with a condition that has no order: parameters are accepted exactly if they are sensible, and where
validation does not look, parameters may differ without any difference in its result, the defect
included.
-/
namespace ResourceAgent

open Text (NotBlank)

/-- A check before others: it has to pass, and then they decide. -/
theorem ite_error_eq_ok_iff {ε : Type} {bad : Prop} [Decidable bad] {defect : ε}
    {rest : Except ε Unit} :
    (if bad then .error defect else rest) = .ok () ↔ ¬ bad ∧ rest = .ok () := by
  split_ifs with h
  · simp [h]
  · simp [h]

/-- A definition whose agent has a name of three parts between two colons. -/
structure ResourceSpec.Sensible (spec : ResourceSpec) : Prop where
  type : NotBlank spec.type
  standard : NotBlank spec.standard
  provider : NotBlank spec.provider
  colon_not_mem_standard : ':' ∉ spec.standard.toList
  colon_not_mem_provider : ':' ∉ spec.provider.toList

/-- Parameters that name a resource and have what the requested state needs. -/
structure Params.Sensible (p : Params) : Prop where
  name_ne_empty : p.name ≠ ""
  name_unbroken : ∀ c ∈ p.name.toList, Text.isBlank c = false
  timeout : 0 < p.timeout
  defined : p.state = .present ∨ p.state = .updated →
    ∃ spec, p.resources = [spec] ∧ spec.Sensible
  directed : p.state = .relocated → ∃ node, p.node = some node ∧ NotBlank node

/-- The definitions differ at most where validation does not look. -/
structure ResourceSpec.ChecksAlike (spec spec' : ResourceSpec) : Prop where
  type : spec'.type = spec.type
  standard : spec'.standard = spec.standard
  provider : spec'.provider = spec.provider

/-- So do the parameters: definitions count for two states only, and the node for one. -/
structure Params.ChecksAlike (p p' : Params) : Prop where
  name : p'.name = p.name
  state : p'.state = p.state
  timeout : p'.timeout = p.timeout
  resources : p.state = .present ∨ p.state = .updated →
    List.Forall₂ ResourceSpec.ChecksAlike p.resources p'.resources
  node : p.state = .relocated → p'.node = p.node

theorem ResourceSpec.ChecksAlike.validate_eq {spec spec' : ResourceSpec}
    (h : spec.ChecksAlike spec') : spec'.validate = spec.validate := by
  rw [validate, validate, h.type, h.standard, h.provider]

theorem not_isBadAgentPart_iff {part : String} :
    ¬ isBadAgentPart part = true ↔ NotBlank part ∧ ':' ∉ part.toList := by
  rw [isBadAgentPart, Bool.or_eq_true, not_or, Bool.not_eq_true, Text.isBlankText_eq_false_iff,
    List.contains_iff_mem]

theorem ResourceSpec.validate_eq_ok_iff {spec : ResourceSpec} :
    spec.validate = .ok () ↔ spec.Sensible := by
  have hsteps : spec.validate = .ok () ↔ NotBlank spec.type ∧
      (NotBlank spec.standard ∧ ':' ∉ spec.standard.toList) ∧
      NotBlank spec.provider ∧ ':' ∉ spec.provider.toList := by
    rw [validate, ite_error_eq_ok_iff, ite_error_eq_ok_iff, ite_error_eq_ok_iff,
      Bool.not_eq_true, Text.isBlankText_eq_false_iff, not_isBadAgentPart_iff,
      not_isBadAgentPart_iff]
    simp
  rw [hsteps]
  constructor
  · intro h
    exact ⟨h.1, h.2.1.1, h.2.2.1, h.2.1.2, h.2.2.2⟩
  · intro h
    exact ⟨h.type, ⟨h.standard, h.colon_not_mem_standard⟩, h.provider, h.colon_not_mem_provider⟩

namespace Params

variable {p p' : Params}

theorem resource_eq_ok_iff {spec : ResourceSpec} :
    p.resource = .ok spec ↔ p.resources = [spec] := by
  unfold resource
  split
  · next spec' hr => simp [hr]
  · next hr => simp [hr]
  · next hmany _ =>
      constructor
      · intro h
        cases h
      · intro h
        exact absurd h (hmany spec)

/-- The one definition is checked. -/
theorem resource_validate_eq_ok_iff : p.resource >>= ResourceSpec.validate = .ok () ↔
    ∃ spec, p.resources = [spec] ∧ spec.Sensible := by
  cases hr : p.resource with
  | error defect =>
      constructor
      · intro h
        cases h
      · intro h
        obtain ⟨spec, hspec, -⟩ := h
        cases hr.symm.trans (resource_eq_ok_iff.mpr hspec)
  | ok spec =>
      have hspec := resource_eq_ok_iff.mp hr
      have hbind : Except.ok spec >>= ResourceSpec.validate = spec.validate := rfl
      rw [hbind, ResourceSpec.validate_eq_ok_iff, hspec]
      simp

/-- What only the requested state needs. -/
theorem validateState_eq_ok_iff : p.validateState = .ok () ↔
    (p.state = .present ∨ p.state = .updated → ∃ spec, p.resources = [spec] ∧ spec.Sensible) ∧
      (p.state = .relocated → ∃ node, p.node = some node ∧ NotBlank node) := by
  unfold validateState
  cases hs : p.state with
  | present => simp [resource_validate_eq_ok_iff]
  | updated => simp [resource_validate_eq_ok_iff]
  | absent => simp
  | relocated =>
      cases hn : p.node with
      | none => simp
      | some node => simp [Text.isBlankText_eq_false_iff]

theorem name_accepted_iff {name : String} :
    (Text.isBlankText name = false ∧ Text.hasBlank name = false) ↔
      name ≠ "" ∧ ∀ c ∈ name.toList, Text.isBlank c = false := by
  have hunbroken : Text.hasBlank name = false ↔ ∀ c ∈ name.toList, Text.isBlank c = false := by
    simp [Text.hasBlank]
  rw [Text.isBlankText_eq_false_iff, hunbroken]
  constructor
  · intro h
    refine ⟨?_, h.2⟩
    intro hempty
    obtain ⟨c, hc, -⟩ := h.1
    rw [hempty] at hc
    cases hc
  · intro h
    have hne : name.toList ≠ [] := fun hnil => h.1 (String.toList_eq_nil_iff.mp hnil)
    obtain ⟨c, hc⟩ := List.exists_mem_of_ne_nil _ hne
    exact ⟨⟨c, hc, h.2 c hc⟩, h.2⟩

theorem validate_eq_ok_iff : p.validate = .ok () ↔ p.Sensible := by
  have hpos : ¬ p.timeout = 0 ↔ 0 < p.timeout := UInt64.pos_iff_ne_zero.symm
  have hsteps : p.validate = .ok () ↔
      (Text.isBlankText p.name = false ∧ Text.hasBlank p.name = false) ∧
        0 < p.timeout ∧ p.validateState = .ok () := by
    rw [validate, ite_error_eq_ok_iff, ite_error_eq_ok_iff, ite_error_eq_ok_iff, hpos,
      Bool.not_eq_true, Bool.not_eq_true, and_assoc]
  rw [hsteps, name_accepted_iff, validateState_eq_ok_iff]
  constructor
  · intro h
    exact ⟨h.1.1, h.1.2, h.2.1, h.2.2.1, h.2.2.2⟩
  · intro h
    exact ⟨⟨h.name_ne_empty, h.name_unbroken⟩, h.timeout, h.defined, h.directed⟩

theorem ChecksAlike.resource_validate_eq (hs : p'.state = p.state)
    (hr : List.Forall₂ ResourceSpec.ChecksAlike p.resources p'.resources) :
    p'.resource >>= ResourceSpec.validate = p.resource >>= ResourceSpec.validate := by
  have hlength := hr.length_eq
  generalize hspecs : p.resources = specs at hr hlength
  generalize hspecs' : p'.resources = specs' at hr hlength
  unfold resource
  rw [hspecs, hspecs', hs]
  cases hr with
  | nil => rfl
  | cons hspec hrest =>
      cases hrest with
      | nil => exact hspec.validate_eq
      | cons _ _ => simp only [hlength]

/-- The result does not depend on anything else, not even which defect it is. -/
theorem ChecksAlike.validate_eq (h : p.ChecksAlike p') : p'.validate = p.validate := by
  have hstate : p'.validateState = p.validateState := by
    unfold validateState
    rw [h.state]
    cases hs : p.state with
    | present => exact resource_validate_eq h.state (h.resources (.inl hs))
    | updated => exact resource_validate_eq h.state (h.resources (.inr hs))
    | absent => rfl
    | relocated => simp only [h.node hs]
  rw [validate, validate, h.name, h.timeout, hstate]

end Params

end ResourceAgent
