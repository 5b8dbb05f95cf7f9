import Mathlib.Data.List.Basic
import Mathlib.Data.List.TakeWhile
import ResourceAgent.Params.Load

/-!
# What references read

A parameter file is read through the variables that it refers to and no others. A text without
references is left as it is.
-/
namespace ResourceAgent.Params

theorem mem_referenced {name : String} {ps : List Piece} :
    name ∈ referenced ps ↔ .reference name ∈ ps := by
  induction ps with
  | nil => simp [referenced]
  | cons p ps ih =>
      cases p with
      | char c => simp [referenced, ih]
      | reference n => simp [referenced, ih]

theorem referenced_map_char (cs : List Char) : referenced (cs.map .char) = [] := by
  induction cs with
  | nil => rfl
  | cons c cs ih => exact ih

theorem flatMap_value_map_char (env : Environment) (cs : List Char) :
    (cs.map Piece.char).flatMap (Piece.value env) = cs := by
  rw [List.flatMap_map]
  exact List.flatMap_singleton' cs

variable {env env' : Environment} {text : String}

/-- Environments that agree on what a text refers to make the same of it. -/
theorem expand_congr (h : ∀ name ∈ referenced (pieces text.toList), env' name = env name) :
    expand env' text = expand env text := by
  have hundefined : (referenced (pieces text.toList)).filter (fun name => (env' name).isNone) =
      (referenced (pieces text.toList)).filter fun name => (env name).isNone := by
    refine List.filter_congr fun name hn => ?_
    rw [h name hn]
  have hvalues : (pieces text.toList).flatMap (Piece.value env') =
      (pieces text.toList).flatMap (Piece.value env) := by
    refine List.flatMap_congr fun p hp => ?_
    cases p with
    | char c => rfl
    | reference name => rw [Piece.value, Piece.value, h name (mem_referenced.mpr hp)]
  simp only [expand, hundefined, hvalues]

theorem load_congr (h : ∀ name ∈ referenced (pieces text.toList), env' name = env name) :
    load env' text = load env text := by
  rw [load, load, expand_congr h]

/-- Somewhere in the text there is a dollar sign, an opening brace, a name, and the first closing
brace after it. -/
def HasReference (cs : List Char) : Prop :=
  ∃ before name after, cs = before ++ '$' :: '\x7b' :: (name ++ '\x7d' :: after) ∧
    name ≠ [] ∧ '\x7d' ∉ name

theorem HasReference.cons {c : Char} {cs : List Char} (h : HasReference cs) :
    HasReference (c :: cs) := by
  obtain ⟨before, name, after, rfl, hne, hclosing⟩ := h
  exact ⟨c :: before, name, after, rfl, hne, hclosing⟩

theorem referenceAt?_eq_some {cs name rest : List Char} (h : referenceAt? cs = some (name, rest)) :
    cs = '\x7b' :: (name ++ '\x7d' :: rest) ∧ name ≠ [] ∧ '\x7d' ∉ name := by
  unfold referenceAt? at h
  split at h
  · rename_i r
    have hr := List.takeWhile_append_dropWhile (p := (· ≠ '\x7d')) (l := r)
    split at h
    · cases h
    · rename_i c after hdrop
      dsimp only at h
      split_ifs at h with hempty
      cases h
      have hc : c = '\x7d' := by
        have hnot := List.head?_dropWhile_not (· ≠ '\x7d') r
        rw [hdrop] at hnot
        simpa using hnot
      refine ⟨?_, by simpa using hempty, ?_⟩
      · rw [hdrop, hc] at hr
        rw [hr]
      · intro hmem
        simpa using List.mem_takeWhile_imp hmem
  · cases h

theorem pieces_of_not_hasReference {cs : List Char} (h : ¬HasReference cs) :
    pieces cs = cs.map .char := by
  fun_induction pieces cs with
  | case1 => rfl
  | case2 r name rest heq ih =>
      obtain ⟨rfl, hne, hclosing⟩ := referenceAt?_eq_some heq
      exact absurd ⟨[], name, rest, rfl, hne, hclosing⟩ h
  | case3 r heq ih =>
      rw [ih (mt HasReference.cons h)]
      rfl
  | case4 c r hc ih =>
      rw [ih (mt HasReference.cons h)]
      rfl

theorem expand_of_not_hasReference (env : Environment) {text : String}
    (h : ¬HasReference text.toList) : expand env text = .ok text := by
  rw [expand, pieces_of_not_hasReference h]
  simp only [referenced_map_char, flatMap_value_map_char, String.ofList_toList]
  rfl

end ResourceAgent.Params
