import Mathlib.Data.List.Basic
import ResourceAgent.Json.Reader

/-!
# How deep a value is nested

Each array and each object that a value lies in takes one from the budget of the reader. So a value
that was read is nested less deep than the budget it was read with.
-/
namespace ResourceAgent.Json

/-- Arrays and objects are nested at most so deep. -/
inductive Value.Nests : ℕ → Value → Prop
  | null {n : ℕ} : Nests n .null
  | bool {n : ℕ} {b : Bool} : Nests n (.bool b)
  | number {n : ℕ} {x : Number} : Nests n (.number x)
  | string {n : ℕ} {s : String} : Nests n (.string s)
  | array {n : ℕ} {items : List Value} : (∀ v ∈ items, Nests n v) → Nests (n + 1) (.array items)
  | object {n : ℕ} {members : List (String × Value)} : (∀ m ∈ members, Nests n m.2) →
      Nests (n + 1) (.object members)

theorem readWordRest_eq_ok {value v : Value} {ws cs rest : List Char}
    (h : readWordRest value ws cs = .ok (v, rest)) : v = value := by
  fun_induction readWordRest value ws cs with
  | case1 cs =>
      cases h
      rfl
  | case2 => cases h
  | case3 ws c cs ih => exact ih h
  | case4 => cases h

theorem readUnsigned_eq_ok {negative : Bool} {cs rest : List Char} {v : Value}
    (h : readUnsigned negative cs = .ok (v, rest)) : ∃ x, v = .number x := by
  simp only [readUnsigned, bind, Except.bind, pure, Except.pure] at h
  split at h
  · cases h
  · split at h
    · cases h
    · split at h
      · cases h
      · split_ifs at h <;> cases h <;> exact ⟨_, rfl⟩

/-- A scalar is nested in nothing. -/
theorem nests_of_readScalar {fuel n : ℕ} {cs rest : List Char} {v : Value}
    (h : readScalar fuel cs = .ok (v, rest)) : v.Nests n := by
  unfold readScalar at h
  split at h
  · cases h
  · split_ifs at h
    · rw [readWordRest_eq_ok h]
      exact .null
    · rw [readWordRest_eq_ok h]
      exact .bool
    · rw [readWordRest_eq_ok h]
      exact .bool
    · rename_i rest' _ _ _ _
      cases hs : readStringRest fuel [] rest' with
      | error e =>
          rw [hs] at h
          cases h
      | ok read =>
          rw [hs] at h
          cases h
          exact .string
    · obtain ⟨x, rfl⟩ := readUnsigned_eq_ok h
      exact .number
    · obtain ⟨x, rfl⟩ := readUnsigned_eq_ok h
      exact .number

/-- An element is read, and then the array ends or goes on. -/
theorem readItems_succ_eq_ok {fuel budget : ℕ} {acc : List Value} {cs rest : List Char} {v : Value}
    (h : readItems (fuel + 1) budget acc cs = .ok (v, rest)) :
    ∃ w cs', readValue fuel budget cs = .ok (w, cs') ∧
      (skipSpace cs' = ']' :: rest ∧ v = .array (w :: acc).reverse ∨
        ∃ next, skipSpace cs' = ',' :: next ∧
          readItems fuel budget (w :: acc) (skipSpace next) = .ok (v, rest)) := by
  rw [readItems] at h
  split at h
  · cases h
  · rename_i w cs' hw
    refine ⟨w, cs', hw, ?_⟩
    split at h
    · cases h
    · rename_i hskip
      cases h
      exact .inl ⟨hskip, rfl⟩
    · rename_i next hskip
      split at h
      · cases h
      · exact .inr ⟨next, hskip, h⟩
    · cases h

/-- A member is read, and then the object ends or goes on. -/
theorem readMembers_succ_eq_ok {fuel budget : ℕ} {acc : List (String × Value)}
    {cs rest : List Char} {v : Value}
    (h : readMembers (fuel + 1) budget acc cs = .ok (v, rest)) :
    ∃ name w cs' cs'', readName (fuel + 1) cs = .ok (name, cs') ∧
      readValue fuel budget cs' = .ok (w, cs'') ∧
      (skipSpace cs'' = '\x7d' :: rest ∧ v = .object ((name, w) :: acc).reverse ∨
        ∃ next, skipSpace cs'' = ',' :: next ∧
          readMembers fuel budget ((name, w) :: acc) (skipSpace next) = .ok (v, rest)) := by
  rw [readMembers] at h
  split at h
  · cases h
  · rename_i name cs' hname
    split at h
    · cases h
    · rename_i w cs'' hw
      refine ⟨name, w, cs', cs'', hname, hw, ?_⟩
      split at h
      · cases h
      · rename_i hskip
        cases h
        exact .inl ⟨hskip, rfl⟩
      · rename_i next hskip
        exact .inr ⟨next, hskip, h⟩
      · cases h

/-- The rest of an array or an object is nested like its elements, and once more. -/
theorem nests_of_read (fuel : ℕ) :
    (∀ {budget cs v rest}, readValue fuel budget cs = .ok (v, rest) → v.Nests (budget - 1)) ∧
      (∀ {budget acc cs v rest}, readItems fuel budget acc cs = .ok (v, rest) →
        (∀ a ∈ acc, a.Nests (budget - 1)) → v.Nests (budget - 1 + 1)) ∧
      ∀ {budget acc cs v rest}, readMembers fuel budget acc cs = .ok (v, rest) →
        (∀ a ∈ acc, a.2.Nests (budget - 1)) → v.Nests (budget - 1 + 1) := by
  induction fuel with
  | zero =>
      refine ⟨?_, ?_, ?_⟩
      · intro budget cs v rest h
        cases h
      · intro budget acc cs v rest h
        cases h
      · intro budget acc cs v rest h
        cases h
  | succ fuel ih =>
      obtain ⟨ihValue, ihItems, ihMembers⟩ := ih
      refine ⟨?_, ?_, ?_⟩
      · intro budget cs v rest h
        rw [readValue] at h
        split at h
        · split_ifs at h with hb
          obtain ⟨n, rfl⟩ : ∃ n, budget = n + 2 := ⟨budget - 2, by omega⟩
          split at h
          · cases h
            exact .array (by simp)
          · exact ihItems h (by simp)
        · split_ifs at h with hb
          obtain ⟨n, rfl⟩ : ∃ n, budget = n + 2 := ⟨budget - 2, by omega⟩
          split at h
          · cases h
            exact .object (by simp)
          · exact ihMembers h (by simp)
        · exact nests_of_readScalar h
      · intro budget acc cs v rest h hacc
        obtain ⟨w, _, hw, hmore⟩ := readItems_succ_eq_ok h
        have hacc' : ∀ a ∈ w :: acc, a.Nests (budget - 1) :=
          List.forall_mem_cons.mpr ⟨ihValue hw, hacc⟩
        rcases hmore with ⟨-, rfl⟩ | ⟨next, -, hnext⟩
        · exact .array fun a ha => hacc' a (List.mem_reverse.mp ha)
        · exact ihItems hnext hacc'
      · intro budget acc cs v rest h hacc
        obtain ⟨name, w, _, _, -, hw, hmore⟩ := readMembers_succ_eq_ok h
        have hacc' : ∀ a ∈ (name, w) :: acc, a.2.Nests (budget - 1) :=
          List.forall_mem_cons.mpr ⟨ihValue hw, hacc⟩
        rcases hmore with ⟨-, rfl⟩ | ⟨next, -, hnext⟩
        · exact .object fun a ha => hacc' a (List.mem_reverse.mp ha)
        · exact ihMembers hnext hacc'

end ResourceAgent.Json
