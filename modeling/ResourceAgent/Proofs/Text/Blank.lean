import Mathlib.Data.List.DropRight
import ResourceAgent.Text.Blank

/-!
# Trimming and indentation

Trimming is idempotent, takes characters from the ends only, and leaves a text that neither starts
nor ends with a blank. A text that trimming leaves alone and that is not empty can be indented:
the indentation is then exactly the blanks put before it.
-/
namespace ResourceAgent.Text

theorem trimEnd_eq_rdropWhile (cs : List Char) : trimEnd cs = cs.rdropWhile isBlank := rfl

theorem trimEnd_eq_nil_iff {cs : List Char} : trimEnd cs = [] ↔ ∀ c ∈ cs, isBlank c = true := by
  rw [trimEnd_eq_rdropWhile]
  exact List.rdropWhile_eq_nil_iff

theorem trimStart_eq_nil_iff {cs : List Char} :
    trimStart cs = [] ↔ ∀ c ∈ cs, isBlank c = true :=
  List.dropWhile_eq_nil_iff

theorem mem_of_mem_trim {c : Char} {cs : List Char} (h : c ∈ trim cs) : c ∈ cs :=
  (List.dropWhile_suffix isBlank).subset ((List.rdropWhile_prefix isBlank (trimStart cs)).subset h)

theorem length_trim_le_trimStart (cs : List Char) : (trim cs).length ≤ (trimStart cs).length :=
  (List.rdropWhile_prefix isBlank (trimStart cs)).length_le

/-- Nothing is left of a text exactly if all of it is blank. -/
theorem trim_eq_nil_iff {cs : List Char} : trim cs = [] ↔ ∀ c ∈ cs, isBlank c = true := by
  rw [trim, trimEnd_eq_nil_iff]
  constructor
  · intro h
    have hs : trimStart (trimStart cs) = [] := trimStart_eq_nil_iff.mpr h
    rw [trimStart, trimStart, List.dropWhile_idempotent isBlank cs] at hs
    exact trimStart_eq_nil_iff.mp hs
  · intro h c hc
    exact h c ((List.dropWhile_suffix isBlank).subset hc)

/-- The text has a character that is not blank. -/
def NotBlank (s : String) : Prop := ∃ c ∈ s.toList, isBlank c = false

theorem isBlankText_iff {s : String} :
    isBlankText s = true ↔ ∀ c ∈ s.toList, isBlank c = true := by
  rw [isBlankText, List.isEmpty_iff, trim_eq_nil_iff]

theorem isBlankText_eq_false_iff {s : String} : isBlankText s = false ↔ NotBlank s := by
  rw [← Bool.not_eq_true, isBlankText_iff, NotBlank]
  simp

/-- The first character of a trimmed text is not blank. -/
theorem not_isBlank_head_trimStart {c : Char} {cs rest : List Char}
    (h : trimStart cs = c :: rest) : isBlank c = false := by
  have hd := List.head?_dropWhile_not isBlank cs
  rw [← trimStart, h] at hd
  simpa using hd

@[simp] theorem trim_trim (cs : List Char) : trim (trim cs) = trim cs := by
  have hp : trim cs <+: trimStart cs := List.rdropWhile_prefix isBlank (trimStart cs)
  have hs : trimStart (trim cs) = trim cs := by
    rcases ht : trim cs with _ | ⟨c, rest⟩
    · rfl
    · obtain ⟨tail, he⟩ := hp
      rw [ht, List.cons_append] at he
      rw [trimStart, List.dropWhile_cons, not_isBlank_head_trimStart he.symm]
      rfl
  calc trim (trim cs)
      = trimEnd (trim cs) := by rw [trim, hs]
    _ = trim cs := List.rdropWhile_idempotent isBlank (trimStart cs)

/-- Blanks put before a text are trimmed off. -/
theorem trim_append_of_blank {margin cs : List Char} (h : ∀ c ∈ margin, isBlank c = true) :
    trim (margin ++ cs) = trim cs := by
  unfold trim trimStart
  rw [List.dropWhile_append_of_pos h]

/-- A blank put after a text is trimmed off. -/
theorem trim_concat_of_blank {c : Char} (h : isBlank c = true) (cs : List Char) :
    trim (cs ++ [c]) = trim cs := by
  by_cases hcs : ∀ d ∈ cs, isBlank d = true
  · have hall : ∀ d ∈ cs ++ [c], isBlank d = true :=
      List.forall_mem_append.mpr ⟨hcs, List.forall_mem_singleton.mpr h⟩
    rw [trim_eq_nil_iff.mpr hall, trim_eq_nil_iff.mpr hcs]
  · have hne : (cs.dropWhile isBlank).isEmpty = false :=
      List.isEmpty_eq_false_iff.mpr (mt trimStart_eq_nil_iff.mp hcs)
    have hstart : trimStart (cs ++ [c]) = trimStart cs ++ [c] := by
      rw [trimStart, List.dropWhile_append, hne]
      rfl
    rw [trim, hstart, trimEnd_eq_rdropWhile, List.rdropWhile_concat_pos _ _ _ h, trim,
      trimEnd_eq_rdropWhile]

/-- A blank put after a text that is not blank is no part of its indentation. -/
theorem indent_concat {cs : List Char} (h : ¬ ∀ d ∈ cs, isBlank d = true) (c : Char) :
    indent (cs ++ [c]) = indent cs := by
  have hlen : (cs.takeWhile isBlank).length ≠ cs.length := by
    intro he
    exact h (List.takeWhile_eq_self_iff.mp ((List.takeWhile_prefix isBlank).eq_of_length he))
  rw [indent, List.takeWhile_append, if_neg hlen, indent]

/-- A text that trimming leaves alone does not start with a blank. -/
theorem not_isBlank_head_of_trim {c : Char} {rest : List Char}
    (h : trim (c :: rest) = c :: rest) : isBlank c = false := by
  by_contra hb
  have hs : trimStart (c :: rest) = trimStart rest := by
    rw [trimStart, List.dropWhile_cons, if_pos (by simpa using hb)]
    rfl
  have h₁ := length_trim_le_trimStart (c :: rest)
  have h₂ := length_trimStart_le rest
  rw [h, hs, List.length_cons] at h₁
  omega

/-- Nor does it end with one. -/
theorem not_isBlank_getLast_of_trim {c : Char} {cs : List Char} (h : trim cs = cs)
    (hc : cs.getLast? = some c) : isBlank c = false := by
  have hne : cs.rdropWhile isBlank = cs := by
    have hi := trim_trim cs
    have hp := (List.rdropWhile_prefix isBlank cs).length_le
    have hl : (trim cs).length ≤ (cs.rdropWhile isBlank).length := by
      rcases cs with _ | ⟨d, rest⟩
      · exact Nat.zero_le _
      · rw [trim, trimStart, List.dropWhile_cons, not_isBlank_head_of_trim h]
        exact le_rfl
    rw [h] at hl
    exact (List.rdropWhile_prefix isBlank cs).eq_of_length (le_antisymm hp hl)
  have hcs : cs ≠ [] := by
    rintro rfl
    simp at hc
  have hlast := List.rdropWhile_eq_self_iff.mp hne hcs
  rw [List.getLast?_eq_some_getLast hcs, Option.some.injEq] at hc
  rw [← hc]
  simpa using hlast

/-- The indentation of a trimmed text with blanks put before it: the number of those blanks. -/
theorem indent_append {margin cs rest : List Char} (hm : ∀ c ∈ margin, isBlank c = true)
    (hne : cs ≠ []) (ht : trim cs = cs) : indent (margin ++ (cs ++ rest)) = margin.length := by
  obtain ⟨c, tail, rfl⟩ := List.exists_cons_of_ne_nil hne
  have hc := not_isBlank_head_of_trim ht
  rw [indent, List.takeWhile_append_of_pos hm, List.cons_append, List.takeWhile_cons, hc]
  simp

end ResourceAgent.Text
