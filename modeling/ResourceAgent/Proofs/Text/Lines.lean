import Mathlib.Data.List.Basic
import Mathlib.Data.List.TakeWhile
import ResourceAgent.Text.Lines
import ResourceAgent.Text.Search

/-!
# Lines of a text and texts of lines

No line has a line feed in it, and lines that are joined by line feeds are found again, with or
without a line feed at the end, as long as none is empty and none ends in a carriage return.
-/
namespace ResourceAgent.Text

theorem lines_cons_of_dropWhile_nil {c : Char} {r : List Char}
    (h : (c :: r).dropWhile (· != '\n') = []) :
    lines (c :: r) = [(c :: r).takeWhile (· != '\n')] := by
  rw [lines]
  split
  · rfl
  · simp_all

theorem lines_cons_of_dropWhile_cons {c d : Char} {r rest : List Char}
    (h : (c :: r).dropWhile (· != '\n') = d :: rest) :
    lines (c :: r) = dropReturn ((c :: r).takeWhile (· != '\n')) :: lines rest := by
  rw [lines]
  split
  · simp_all
  · simp_all

theorem bne_newline_of_not_mem {line : List Char} (h : '\n' ∉ line) :
    ∀ c ∈ line, (c != '\n') = true := by
  intro c hc
  exact bne_iff_ne.mpr fun he => h (he ▸ hc)

/-- A line feed ends the line before it. -/
theorem lines_append_newline {line : List Char} (rest : List Char) (h : '\n' ∉ line) :
    lines (line ++ '\n' :: rest) = dropReturn line :: lines rest := by
  have hl := bne_newline_of_not_mem h
  have hd : (line ++ '\n' :: rest).dropWhile (· != '\n') = '\n' :: rest := by
    rw [List.dropWhile_append_of_pos hl]
    rfl
  have ht : (line ++ '\n' :: rest).takeWhile (· != '\n') = line := by
    rw [List.takeWhile_append_of_pos hl]
    simp
  obtain ⟨c, r, he⟩ : ∃ c r, line ++ '\n' :: rest = c :: r :=
    List.exists_cons_of_ne_nil (by simp)
  rw [he] at hd ht ⊢
  rw [lines_cons_of_dropWhile_cons hd, ht]

/-- A text without a line feed is one line. -/
theorem lines_of_not_mem {line : List Char} (hne : line ≠ []) (h : '\n' ∉ line) :
    lines line = [line] := by
  have hl := bne_newline_of_not_mem h
  obtain ⟨c, r, rfl⟩ := List.exists_cons_of_ne_nil hne
  rw [lines_cons_of_dropWhile_nil (List.dropWhile_eq_nil_iff.mpr hl),
    List.takeWhile_eq_self_iff.mpr hl]

theorem mem_of_mem_dropReturn {c : Char} {line : List Char} (h : c ∈ dropReturn line) :
    c ∈ line := by
  unfold dropReturn at h
  split at h
  · exact (List.dropLast_subset line) h
  · exact h

theorem newline_not_mem_takeWhile (cs : List Char) : '\n' ∉ cs.takeWhile (· != '\n') := by
  intro h
  simpa using List.mem_takeWhile_imp h

/-- No line has a line feed in it. -/
theorem newline_not_mem_of_mem_lines {cs line : List Char} (h : line ∈ lines cs) :
    '\n' ∉ line := by
  fun_induction lines cs with
  | case1 => simp at h
  | case2 c r first _ =>
      rw [List.mem_singleton] at h
      exact h ▸ newline_not_mem_takeWhile (c :: r)
  | case3 c r first _ rest _ ih =>
      rcases List.mem_cons.mp h with rfl | h
      · exact fun hc => newline_not_mem_takeWhile (c :: r) (mem_of_mem_dropReturn hc)
      · exact ih h

/-- Induction on the line feeds of a text. -/
theorem newlineInduction {motive : List Char → Prop}
    (last : ∀ line, '\n' ∉ line → motive line)
    (more : ∀ line rest, '\n' ∉ line → motive rest → motive (line ++ '\n' :: rest)) :
    ∀ cs, motive cs := by
  intro cs
  induction hn : cs.length using Nat.strong_induction_on generalizing cs with
  | h n ih =>
      by_cases hc : '\n' ∈ cs
      · obtain ⟨line, rest, rfl, hline⟩ := List.eq_append_cons_of_mem hc
        refine more line rest hline (ih rest.length ?_ rest rfl)
        rw [← hn, List.length_append, List.length_cons]
        omega
      · exact last cs hc

theorem lines_nil : lines [] = [] := by rw [lines]

theorem subset_of_mem_lines {cs line : List Char} (h : line ∈ lines cs) : line ⊆ cs := by
  induction cs using newlineInduction with
  | last last hlast =>
      by_cases hne : last = []
      · rw [hne, lines_nil] at h
        cases h
      · rw [lines_of_not_mem hne hlast, List.mem_singleton] at h
        exact h ▸ List.Subset.refl last
  | more first rest hfirst ih =>
      rw [lines_append_newline _ hfirst] at h
      rcases List.mem_cons.mp h with rfl | h
      · exact fun c hc => List.mem_append_left _ (mem_of_mem_dropReturn hc)
      · exact fun c hc => List.mem_append_right _ (List.mem_cons_of_mem _ (ih h hc))

/-- What holds of a carriage return holds all along a line that is written with one at its end if it
holds along the line without it. -/
theorem forall_mem_dropReturn_iff {P : Char → Prop} (hr : P '\r') {line : List Char} :
    (∀ c ∈ dropReturn line, P c) ↔ ∀ c ∈ line, P c := by
  constructor
  · intro h
    unfold dropReturn at h
    split_ifs at h with hlast
    · rw [← List.dropLast_append_getLast? _ hlast]
      exact List.forall_mem_append.mpr ⟨h, List.forall_mem_singleton.mpr hr⟩
    · exact h
  · intro h c hc
    exact h c (mem_of_mem_dropReturn hc)

/-- What holds of the characters of a line ending holds all along a text if it holds along each
line. -/
theorem forall_mem_lines_iff {P : Char → Prop} (hn : P '\n') (hr : P '\r') {cs : List Char} :
    (∀ line ∈ lines cs, ∀ c ∈ line, P c) ↔ ∀ c ∈ cs, P c := by
  induction cs using newlineInduction with
  | last last hlast =>
      by_cases hne : last = []
      · simp [hne, lines_nil]
      · rw [lines_of_not_mem hne hlast, List.forall_mem_singleton]
  | more first rest hfirst ih =>
      rw [lines_append_newline _ hfirst, List.forall_mem_cons, forall_mem_dropReturn_iff hr, ih,
        List.forall_mem_append, List.forall_mem_cons]
      exact and_congr_right fun _ => (and_iff_right hn).symm

/-- The lines of a text and of what comes after a line feed behind it. -/
theorem lines_append_newline_append (cs ds : List Char) :
    lines (cs ++ '\n' :: ds) = lines (cs ++ ['\n']) ++ lines ds := by
  induction cs using newlineInduction with
  | last line h => simp [lines_append_newline _ h, lines]
  | more line rest h ih =>
      rw [List.append_assoc, List.append_assoc, List.cons_append, List.cons_append,
        lines_append_newline _ h, lines_append_newline _ h, ih, List.cons_append]

/-- A text that ends in a line feed has as many lines as line feeds. -/
theorem length_lines_append_newline (cs : List Char) :
    (lines (cs ++ ['\n'])).length = cs.count '\n' + 1 := by
  induction cs using newlineInduction with
  | last line h => simp [lines_append_newline _ h, lines, List.count_eq_zero.mpr h]
  | more line rest h ih =>
      rw [List.append_assoc, List.cons_append, lines_append_newline _ h, List.length_cons, ih,
        List.count_append, List.count_eq_zero.mpr h, List.count_cons_self, Nat.zero_add]

/-- A line that can be found again after it was written: it is not empty, has no line feed in it,
and does not end in what could be taken for a part of the line ending. -/
structure Restorable (line : List Char) : Prop where
  ne_nil : line ≠ []
  newline_not_mem : '\n' ∉ line
  getLast?_ne : line.getLast? ≠ some '\r'

theorem Restorable.dropReturn {line : List Char} (h : Restorable line) :
    dropReturn line = line := if_neg h.getLast?_ne

/-- Lines joined by line feeds are found again. -/
theorem lines_joinLists {ls : List (List Char)} (h : ∀ line ∈ ls, Restorable line) :
    lines (joinLists ['\n'] ls) = ls := by
  induction ls with
  | nil => rw [joinLists, lines]
  | cons first rest ih =>
      have hf := h first List.mem_cons_self
      cases rest with
      | nil => exact lines_of_not_mem hf.ne_nil hf.newline_not_mem
      | cons second rest =>
          have ht := ih fun line hl => h line (List.mem_cons_of_mem _ hl)
          rw [joinLists, List.singleton_append, lines_append_newline _ hf.newline_not_mem,
            hf.dropReturn, ht]

/-- A line feed after the last line makes no difference. -/
theorem lines_joinLists_append_newline {ls : List (List Char)} (hne : ls ≠ [])
    (h : ∀ line ∈ ls, Restorable line) : lines (joinLists ['\n'] ls ++ ['\n']) = ls := by
  induction ls with
  | nil => exact absurd rfl hne
  | cons first rest ih =>
      have hf := h first List.mem_cons_self
      cases rest with
      | nil =>
          rw [joinLists, lines_append_newline _ hf.newline_not_mem, hf.dropReturn, lines]
      | cons second rest =>
          have ht := ih (by simp) fun line hl => h line (List.mem_cons_of_mem _ hl)
          rw [joinLists, List.singleton_append, List.append_assoc, List.cons_append,
            lines_append_newline _ hf.newline_not_mem, hf.dropReturn, ht]

end ResourceAgent.Text
