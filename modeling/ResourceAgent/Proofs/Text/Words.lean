import ResourceAgent.Proofs.Text.Blank

/-!
# Words of a text

A word is not empty and has no blank in it. Blanks at either end of a text change none of its words,
and a text of blanks has none.
-/
namespace ResourceAgent.Text

theorem words_of_trimStart_eq_nil {cs : List Char} (h : trimStart cs = []) : words cs = [] := by
  rw [words]
  split
  · rfl
  · simp_all

theorem words_of_trimStart_eq_cons {c : Char} {cs r : List Char} (h : trimStart cs = c :: r) :
    words cs = (c :: r.takeWhile (!isBlank ·)) :: words (r.dropWhile (!isBlank ·)) := by
  rw [words]
  split
  · simp_all
  · next c' r' h' =>
      obtain ⟨rfl, rfl⟩ := List.cons.inj (h.symm.trans h')
      rfl

@[simp] theorem words_nil : words [] = [] := words_of_trimStart_eq_nil rfl

theorem words_eq_nil_iff {cs : List Char} : words cs = [] ↔ trim cs = [] := by
  rw [trim_eq_nil_iff, ← trimStart_eq_nil_iff]
  cases h : trimStart cs with
  | nil => simp [words_of_trimStart_eq_nil h]
  | cons c r => simp [words_of_trimStart_eq_cons h]

theorem ne_nil_and_not_isBlank_of_mem_words {word cs : List Char} (h : word ∈ words cs) :
    word ≠ [] ∧ ∀ c ∈ word, isBlank c = false := by
  fun_induction words cs with
  | case1 cs _ => cases h
  | case2 cs c r hcs ih =>
      rcases List.mem_cons.mp h with rfl | h
      · refine ⟨List.cons_ne_nil _ _, List.forall_mem_cons.mpr ⟨?_, ?_⟩⟩
        · exact not_isBlank_head_trimStart hcs
        · intro d hd
          simpa using List.mem_takeWhile_imp hd
      · exact ih h

theorem words_trimStart (cs : List Char) : words (trimStart cs) = words cs := by
  have hidem : trimStart (trimStart cs) = trimStart cs := List.dropWhile_idempotent isBlank cs
  cases h : trimStart cs with
  | nil => rw [words_of_trimStart_eq_nil h, words_of_trimStart_eq_nil rfl]
  | cons c r =>
      rw [h] at hidem
      rw [words_of_trimStart_eq_cons h, words_of_trimStart_eq_cons hidem]

/-- A word ends where a blank stands. -/
theorem words_run {c : Char} {cs run rest : List Char} (h : trimStart cs = c :: (run ++ rest))
    (hrun : ∀ d ∈ run, isBlank d = false) (hrest : ∀ d ∈ rest.head?, isBlank d = true) :
    words cs = (c :: run) :: words rest := by
  have hpos : ∀ d ∈ run, (!isBlank d) = true := by
    intro d hd
    rw [hrun d hd]
    rfl
  have hstop : rest.takeWhile (!isBlank ·) = [] ∧ rest.dropWhile (!isBlank ·) = rest := by
    cases rest with
    | nil => exact ⟨rfl, rfl⟩
    | cons d rest => simp [hrest d rfl]
  rw [words_of_trimStart_eq_cons h, List.takeWhile_append_of_pos hpos,
    List.dropWhile_append_of_pos hpos, hstop.1, hstop.2, List.append_nil]

theorem words_append_of_blank {tail : List Char} (h : ∀ c ∈ tail, isBlank c = true)
    (cs : List Char) : words (cs ++ tail) = words cs := by
  fun_induction words cs with
  | case1 cs hcs =>
      have hall := List.forall_mem_append.mpr ⟨trimStart_eq_nil_iff.mp hcs, h⟩
      exact words_of_trimStart_eq_nil (trimStart_eq_nil_iff.mpr hall)
  | case2 cs c r hcs ih =>
      let run := r.takeWhile (!isBlank ·)
      let rest := r.dropWhile (!isBlank ·)
      have hstart : trimStart (cs ++ tail) = c :: (run ++ (rest ++ tail)) := by
        have hne : (cs.dropWhile isBlank).isEmpty = false := by
          rw [← trimStart, hcs]
          rfl
        have hr : run ++ rest = r := List.takeWhile_append_dropWhile
        calc trimStart (cs ++ tail)
            = trimStart cs ++ tail := by rw [trimStart, List.dropWhile_append, hne]; rfl
          _ = c :: (run ++ (rest ++ tail)) := by
              rw [hcs, ← List.append_assoc, hr, List.cons_append]
      have hrun : ∀ d ∈ run, isBlank d = false := by
        intro d hd
        simpa using List.mem_takeWhile_imp hd
      have hrest : ∀ d ∈ (rest ++ tail).head?, isBlank d = true := by
        intro d hd
        cases he : rest with
        | nil =>
            rw [he] at hd
            exact h d (List.mem_of_mem_head? hd)
        | cons e rest' =>
            have hhead := List.head?_dropWhile_not (!isBlank ·) r
            rw [show r.dropWhile (!isBlank ·) = e :: rest' from he] at hhead
            rw [he] at hd
            cases hd
            simpa using hhead
      rw [words_run hstart hrun hrest, ih]

/-- Trimming changes no word. -/
theorem words_trim (cs : List Char) : words (trim cs) = words cs := by
  have hsplit : trim cs ++ ((trimStart cs).reverse.takeWhile isBlank).reverse = trimStart cs := by
    rw [trim, trimEnd, trimStart, ← List.reverse_append, List.takeWhile_append_dropWhile,
      List.reverse_reverse]
  have hblank : ∀ c ∈ ((trimStart cs).reverse.takeWhile isBlank).reverse, isBlank c = true := by
    intro c hc
    exact List.mem_takeWhile_imp (List.mem_reverse.mp hc)
  calc words (trim cs)
      = words (trimStart cs) := by rw [← hsplit, words_append_of_blank hblank]
    _ = words cs := words_trimStart cs

end ResourceAgent.Text
