import Mathlib.Data.List.TakeWhile
import Mathlib.Tactic.IntervalCases
import ResourceAgent.Text.Numeral

/-!
# Numbers in text and back

The decimal digits of a number are read back as that number, and where a text goes on after a
number with anything that could not be part of one, the text tells where the number ends.
-/
namespace ResourceAgent.Text

/-- Two texts that start with runs of some kind of characters, and go on with another character or
not at all, start with the same run if they are equal. -/
theorem run_append_inj {α : Type} {p : α → Bool} {run run' rest rest' : List α}
    (h : ∀ c ∈ run, p c = true) (h' : ∀ c ∈ run', p c = true)
    (hr : ∀ c ∈ rest.head?, p c = false) (hr' : ∀ c ∈ rest'.head?, p c = false)
    (he : run ++ rest = run' ++ rest') : run = run' ∧ rest = rest' := by
  have htake : ∀ {run rest : List α}, (∀ c ∈ run, p c = true) →
      (∀ c ∈ rest.head?, p c = false) → (run ++ rest).takeWhile p = run := by
    intro run rest h hr
    rw [List.takeWhile_append_of_pos h]
    rcases rest with _ | ⟨c, rest⟩
    · simp
    · simp [hr c rfl]
  have hrun : run = run' := by rw [← htake h hr, ← htake h' hr', he]
  subst hrun
  exact ⟨rfl, List.append_cancel_left he⟩

/-- What stands before the first mark of a kind, and what follows it, is told by the text. -/
theorem mark_append_inj {α : Type} [DecidableEq α] {mark : α} {before before' after after' : List α}
    (h : mark ∉ before) (h' : mark ∉ before')
    (he : before ++ mark :: after = before' ++ mark :: after') :
    before = before' ∧ after = after' := by
  have hother : ∀ {run : List α}, mark ∉ run → ∀ c ∈ run, decide (c ≠ mark) = true :=
    fun hm c hc => decide_eq_true fun heq => hm (heq ▸ hc)
  have hstop : ∀ after : List α, ∀ c ∈ (mark :: after).head?, decide (c ≠ mark) = false := by
    rintro after c ⟨⟩
    exact decide_eq_false (not_not_intro rfl)
  obtain ⟨hrun, hrest⟩ := run_append_inj (hother h) (hother h') (hstop _) (hstop _) he
  exact ⟨hrun, (List.cons.inj hrest).2⟩

theorem digitValue_of_isDigit {c : Char} (h : c.isDigit = true) :
    digitValue c = some (c.toNat - 48) := by
  have hc : ('0' ≤ c && c ≤ '9') = true := h
  rw [digitValue, if_pos hc]

theorem toNat_of_isDigit {c : Char} (h : c.isDigit = true) : 48 ≤ c.toNat ∧ c.toNat ≤ 57 := by
  simp only [Char.isDigit, Bool.and_eq_true, decide_eq_true_eq] at h
  exact ⟨h.1, h.2⟩

theorem foldlM_pushDigit {cs : List Char} (h : ∀ c ∈ cs, c.isDigit = true) (n : ℕ) :
    cs.foldlM (pushDigit 10) n = some (Nat.ofDigitChars 10 cs n) := by
  induction cs generalizing n with
  | nil => rfl
  | cons c cs ih =>
      obtain ⟨hc, hcs⟩ := List.forall_mem_cons.mp h
      have hd := toNat_of_isDigit hc
      have hpush : pushDigit 10 n c = some (10 * n + (c.toNat - 48)) := by
        have hlt : c.toNat - 48 < 10 := by omega
        simp [pushDigit, digitValue_of_isDigit hc, hlt, Nat.mul_comm]
      rw [List.foldlM_cons, hpush, Nat.ofDigitChars_cons]
      exact ih hcs _

theorem isDigit_toString {n : ℕ} {c : Char} (h : c ∈ (toString n).toList) : c.isDigit = true := by
  rw [Nat.toString_eq_ofList_toDigits, String.toList_ofList] at h
  exact Nat.isDigit_of_mem_toDigits (by omega) (by omega) h

/-- A number does not start with anything but a digit. -/
theorem toString_ne_cons {c : Char} (hc : c.isDigit = false) (n : ℕ) (cs : List Char) :
    (toString n).toList ≠ c :: cs := by
  intro h
  have hd : c.isDigit = true := isDigit_toString (n := n) (by rw [h]; exact List.mem_cons_self)
  rw [hc] at hd
  cases hd

/-- The digits of a number are read back as the number. -/
theorem readNatural_toString (n : ℕ) : readNatural 10 (toString n).toList = some n := by
  rw [readNatural, if_neg (by simp),
    foldlM_pushDigit fun c hc => isDigit_toString hc, Nat.toString_eq_ofList_toDigits,
    String.toList_ofList, Nat.ofDigitChars_ten_toDigits]

/-- A number of more than one digit does not start with a zero. -/
theorem toString_ne_zero_cons (n : ℕ) (d : Char) (ds : List Char) :
    (toString n).toList ≠ '0' :: d :: ds := by
  rw [Nat.toString_eq_ofList_toDigits, String.toList_ofList]
  suffices hpos : ∀ n, 0 < n → (Nat.toDigits 10 n).head? ≠ some '0' by
    rcases Nat.eq_zero_or_pos n with rfl | hn
    · simp [Nat.toDigits_zero]
    · intro he
      exact hpos n hn (by rw [he]; rfl)
  intro n hn
  induction n using Nat.strong_induction_on with
  | h n ih =>
      rcases Nat.lt_or_ge n 10 with hlt | hge
      · rw [Nat.toDigits_of_lt_base hlt]
        interval_cases n <;> decide
      · have hfirst := ih (n / 10) (by omega) (by omega)
        rw [Nat.toDigits_of_base_le (by omega) hge]
        cases hd : Nat.toDigits 10 (n / 10) with
        | nil => exact absurd hd Nat.toDigits_ne_nil
        | cons d ds =>
            rw [hd] at hfirst
            exact hfirst

theorem toWord_toNat (n : UInt64) : toWord n.toNat = some n := by
  have hlt : n.toNat < wordLimit := n.toNat_lt
  simp [toWord, hlt]

theorem readWordDigits_toString (n : UInt64) :
    readWordDigits 10 (toString n.toNat).toList = some n := by
  rw [readWordDigits, readNatural_toString]
  exact toWord_toNat n

theorem readWord_toString (n : UInt64) : readWord (toString n.toNat).toList = some n := by
  unfold readWord
  split
  · next r hr => exact absurd hr (toString_ne_cons (by decide) _ r)
  · exact readWordDigits_toString n

/-- A character that a number may be written with. -/
def isNumeric (c : Char) : Bool := c.isDigit || c == '-'

theorem toString_negSucc (n : ℕ) :
    (toString (Int.negSucc n)).toList = '-' :: (toString (n + 1)).toList := by
  have h : toString (Int.negSucc n) = "-" ++ toString (n + 1) := rfl
  rw [h, String.toList_append]
  rfl

theorem toString_int_ne_nil (n : ℤ) : (toString n).toList ≠ [] := by
  cases n with
  | ofNat n =>
      have h : (toString n).toList ≠ [] := by simp
      exact h
  | negSucc n =>
      rw [toString_negSucc]
      exact List.cons_ne_nil _ _

theorem isNumeric_toString {n : ℤ} {c : Char} (h : c ∈ (toString n).toList) :
    isNumeric c = true := by
  cases n with
  | ofNat n =>
      have hd : c.isDigit = true := isDigit_toString h
      simp [isNumeric, hd]
  | negSucc n =>
      rw [toString_negSucc, List.mem_cons] at h
      rcases h with rfl | h
      · decide
      · simp [isNumeric, isDigit_toString h]

theorem toString_nat_inj {m n : ℕ} (h : (toString m).toList = (toString n).toList) : m = n := by
  have hm := readNatural_toString m
  rw [h, readNatural_toString] at hm
  exact (Option.some_inj.mp hm).symm

theorem toString_int_inj {m n : ℤ} (h : (toString m).toList = (toString n).toList) : m = n := by
  cases m with
  | ofNat m =>
      cases n with
      | ofNat n => exact congrArg Int.ofNat (toString_nat_inj h)
      | negSucc n =>
          exact absurd (h.trans (toString_negSucc n)) (toString_ne_cons (by decide) m _)
  | negSucc m =>
      cases n with
      | ofNat n =>
          exact absurd (h.symm.trans (toString_negSucc m)) (toString_ne_cons (by decide) n _)
      | negSucc n =>
          rw [toString_negSucc, toString_negSucc, List.cons.injEq] at h
          have he := toString_nat_inj h.2
          rw [Nat.succ_inj.mp he]

/-- The text of an integer ends where the characters of numbers end. -/
theorem toString_append_inj {m n : ℤ} {rest rest' : List Char}
    (hr : ∀ c ∈ rest.head?, isNumeric c = false) (hr' : ∀ c ∈ rest'.head?, isNumeric c = false)
    (he : (toString m).toList ++ rest = (toString n).toList ++ rest') : m = n ∧ rest = rest' := by
  obtain ⟨hs, hrest⟩ := run_append_inj (fun _ => isNumeric_toString) (fun _ => isNumeric_toString)
    hr hr' he
  exact ⟨toString_int_inj hs, hrest⟩

/-- The same for natural numbers, which are written like the integers that they are. -/
theorem toString_nat_append_inj {m n : ℕ} {rest rest' : List Char}
    (hr : ∀ c ∈ rest.head?, isNumeric c = false) (hr' : ∀ c ∈ rest'.head?, isNumeric c = false)
    (he : (toString m).toList ++ rest = (toString n).toList ++ rest') : m = n ∧ rest = rest' := by
  obtain ⟨h, hrest⟩ := toString_append_inj (m := (m : ℤ)) (n := (n : ℤ)) hr hr' he
  exact ⟨by exact_mod_cast h, hrest⟩

end ResourceAgent.Text
