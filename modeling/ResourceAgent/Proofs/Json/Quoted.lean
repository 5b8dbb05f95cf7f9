import Mathlib.Data.List.Basic
import Mathlib.Tactic.IntervalCases
import ResourceAgent.Json.Reader
import ResourceAgent.Json.Writer

/-!
# Strings between quotes

What is written for a character is read back as the character, and so is a string; a text that
starts with a string tells where the string ends.
-/
namespace ResourceAgent.Json

/-- The hexadecimal digits of a control character spell it. -/
theorem readNatural_hexDigits {n : ℕ} (h : n < 32) :
    Text.readNatural 16 ['0', '0', hexDigit (n / 16), hexDigit (n % 16)] = some n := by
  interval_cases n <;> decide

theorem readEscape_control {c : Char} (h : c.toNat < 32) (cs : List Char) :
    readEscape ('u' :: '0' :: '0' :: hexDigit (c.toNat / 16) :: hexDigit (c.toNat % 16) :: cs) =
      .ok (c, cs) := by
  have hlow : ¬(56320 ≤ c.toNat ∧ c.toNat ≤ 57343) := by omega
  have hplain : c.toNat < 55296 ∨ 56319 < c.toNat := by omega
  simp [readEscape, readUnicodeEscape, readHex4, readNatural_hexDigits h, bind, Except.bind, pure,
    Except.pure, hlow, hplain]

/-- A written character is one step of the reader. -/
theorem readStringRest_escapeChar (fuel : ℕ) (acc : List Char) (c : Char) (cs : List Char) :
    readStringRest (fuel + 1) acc (escapeChar c ++ cs) = readStringRest fuel (c :: acc) cs := by
  unfold escapeChar
  split_ifs with hquote hback h8 h9 ha hc hd hctrl
  · subst hquote; rfl
  · subst hback; rfl
  · subst h8; rfl
  · subst h9; rfl
  · subst ha; rfl
  · subst hc; rfl
  · subst hd; rfl
  · rw [List.cons_append]
    simp [readStringRest, readEscape_control hctrl]
  · simp [readStringRest, hquote, hback, hctrl]

theorem readStringRest_flatMap (s : List Char) {fuel : ℕ} (h : s.length < fuel) (acc : List Char)
    (cs : List Char) :
    readStringRest fuel acc (s.flatMap escapeChar ++ '"' :: cs) =
      .ok (String.ofList (acc.reverse ++ s), cs) := by
  induction s generalizing fuel acc with
  | nil =>
      obtain ⟨fuel, rfl⟩ := Nat.exists_eq_succ_of_ne_zero (Nat.ne_zero_of_lt h)
      simp [readStringRest]
  | cons c s ih =>
      obtain ⟨fuel, rfl⟩ := Nat.exists_eq_succ_of_ne_zero (Nat.ne_zero_of_lt h)
      rw [List.flatMap_cons, List.append_assoc, Nat.succ_eq_add_one, readStringRest_escapeChar,
        ih (by simpa using h)]
      simp

theorem escapeChar_ne_nil (c : Char) : escapeChar c ≠ [] := by
  unfold escapeChar
  split_ifs <;> simp

/-- No string is longer than what is written for it. -/
theorem length_le_flatMap_escapeChar (s : List Char) :
    s.length ≤ (s.flatMap escapeChar).length := by
  induction s with
  | nil => simp
  | cons c s ih =>
      have h := List.length_pos_iff.mpr (escapeChar_ne_nil c)
      rw [List.flatMap_cons, List.length_append, List.length_cons]
      omega

theorem writeString_append (s : String) (cs : List Char) :
    writeString s ++ cs = '"' :: (s.toList.flatMap escapeChar ++ '"' :: cs) := by
  simp [writeString]

/-- A string is read back, if there is fuel for the text. -/
theorem readStringRest_writeString (s : String) {fuel : ℕ} (cs : List Char)
    (h : (writeString s).length ≤ fuel) :
    readStringRest fuel [] (s.toList.flatMap escapeChar ++ '"' :: cs) = .ok (s, cs) := by
  have hlen := length_le_flatMap_escapeChar s.toList
  have hfuel : s.toList.length < fuel := by
    simp only [writeString, List.length_append, List.length_cons] at h
    omega
  rw [readStringRest_flatMap s.toList hfuel]
  simp

/-- A text that starts with a string tells which string it is and where it ends. -/
theorem writeString_append_inj {s t : String} {r r' : List Char}
    (h : writeString s ++ r = writeString t ++ r') : s = t ∧ r = r' := by
  rw [writeString_append, writeString_append, List.cons.injEq] at h
  have hs := readStringRest_writeString s r
    (Nat.le_add_right (writeString s).length (writeString t).length)
  have ht := readStringRest_writeString t r'
    (Nat.le_add_left (writeString t).length (writeString s).length)
  rw [h.2, ht] at hs
  cases hs
  exact ⟨rfl, rfl⟩

end ResourceAgent.Json
