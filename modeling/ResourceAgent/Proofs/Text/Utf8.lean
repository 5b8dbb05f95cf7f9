import Mathlib.Data.List.Basic
import ResourceAgent.Text.Utf8

/-!
# The strict reader of bytes

The strict reader undoes the encoding of texts and does nothing else: it comes to a text exactly if
the bytes are the encoding of that text. In between stand the spellings, the sequences of bytes of
one character with its number. A character is encoded as its spelling, and a step of the reader
takes one spelling off the bytes.
-/
namespace ResourceAgent.Text

/-- The bytes spell the character of this number. The bounds on the second byte of a sequence shut
out numbers that have a shorter spelling, the surrogates, and numbers beyond the last character. -/
inductive Spells : List UInt8 → ℕ → Prop
  | one {a : UInt8} : a.toNat < 0x80 → Spells [a] a.toNat
  | two {a b : UInt8} : within 0xC2 0xDF a = true → within 0x80 0xBF b = true →
      Spells [a, b] (a.toNat % 32 * 64 + payload b)
  | three {a b c : UInt8} : within 0xE0 0xEF a = true → within 0x80 0xBF b = true →
      within 0x80 0xBF c = true →
      (a.toNat = 0xE0 → 0xA0 ≤ b.toNat) → (a.toNat = 0xED → b.toNat ≤ 0x9F) →
      Spells [a, b, c] (a.toNat % 16 * 4096 + payload b * 64 + payload c)
  | four {a b c d : UInt8} : within 0xF0 0xF4 a = true → within 0x80 0xBF b = true →
      within 0x80 0xBF c = true → within 0x80 0xBF d = true →
      (a.toNat = 0xF0 → 0x90 ≤ b.toNat) → (a.toNat = 0xF4 → b.toNat ≤ 0x8F) →
      Spells [a, b, c, d]
        (a.toNat % 8 * 262144 + payload b * 4096 + payload c * 64 + payload d)

/-- The first byte of a sequence of this many bytes, and the bounds that it puts on the second. -/
inductive Leads (a : UInt8) : ℕ → ℕ → ℕ → Prop
  | two : within 0xC2 0xDF a = true → Leads a 2 0x80 0xBF
  | three {low high : ℕ} : within 0xE0 0xEF a = true →
      (a.toNat = 0xE0 → low = 0xA0) → (a.toNat ≠ 0xE0 → low = 0x80) →
      (a.toNat = 0xED → high = 0x9F) → (a.toNat ≠ 0xED → high = 0xBF) → Leads a 3 low high
  | four {low high : ℕ} : within 0xF0 0xF4 a = true →
      (a.toNat = 0xF0 → low = 0x90) → (a.toNat ≠ 0xF0 → low = 0x80) →
      (a.toNat = 0xF4 → high = 0x8F) → (a.toNat ≠ 0xF4 → high = 0xBF) → Leads a 4 low high

variable {a b : UInt8} {char : Char} {n size : ℕ} {bytes rest : List UInt8}

theorem within_iff {low high : ℕ} :
    within low high b = true ↔ low ≤ b.toNat ∧ b.toNat ≤ high := by
  simp [within]

theorem ofNat_eq (h : n = b.toNat) : UInt8.ofNat n = b := by
  rw [h, UInt8.ofNat_toNat]

theorem toNat_ofNat (h : n < 0x100) : (UInt8.ofNat n).toNat = n := by
  rw [UInt8.toNat_ofNat', Nat.mod_eq_of_lt h]

theorem toNat_char_ofNat (h : n < 0xD800 ∨ 0xDFFF < n ∧ n < 0x110000) :
    (Char.ofNat n).toNat = n := by
  rw [Char.ofNat, dif_pos h]
  rfl

/-- What spells a character is its encoding. -/
theorem Spells.encodeChar_eq (h : Spells bytes n) : encodeChar (Char.ofNat n) = bytes := by
  unfold encodeChar
  cases h with
  | one ha =>
      rw [toNat_char_ofNat (by omega)]
      dsimp only
      rw [if_pos ha, UInt8.ofNat_toNat]
  | @two a b ha hb =>
      rw [within_iff] at ha hb
      unfold payload
      rw [toNat_char_ofNat (by omega)]
      dsimp only
      rw [if_neg (by omega), if_pos (by omega), ofNat_eq (b := a) (by omega),
        ofNat_eq (b := b) (by omega)]
  | @three a b c ha hb hc hshort hsurrogate =>
      rw [within_iff] at ha hb hc
      unfold payload
      rw [toNat_char_ofNat (by omega)]
      dsimp only
      rw [if_neg (by omega), if_neg (by omega), if_pos (by omega), ofNat_eq (b := a) (by omega),
        ofNat_eq (b := b) (by omega), ofNat_eq (b := c) (by omega)]
  | @four a b c d ha hb hc hd hshort hlast =>
      rw [within_iff] at ha hb hc hd
      unfold payload
      rw [toNat_char_ofNat (by omega)]
      dsimp only
      rw [if_neg (by omega), if_neg (by omega), if_neg (by omega), ofNat_eq (b := a) (by omega),
        ofNat_eq (b := b) (by omega), ofNat_eq (b := c) (by omega), ofNat_eq (b := d) (by omega)]

theorem Spells.cast {m : ℕ} (h : Spells bytes m) (he : m = n) : Spells bytes n := he ▸ h

theorem spells_encodeChar (char : Char) : Spells (encodeChar char) char.toNat := by
  have hchar : char.toNat < 0xD800 ∨ 0xDFFF < char.toNat ∧ char.toNat < 0x110000 := char.valid
  unfold encodeChar
  dsimp only
  generalize char.toNat = n at hchar ⊢
  have hpayload : ∀ m, payload (UInt8.ofNat (0x80 + m % 64)) = m % 64 := by
    intro m
    rw [payload, toNat_ofNat (by omega)]
    omega
  have hcontinues : ∀ m, within 0x80 0xBF (UInt8.ofNat (0x80 + m % 64)) = true := by
    intro m
    rw [within_iff, toNat_ofNat (by omega)]
    omega
  split_ifs with h₁ h₂ h₃
  · refine (Spells.one ?_).cast (toNat_ofNat (by omega))
    rw [toNat_ofNat (by omega)]
    exact h₁
  · refine (Spells.two ?_ (hcontinues n)).cast ?_
    · rw [within_iff, toNat_ofNat (by omega)]
      omega
    · rw [hpayload, toNat_ofNat (by omega)]
      omega
  · refine (Spells.three ?_ (hcontinues _) (hcontinues n) ?_ ?_).cast ?_
    · rw [within_iff, toNat_ofNat (by omega)]
      omega
    · rw [toNat_ofNat (by omega), toNat_ofNat (by omega)]
      omega
    · rw [toNat_ofNat (by omega), toNat_ofNat (by omega)]
      omega
    · rw [hpayload, hpayload, toNat_ofNat (by omega)]
      omega
  · refine (Spells.four ?_ (hcontinues _) (hcontinues _) (hcontinues n) ?_ ?_).cast ?_
    · rw [within_iff, toNat_ofNat (by omega)]
      omega
    · rw [toNat_ofNat (by omega), toNat_ofNat (by omega)]
      omega
    · rw [toNat_ofNat (by omega), toNat_ofNat (by omega)]
      omega
    · rw [hpayload, hpayload, hpayload, toNat_ofNat (by omega)]
      omega

/-- The reader knows the first bytes and the bounds. -/
theorem leadingByte_eq_some_iff {low high : ℕ} :
    leadingByte a = some (size, low, high) ↔ Leads a size low high := by
  unfold leadingByte
  simp only [Bool.and_eq_true, decide_eq_true_eq]
  constructor
  · intro h
    split_ifs at h with h₁ h₂ h₃ h₄ h₅ h₆ h₇
    all_goals cases h
    · exact .two (within_iff.mpr h₁)
    · exact .three (within_iff.mpr (by omega)) (by omega) (by omega) (by omega) (by omega)
    · exact .three (within_iff.mpr (by omega)) (by omega) (by omega) (by omega) (by omega)
    · exact .three (within_iff.mpr (by omega)) (by omega) (by omega) (by omega) (by omega)
    · exact .four (within_iff.mpr (by omega)) (by omega) (by omega) (by omega) (by omega)
    · exact .four (within_iff.mpr (by omega)) (by omega) (by omega) (by omega) (by omega)
    · exact .four (within_iff.mpr (by omega)) (by omega) (by omega) (by omega) (by omega)
  · intro h
    cases h with
    | two ha => exact if_pos (within_iff.mp ha)
    | three ha hfirst hlow hlast hhigh =>
        rw [within_iff] at ha
        rw [if_neg (by omega)]
        by_cases h₁ : a.toNat = 0xE0
        · rw [if_pos h₁, hfirst h₁, hhigh (by omega)]
        rw [if_neg h₁, hlow h₁]
        by_cases h₂ : a.toNat = 0xED
        · rw [if_pos h₂, hlast h₂]
        · rw [if_neg h₂, if_pos (by omega), hhigh h₂]
    | four ha hfirst hlow hlast hhigh =>
        rw [within_iff] at ha
        rw [if_neg (by omega), if_neg (by omega), if_neg (by omega), if_neg (by omega)]
        by_cases h₁ : a.toNat = 0xF0
        · rw [if_pos h₁, hfirst h₁, hhigh (by omega)]
        rw [if_neg h₁, hlow h₁]
        by_cases h₂ : a.toNat = 0xF4
        · rw [if_neg (by omega), if_pos h₂, hlast h₂]
        · rw [if_pos (by omega), hhigh h₂]

theorem leads_three (h : within 0xE0 0xEF a = true) :
    Leads a 3 (if a.toNat = 0xE0 then 0xA0 else 0x80) (if a.toNat = 0xED then 0x9F else 0xBF) :=
  .three h (fun h => if_pos h) (fun h => if_neg h) (fun h => if_pos h) fun h => if_neg h

theorem leads_four (h : within 0xF0 0xF4 a = true) :
    Leads a 4 (if a.toNat = 0xF0 then 0x90 else 0x80) (if a.toNat = 0xF4 then 0x8F else 0xBF) :=
  .four h (fun h => if_pos h) (fun h => if_neg h) (fun h => if_pos h) fun h => if_neg h

theorem not_not_within_iff {low high : ℕ} :
    ¬ (!within low high b) = true ↔ low ≤ b.toNat ∧ b.toNat ≤ high := by
  rw [Bool.not_eq_true', Bool.not_eq_false, within_iff]

/-- What a step takes for a character is a spelling of it. -/
theorem exists_spells_of_utf8Step (h : utf8Step a rest = .char char size) :
    ∃ bytes tail n, Spells bytes n ∧ char = Char.ofNat n ∧ a :: rest = bytes ++ tail ∧
      size = bytes.length := by
  unfold utf8Step at h
  split_ifs at h with ha
  · cases h
    exact ⟨[a], rest, _, .one ha, rfl, rfl, rfl⟩
  split at h
  · cases h
  next length low high hlead =>
  rcases rest with _ | ⟨b, rest⟩
  · cases h
  dsimp only at h
  split_ifs at h with hb h2 h3
  all_goals
    rw [not_not_within_iff] at hb
    have hleads := leadingByte_eq_some_iff.mp hlead
  · cases hleads with
    | two ha =>
        cases h
        exact ⟨[a, b], rest, _, .two ha (within_iff.mpr hb), rfl, rfl, rfl⟩
    | _ => cases h2
  · rcases rest with _ | ⟨c, rest⟩
    · cases h
    dsimp only at h
    split_ifs at h with hc
    rw [not_not_within_iff, ← within_iff] at hc
    cases hleads with
    | three ha hlow hhigh hshort hsurrogate =>
        cases h
        exact ⟨[a, b, c], rest, _, .three ha (within_iff.mpr (by omega)) hc (by omega) (by omega),
          rfl, rfl, rfl⟩
    | _ => cases h3
  · rcases rest with _ | ⟨c, rest⟩
    · cases h
    dsimp only at h
    split_ifs at h with hc
    rcases rest with _ | ⟨d, rest⟩
    · cases h
    dsimp only at h
    split_ifs at h with hd
    rw [not_not_within_iff, ← within_iff] at hc hd
    cases hleads with
    | two ha => exact absurd rfl h2
    | three ha hlow hhigh hshort hsurrogate => exact absurd rfl h3
    | four ha hlow hhigh hshort hlast =>
        cases h
        exact ⟨[a, b, c, d], rest, _,
          .four ha (within_iff.mpr (by omega)) hc hd (by omega) (by omega), rfl, rfl, rfl⟩

/-- A step takes a spelling off the bytes. -/
theorem Spells.utf8Step_eq {tail : List UInt8} (h : Spells (a :: tail) n) (rest : List UInt8) :
    utf8Step a (tail ++ rest) = .char (Char.ofNat n) (tail.length + 1) := by
  cases h with
  | one ha => exact if_pos ha
  | @two _ b ha hb =>
      have hlead := leadingByte_eq_some_iff.mpr (.two ha)
      rw [within_iff] at ha
      simp [utf8Step, hlead, hb, show ¬ a.toNat < 0x80 by omega]
  | @three _ b c ha hb hc hshort hsurrogate =>
      have hlead := leadingByte_eq_some_iff.mpr (leads_three ha)
      rw [within_iff] at ha hb
      have hsecond : within (if a.toNat = 0xE0 then 0xA0 else 0x80)
          (if a.toNat = 0xED then 0x9F else 0xBF) b = true := by
        rw [within_iff]
        split_ifs
        all_goals omega
      simp [utf8Step, hlead, hsecond, hc, show ¬ a.toNat < 0x80 by omega]
  | @four _ b c d ha hb hc hd hshort hlast =>
      have hlead := leadingByte_eq_some_iff.mpr (leads_four ha)
      rw [within_iff] at ha hb
      have hsecond : within (if a.toNat = 0xF0 then 0x90 else 0x80)
          (if a.toNat = 0xF4 then 0x8F else 0xBF) b = true := by
        rw [within_iff]
        split_ifs
        all_goals omega
      simp [utf8Step, hlead, hsecond, hc, hd, show ¬ a.toNat < 0x80 by omega]

theorem exists_encodeChar (char : Char) : ∃ first bytes, encodeChar char = first :: bytes := by
  have hspells := spells_encodeChar char
  cases he : encodeChar char with
  | nil =>
      rw [he] at hspells
      cases hspells
  | cons first bytes => exact ⟨first, bytes, rfl⟩

/-- A step takes the encoding of a character off the bytes, and nothing else. -/
theorem utf8Step_eq_char_iff :
    utf8Step a rest = .char char size ↔
      ∃ tail, a :: rest = encodeChar char ++ tail ∧ size = (encodeChar char).length := by
  constructor
  · intro h
    obtain ⟨bytes, tail, n, hspells, rfl, hbytes, hsize⟩ := exists_spells_of_utf8Step h
    rw [hspells.encodeChar_eq]
    exact ⟨tail, hbytes, hsize⟩
  · intro h
    obtain ⟨tail, hbytes, rfl⟩ := h
    obtain ⟨first, bytes, he⟩ := exists_encodeChar char
    have hspells := spells_encodeChar char
    rw [he] at hspells
    rw [he, List.cons_append] at hbytes
    cases hbytes
    rw [hspells.utf8Step_eq, Char.ofNat_toNat, he, List.length_cons]

/-- The bytes of a character that was read are passed over. -/
theorem decodeFrom_append (index : ℕ) (bytes tail : List UInt8) :
    decodeFrom index bytes.length (bytes ++ tail) =
      decodeFrom (index + bytes.length) 0 tail := by
  induction bytes generalizing index with
  | nil => rfl
  | cons b bytes ih =>
      rw [List.length_cons, List.cons_append, decodeFrom, ih, Nat.add_right_comm, Nat.add_assoc]

/-- After the encoding of a character the reader goes on with what follows. -/
theorem decodeFrom_encodeChar_append (index : ℕ) (char : Char) (tail : List UInt8) :
    decodeFrom index 0 (encodeChar char ++ tail) =
      (decodeFrom (index + (encodeChar char).length) 0 tail).map (char :: ·) := by
  obtain ⟨first, bytes, he⟩ := exists_encodeChar char
  have hstep : utf8Step first (bytes ++ tail) = .char char (encodeChar char).length :=
    utf8Step_eq_char_iff.mpr ⟨tail, by rw [he, List.cons_append], rfl⟩
  rw [he, List.cons_append, decodeFrom, hstep, he, List.length_cons]
  dsimp only
  rw [Nat.add_sub_cancel, decodeFrom_append, Nat.add_right_comm, Nat.add_assoc]

theorem decodeFrom_flatMap (index : ℕ) (chars : List Char) :
    decodeFrom index 0 (chars.flatMap encodeChar) = .ok chars := by
  induction chars generalizing index with
  | nil => rfl
  | cons char chars ih =>
      rw [List.flatMap_cons, decodeFrom_encodeChar_append, ih]
      rfl

theorem eq_flatMap_of_decodeFrom {index : ℕ} {chars : List Char}
    (h : decodeFrom index 0 bytes = .ok chars) : bytes = chars.flatMap encodeChar := by
  induction hn : bytes.length using Nat.strongRecOn generalizing bytes index chars with
  | ind n ih =>
      rcases bytes with _ | ⟨first, rest⟩
      · cases h
        rfl
      cases hstep : utf8Step first rest with
      | char char size =>
          obtain ⟨tail, hbytes, -⟩ := utf8Step_eq_char_iff.mp hstep
          rw [hbytes, decodeFrom_encodeChar_append] at h
          obtain ⟨first', bytes', he⟩ := exists_encodeChar char
          cases hrest : decodeFrom (index + (encodeChar char).length) 0 tail with
          | error fault =>
              rw [hrest] at h
              cases h
          | ok chars' =>
              rw [hrest] at h
              cases h
              have hshorter : tail.length < n := by
                rw [← hn, hbytes, he, List.length_append, List.length_cons]
                omega
              rw [hbytes, ih _ hshorter hrest rfl, List.flatMap_cons]
      | invalid size =>
          rw [decodeFrom, hstep] at h
          cases h
      | unfinished =>
          rw [decodeFrom, hstep] at h
          cases h

/-- The strict reader comes to a text exactly if the bytes are its encoding. -/
theorem decodeUtf8_eq_ok_iff {text : String} :
    decodeUtf8 bytes = .ok text ↔ bytes = encodeUtf8 text := by
  unfold decodeUtf8 encodeUtf8
  constructor
  · intro h
    cases hd : decodeFrom 0 0 bytes with
    | error fault =>
        rw [hd] at h
        cases h
    | ok chars =>
        rw [hd] at h
        cases h
        rw [String.toList_ofList]
        exact eq_flatMap_of_decodeFrom hd
  · intro h
    rw [h, decodeFrom_flatMap, Except.map, String.ofList_toList]

theorem encodeUtf8_inj {s t : String} : encodeUtf8 s = encodeUtf8 t ↔ s = t := by
  refine ⟨fun h => ?_, congrArg encodeUtf8⟩
  have hs : decodeUtf8 (encodeUtf8 s) = .ok s := decodeUtf8_eq_ok_iff.mpr rfl
  have ht : decodeUtf8 (encodeUtf8 s) = .ok t := decodeUtf8_eq_ok_iff.mpr h
  cases hs.symm.trans ht
  rfl

end ResourceAgent.Text
