import Mathlib.Data.List.TakeWhile
import ResourceAgent.Proofs.Json.Quoted
import ResourceAgent.Yaml.Scalar

/-!
# JSON scalars read as YAML

A JSON string of printable ASCII characters is a double-quoted scalar of the same text: the only
escapes in it are those of the quote and of the backslash, which YAML knows too, and blanks that no
line break is near are kept. A word that an indicator follows is a plain scalar. Strings with other
characters are not treated here; some of them are not the same in YAML.
-/
namespace ResourceAgent.Yaml

open Json (escapeChar writeString)

/-- A character from the space to the tilde. -/
def isPrintable (c : Char) : Bool := 0x20 ≤ c.toNat && c.toNat ≤ 0x7e

def IsPrintableText (s : String) : Prop := ∀ c ∈ s.toList, isPrintable c = true

instance (s : String) : Decidable (IsPrintableText s) :=
  decidable_of_iff (s.toList.all isPrintable = true) List.all_eq_true

theorem isPrintable_iff {c : Char} : isPrintable c = true ↔ 0x20 ≤ c.toNat ∧ c.toNat ≤ 0x7e := by
  simp [isPrintable]

theorem isAllowed_of_isPrintable {c : Char} (h : isPrintable c = true) : isAllowed c = true := by
  rw [isPrintable_iff] at h
  simp [isAllowed, h]

theorem isBreak_of_isPrintable {c : Char} (h : isPrintable c = true) : isBreak c = false := by
  have hne : ∀ d : Char, isPrintable d = false → c ≠ d := by
    rintro d hd rfl
    cases h.symm.trans hd
  simp [isBreak, hne '\n' (by decide), hne '\r' (by decide), hne '\u0085' (by decide),
    hne '\u2028' (by decide), hne '\u2029' (by decide)]

theorem isWhite_of_isPrintable {c : Char} (h : isPrintable c = true) (hne : c ≠ ' ') :
    isWhite c = false := by
  have htab : c ≠ '\t' := by
    rintro rfl
    cases h
  simp [isWhite, hne, htab]

/-- Of the printable characters the quote and the backslash are escaped, by a backslash. -/
theorem escapeChar_of_isPrintable {c : Char} (h : isPrintable c = true) :
    escapeChar c = if c = '"' ∨ c = '\\' then ['\\', c] else [c] := by
  have hge := (isPrintable_iff.mp h).1
  have hne : ∀ d : Char, d.toNat < 0x20 → c ≠ d := by
    rintro d hd rfl
    omega
  have hcontrol : ¬c.toNat < 0x20 := by omega
  unfold escapeChar
  split_ifs with hquote hback <;> simp_all

theorem Mark.advance_advance (m : Mark) (a b : ℕ) :
    (m.advance a).advance b = m.advance (a + b) := by
  simp [advance, Nat.add_assoc]

theorem Mark.next_eq_advance (m : Mark) : m.next = m.advance 1 := rfl

/-- A written character that is no blank is one step of the reader. -/
theorem doublePart_escapeChar {c : Char} (h : isPrintable c = true) (hne : c ≠ ' ')
    (acc : List Char) (mark : Mark) (tail : List Char) :
    doublePart 0 acc mark (escapeChar c ++ tail) =
      doublePart 0 (c :: acc) (mark.advance (escapeChar c).length) tail := by
  rw [escapeChar_of_isPrintable h]
  split_ifs with hescaped
  · rcases hescaped with rfl | rfl
    · rfl
    · rfl
  · rw [not_or] at hescaped
    simp [doublePart, isWhite_of_isPrintable h hne, isBreak_of_isPrintable h, hescaped,
      Mark.next_eq_advance]

theorem doublePart_flatMap {s : List Char} (h : ∀ c ∈ s, isPrintable c = true)
    (hne : ∀ c ∈ s, c ≠ ' ') (acc : List Char) (mark : Mark) (tail : List Char) :
    doublePart 0 acc mark (s.flatMap escapeChar ++ tail) =
      doublePart 0 (s.reverse ++ acc) (mark.advance (s.flatMap escapeChar).length) tail := by
  induction s generalizing acc mark with
  | nil => rfl
  | cons c s ih =>
      rw [List.forall_mem_cons] at h hne
      rw [List.flatMap_cons, List.append_assoc, doublePart_escapeChar h.1 hne.1, ih h.2 hne.2]
      simp [Mark.advance_advance]

theorem readGap_replicate {c : Char} (hwhite : isWhite c = false) (hbreak : isBreak c = false)
    (n : ℕ) (blanks : List Char) (mark : Mark) (rest : List Char) :
    readGap 0 { blanks } mark (List.replicate n ' ' ++ c :: rest) =
      .ok ({ blanks := List.replicate n ' ' ++ blanks }, ⟨mark.advance n, c :: rest⟩) := by
  induction n generalizing blanks mark with
  | zero =>
      have hreturn : c ≠ '\r' := by
        rintro rfl
        cases hbreak
      rw [List.replicate_zero, List.nil_append, readGap]
      · simp [hwhite, hbreak, Mark.advance]
      · rintro rest' rfl
        exact absurd rfl hreturn
  | succ n ih =>
      have hstep : readGap 0 { blanks } mark (' ' :: (List.replicate n ' ' ++ c :: rest)) =
          readGap 0 { blanks := ' ' :: blanks } mark.next (List.replicate n ' ' ++ c :: rest) := rfl
      rw [List.replicate_succ, List.cons_append, hstep, ih, Mark.next_eq_advance,
        Mark.advance_advance, Nat.add_comm 1 n, List.append_cons (List.replicate n ' '),
        ← List.replicate_succ', List.replicate_succ]

/-- A text without blanks, or one that is divided at the first of them. -/
theorem exists_solid_append (s : List Char) : (∀ c ∈ s, c ≠ ' ') ∨
    ∃ solid n after, s = solid ++ (List.replicate (n + 1) ' ' ++ after) ∧
      (∀ c ∈ solid, c ≠ ' ') ∧ ∀ c ∈ after.head?, c ≠ ' ' := by
  have hsolid : ∀ c ∈ s.takeWhile (· ≠ ' '), c ≠ ' ' := by
    intro c hc
    simpa using List.mem_takeWhile_imp hc
  have hs := List.takeWhile_append_dropWhile (p := (· ≠ ' ')) (l := s)
  rcases hd : s.dropWhile (· ≠ ' ') with _ | ⟨c, r⟩
  · rw [hd, List.append_nil] at hs
    rw [hs] at hsolid
    exact .inl hsolid
  · have hc : c = ' ' := by
      have hnot := List.head?_dropWhile_not (· ≠ ' ') s
      rw [hd] at hnot
      simpa using hnot
    subst hc
    have hblanks : r.takeWhile (· = ' ') = List.replicate (r.takeWhile (· = ' ')).length ' ' := by
      refine List.eq_replicate_of_mem fun c hc => ?_
      simpa using List.mem_takeWhile_imp hc
    have hr := List.takeWhile_append_dropWhile (p := (· = ' ')) (l := r)
    refine .inr ⟨s.takeWhile (· ≠ ' '), (r.takeWhile (· = ' ')).length,
      r.dropWhile (· = ' '), ?_, hsolid, ?_⟩
    · rw [List.replicate_succ, List.cons_append, ← hblanks, hr, ← hd, hs]
    · intro c hc
      have hnot := List.head?_dropWhile_not (· = ' ') r
      rw [hc] at hnot
      simpa using hnot

theorem flatMap_escapeChar_replicate (n : ℕ) :
    (List.replicate n ' ').flatMap escapeChar = List.replicate n ' ' := by
  induction n with
  | zero => rfl
  | succ n ih => rw [List.replicate_succ, List.flatMap_cons, ih]; rfl

/-- What is written for a text that starts with no blank does not start with white space, nor does
the quote after an empty text. -/
theorem exists_flatMap_escapeChar_eq_cons {s : List Char} (h : ∀ c ∈ s, isPrintable c = true)
    (hne : ∀ c ∈ s.head?, c ≠ ' ') (rest : List Char) :
    ∃ c cs, s.flatMap escapeChar ++ '"' :: rest = c :: cs ∧ isWhite c = false ∧
      isBreak c = false := by
  rcases s with _ | ⟨c, s⟩
  · exact ⟨'"', rest, rfl, by decide, by decide⟩
  · have hc := h c List.mem_cons_self
    rw [List.flatMap_cons, escapeChar_of_isPrintable hc]
    split_ifs
    · exact ⟨'\\', _, rfl, by decide, by decide⟩
    · exact ⟨c, _, rfl, isWhite_of_isPrintable hc (hne c rfl), isBreak_of_isPrintable hc⟩

section Parts

variable {solid : List Char} (hsolid : ∀ c ∈ solid, isPrintable c = true)
  (hne : ∀ c ∈ solid, c ≠ ' ') {mark : Mark} (hmark : 0 < mark.column) (fuel : ℕ)
  (acc : List Char)

include hmark in
/-- No document ends within a line, and the scalar is not at the end of the text. -/
theorem atDocumentMarker_or_isEmpty (cs : List Char) (c : Char) (rest : List Char) :
    (atDocumentMarker mark (cs ++ c :: rest) || (cs ++ c :: rest).isEmpty) = false := by
  have hcolumn : mark.column ≠ 0 := by omega
  simp [atDocumentMarker, hcolumn]

include hsolid hne hmark

theorem quotedRest_last (rest : List Char) :
    quotedRest (fuel + 1) '"' acc ⟨mark, solid.flatMap escapeChar ++ '"' :: rest⟩ =
      .ok ⟨acc.reverse ++ solid, false,
        ⟨mark.advance ((solid.flatMap escapeChar).length + 1), rest⟩⟩ := by
  have hplace := atDocumentMarker_or_isEmpty hmark (solid.flatMap escapeChar) '"' rest
  have hpart := doublePart_flatMap hsolid hne acc mark ('"' :: rest)
  have hend : ∀ (acc' : List Char) (m : Mark), doublePart 0 acc' m ('"' :: rest) =
      .ok ⟨acc', false, ⟨m, '"' :: rest⟩⟩ := fun _ _ => rfl
  rw [hend] at hpart
  simp only [quotedRest, hplace, quotedPart, hpart]
  simp [atAny, Cursor.advance, Mark.advance_advance]

/-- A part of the scalar ends at a blank. No line break follows, so the blanks are kept. -/
theorem quotedRest_more {c : Char} (hwhite : isWhite c = false) (hbreak : isBreak c = false)
    (n : ℕ) (rest : List Char) :
    quotedRest (fuel + 1) '"' acc
        ⟨mark, solid.flatMap escapeChar ++ (List.replicate (n + 1) ' ' ++ c :: rest)⟩ =
      quotedRest fuel '"' (List.replicate (n + 1) ' ' ++ (solid.reverse ++ acc))
        ⟨mark.advance ((solid.flatMap escapeChar).length + (n + 1)), c :: rest⟩ := by
  have hplace := atDocumentMarker_or_isEmpty hmark
    (solid.flatMap escapeChar ++ List.replicate (n + 1) ' ') c rest
  have hpart := doublePart_flatMap hsolid hne acc mark (List.replicate (n + 1) ' ' ++ c :: rest)
  have hend : ∀ (acc' : List Char) (m : Mark) (tail : List Char),
      doublePart 0 acc' m (List.replicate (n + 1) ' ' ++ tail) =
        .ok ⟨acc', false, ⟨m, List.replicate (n + 1) ' ' ++ tail⟩⟩ := fun _ _ _ => rfl
  have hquote : ∀ tail, atAny ['"'] (List.replicate (n + 1) ' ' ++ tail) = false := fun _ => rfl
  have hgap := readGap_replicate hwhite hbreak (n + 1) []
    (mark.advance (solid.flatMap escapeChar).length) rest
  rw [hend] at hpart
  rw [List.append_assoc] at hplace
  simp only [quotedRest, hplace, quotedPart, hpart, hquote, hgap, Gap.text, Bool.false_eq_true,
    ↓reduceIte, List.append_nil, List.reverse_replicate, Bool.not_false, Mark.advance_advance]

end Parts

theorem quotedRest_flatMap {s : List Char} (h : ∀ c ∈ s, isPrintable c = true) {fuel : ℕ}
    (hfuel : s.length < fuel) (acc : List Char) {mark : Mark} (hmark : 0 < mark.column)
    (rest : List Char) :
    quotedRest fuel '"' acc ⟨mark, s.flatMap escapeChar ++ '"' :: rest⟩ =
      .ok ⟨acc.reverse ++ s, false, ⟨mark.advance ((s.flatMap escapeChar).length + 1), rest⟩⟩ := by
  induction hn : s.length using Nat.strong_induction_on generalizing s fuel acc mark with
  | h n ih =>
      obtain ⟨fuel, rfl⟩ := Nat.exists_eq_add_one_of_ne_zero (Nat.ne_zero_of_lt hfuel)
      rcases exists_solid_append s with hne | ⟨solid, k, after, rfl, hne, hafter⟩
      · exact quotedRest_last h hne hmark fuel acc rest
      · simp only [List.forall_mem_append] at h
        obtain ⟨c, cs, hcs, hwhite, hbreak⟩ :=
          exists_flatMap_escapeChar_eq_cons h.2.2 hafter rest
        have hlen : after.length < n := by
          simp only [List.length_append, List.length_replicate] at hn
          omega
        have hcolumn : ∀ m : ℕ, 0 < (mark.advance m).column := fun m =>
          Nat.lt_of_lt_of_le hmark (Nat.le_add_right _ m)
        have hmore := quotedRest_more h.1 hne hmark fuel acc hwhite hbreak k cs
        rw [← hcs, ih _ hlen h.2.2 (by omega) _ (hcolumn _) rfl] at hmore
        simp only [List.flatMap_append, flatMap_escapeChar_replicate, List.append_assoc, hmore]
        simp [Mark.advance_advance, Nat.add_assoc]

theorem readQuoted_writeString {s : String} (h : IsPrintableText s) (mark : Mark)
    (rest : List Char) :
    readQuoted '"' ⟨mark, writeString s ++ rest⟩ =
      .ok ⟨s.toList, false, ⟨mark.advance (writeString s).length, rest⟩⟩ := by
  have hlen := Json.length_le_flatMap_escapeChar s.toList
  have hfuel : s.toList.length < (writeString s ++ rest).length + 1 := by
    simp only [writeString, List.length_append, List.length_cons]
    omega
  have hadvance : Cursor.advance ⟨mark, writeString s ++ rest⟩ 1 =
      ⟨mark.advance 1, s.toList.flatMap escapeChar ++ '"' :: rest⟩ := by
    simp [Cursor.advance, writeString]
  rw [readQuoted, hadvance, quotedRest_flatMap h hfuel [] (Nat.succ_pos _)]
  simp [Mark.advance_advance, writeString, Nat.add_comm]

/-- What ends a plain scalar between brackets, and the value of a member or an item. -/
def closers : List Char := [',', ']', '\x7d']

theorem ne_of_isAlphanum {c d : Char} (hc : c.isAlphanum = true) (hd : d.isAlphanum = false) :
    c ≠ d := by
  rintro rfl
  cases hc.symm.trans hd

/-- A character between two printable ones is printable. -/
theorem isPrintable_of_le {a b c : Char} (ha : isPrintable a = true) (hb : isPrintable b = true)
    (hlow : a.val ≤ c.val) (hhigh : c.val ≤ b.val) : isPrintable c = true := by
  rw [isPrintable_iff] at ha hb ⊢
  have hac : a.toNat ≤ c.toNat := hlow
  have hcb : c.toNat ≤ b.toNat := hhigh
  omega

theorem isPrintable_of_isAlphanum {c : Char} (h : c.isAlphanum = true) : isPrintable c = true := by
  have hupper : isPrintable 'A' = true ∧ isPrintable 'Z' = true := by decide
  have hlower : isPrintable 'a' = true ∧ isPrintable 'z' = true := by decide
  have hdigit : isPrintable '0' = true ∧ isPrintable '9' = true := by decide
  have hcases : ((c.isUpper || c.isLower) || c.isDigit) = true := h
  rw [Bool.or_eq_true, Bool.or_eq_true] at hcases
  rcases hcases with (hc | hc) | hc
  · have hbounds : 'A'.val ≤ c.val ∧ c.val ≤ 'Z'.val := of_decide_eq_true hc
    exact isPrintable_of_le hupper.1 hupper.2 hbounds.1 hbounds.2
  · have hbounds := Bool.and_eq_true_iff.mp hc
    exact isPrintable_of_le hlower.1 hlower.2 (of_decide_eq_true hbounds.1)
      (of_decide_eq_true hbounds.2)
  · have hbounds := Bool.and_eq_true_iff.mp hc
    exact isPrintable_of_le hdigit.1 hdigit.2 (of_decide_eq_true hbounds.1)
      (of_decide_eq_true hbounds.2)

theorem atMarker_of_ne {c mark : Char} (h : c ≠ mark) (cs : List Char) :
    atMarker mark (c :: cs) = false := by
  rcases cs with _ | ⟨a, _ | ⟨b, cs⟩⟩
  · rfl
  · rfl
  · simp [atMarker, h]

theorem plainPart_word {word : List Char} (h : ∀ c ∈ word, c.isAlphanum = true) {c : Char}
    (hc : c ∈ closers) (acc : List Char) (mark : Mark) (rest : List Char) :
    plainPart true acc mark (word ++ c :: rest) =
      .ok (word.reverse ++ acc, ⟨mark.advance word.length, c :: rest⟩) := by
  induction word generalizing acc mark with
  | nil =>
      simp only [closers, List.mem_cons, List.not_mem_nil, or_false] at hc
      rcases hc with rfl | rfl | rfl <;> rfl
  | cons d word ih =>
      rw [List.forall_mem_cons] at h
      have hd := isPrintable_of_isAlphanum h.1
      have hne := fun e => ne_of_isAlphanum (d := e) h.1
      have hstep : plainPart true acc mark (d :: (word ++ c :: rest)) =
          plainPart true (d :: acc) mark.next (word ++ c :: rest) := by
        simp [plainPart, isWhite_of_isPrintable hd (hne ' ' (by decide)),
          isBreak_of_isPrintable hd, hne ':' (by decide), hne ',' (by decide),
          hne '[' (by decide), hne ']' (by decide), hne '\x7b' (by decide),
          hne '\x7d' (by decide)]
      rw [List.cons_append, hstep, ih h.2, Mark.next_eq_advance, Mark.advance_advance]
      simp [Nat.add_comm]

/-- A word between brackets is a plain scalar, up to the indicator after it. -/
theorem readPlain_word {word : List Char} (h : ∀ c ∈ word, c.isAlphanum = true) (hne : word ≠ [])
    {c : Char} (hc : c ∈ closers) (margin : ℕ) (mark : Mark) (rest : List Char) :
    readPlain true margin ⟨mark, word ++ c :: rest⟩ =
      .ok ⟨word, false, ⟨mark.advance word.length, c :: rest⟩⟩ := by
  have hpart := plainPart_word h hc [] mark rest
  have hgap : atGap (c :: rest) = false := by
    simp only [closers, List.mem_cons, List.not_mem_nil, or_false] at hc
    rcases hc with rfl | rfl | rfl <;> rfl
  have hlen : mark.index + word.length ≠ mark.index := by
    have hpos := List.length_pos_iff.mpr hne
    omega
  obtain ⟨d, ds, rfl⟩ := List.exists_cons_of_ne_nil hne
  have hd := fun e => ne_of_isAlphanum (d := e) (h d List.mem_cons_self)
  have hstart : (atDocumentMarker mark (d :: ds ++ c :: rest) ||
      atAny ['#'] (d :: ds ++ c :: rest)) = false := by
    simp [atDocumentMarker, atMarker_of_ne (hd '-' (by decide)),
      atMarker_of_ne (hd '.' (by decide)), atAny, hd '#' (by decide)]
  have hindex : (mark.advance (d :: ds).length).index ≠ mark.index := hlen
  have hblank : Gap.text { } = [] := rfl
  simp only [readPlain, plainRest, hstart, Bool.false_eq_true, ↓reduceIte, hblank, List.reverse_nil,
    List.nil_append, hpart, hindex, hgap, Bool.not_false, Bool.true_or]
  rw [List.append_nil, List.reverse_reverse]

end ResourceAgent.Yaml
