import Mathlib.Data.Nat.Digits.Defs
import ResourceAgent.Proofs.Json.Nesting
import ResourceAgent.Proofs.Json.Unambiguous

/-!
# What is written is read back

A value is read back from its text in every layout, whatever follows the text, if its brackets are
nested no deeper than the budget allows and its numbers are integers of less than 300 digits. Each
step of the reader is matched by what the writer put there; two steps for each character are fuel
enough.
-/
namespace ResourceAgent.Json

/-- An integer that is far from the bounds of a double. -/
def IsShort (n : ℤ) : Prop := (toString n.natAbs).toList.length < 300

theorem isShort_of_lt {n : ℕ} (h : n < 10 ^ 299) : IsShort n := by
  have hlen := Nat.toDigits_length 10 n 299 (by omega) h
  rw [IsShort, Int.natAbs_natCast, Nat.toString_eq_ofList_toDigits, String.toList_ofList]
  omega

theorem isDigit_eq (c : Char) : isDigit c = c.isDigit := rfl

theorem Ends.isDigit_eq_false {rest : List Char} (h : Ends rest) :
    ∀ c ∈ rest.head?, isDigit c = false := by
  intro c hc
  have hn := isNumeric_of_isDelimiter (h c hc)
  simp only [Text.isNumeric, Bool.or_eq_false_iff] at hn
  exact hn.1

theorem readDigits_append {digits rest : List Char} (hne : digits ≠ [])
    (hd : ∀ c ∈ digits, isDigit c = true) (hr : Ends rest) :
    readDigits (digits ++ rest) = .ok (digits, rest) := by
  have hrest : rest.takeWhile isDigit = [] ∧ rest.dropWhile isDigit = rest := by
    cases rest with
    | nil => exact ⟨rfl, rfl⟩
    | cons c cs =>
        have hc := hr.isDigit_eq_false c rfl
        simp [hc]
  obtain ⟨c, cs, rfl⟩ := List.exists_cons_of_ne_nil hne
  have hc : isDigit c = true := hd c List.mem_cons_self
  have htake : ((c :: cs) ++ rest).takeWhile isDigit = (c :: cs) ++ rest.takeWhile isDigit :=
    List.takeWhile_append_of_pos hd
  have hdrop : ((c :: cs) ++ rest).dropWhile isDigit = rest.dropWhile isDigit :=
    List.dropWhile_append_of_pos hd
  rw [hrest.1, List.append_nil] at htake
  rw [hrest.2] at hdrop
  rw [List.cons_append] at htake hdrop ⊢
  simp [readDigits, hc, htake, hdrop]

theorem readWhole_toString (n : ℕ) {rest : List Char} (hr : Ends rest) :
    readWhole ((toString n).toList ++ rest) = .ok ((toString n).toList, rest) := by
  have hd : readDigits ((toString n).toList ++ rest) = .ok ((toString n).toList, rest) :=
    readDigits_append (by simp) (fun c hc => (isDigit_eq c).trans (Text.isDigit_toString hc)) hr
  have hzero := Text.toString_ne_zero_cons n
  rw [readWhole, hd]
  simp only [bind, Except.bind]
  rfl

theorem readFraction_of_ends {rest : List Char} (hr : Ends rest) :
    readFraction rest = .ok ([], rest) := by
  unfold readFraction
  split
  · cases ends_cons.mp hr
  · rfl

theorem readExponent_of_ends {rest : List Char} (hr : Ends rest) :
    readExponent rest = .ok (none, rest) := by
  cases rest with
  | nil => rfl
  | cons c cs =>
      have hc : ¬(c = 'e' ∨ c = 'E') := by
        rintro (rfl | rfl) <;> cases ends_cons.mp hr
      simp [readExponent, hc]

theorem overflows_eq_false {digits : List Char} (h : digits.length < 300) :
    overflows digits 0 = false := by
  have hlen := (List.dropWhile_suffix (l := digits) (· = '0')).length_le
  unfold overflows
  dsimp only
  split_ifs
  · rfl
  · omega
  · rfl
  · omega
  · omega

/-- Digits are read as the number that they were written for, with the sign before them. -/
theorem readUnsigned_toString (negative : Bool) {n : ℕ} (hn : negative = true → n ≠ 0)
    (hs : (toString n).toList.length < 300) {rest : List Char} (hr : Ends rest) :
    readUnsigned negative ((toString n).toList ++ rest) =
      .ok (.int (if negative then -(n : ℤ) else n), rest) := by
  have hover : overflows (toString n).toList (exponentValue none) = false := overflows_eq_false hs
  have hwhole := readWhole_toString n hr
  have hnat := Text.readNatural_toString n
  have hzero : (negative && decide (n = 0)) = false := by
    cases negative with
    | false => rfl
    | true => simp [hn rfl]
  generalize (toString n).toList = digits at hover hwhole hnat ⊢
  simp [readUnsigned, hwhole, readFraction_of_ends hr, readExponent_of_ends hr, bind, Except.bind,
    pure, Except.pure, hover, hnat, hzero]

/-- The text, and whatever may follow a value, is read as the value and what follows. -/
def Reads (budget : ℕ) (text : List Char) (v : Value) : Prop :=
  ∀ fuel rest, 2 * (text ++ rest).length ≤ fuel → Ends rest →
    readValue fuel budget (text ++ rest) = .ok (v, rest)

theorem readValue_space {sp : List Char} (hsp : ∀ c ∈ sp, isSpace c = true) (fuel budget : ℕ)
    (cs : List Char) : readValue fuel budget (sp ++ cs) = readValue fuel budget cs := by
  cases fuel with
  | zero => rw [readValue, readValue]
  | succ fuel => rw [readValue, readValue, skipSpace_append hsp]

theorem readValue_scalar {c : Char} (hs : isSpace c = false) (harray : c ≠ '[')
    (hobject : c ≠ '\x7b') (fuel budget : ℕ) (cs : List Char) :
    readValue (fuel + 1) budget (c :: cs) = readScalar (fuel + 1) (c :: cs) := by
  rw [readValue, skipSpace_cons hs]
  simp [harray, hobject]

theorem readScalar_digit {c : Char} (hc : isDigit c = true) (fuel : ℕ) (cs : List Char) :
    readScalar fuel (c :: cs) = readUnsigned false (c :: cs) := by
  have hne : ∀ d : Char, isDigit d = false → c ≠ d := by
    rintro d hd rfl
    cases hc.symm.trans hd
  simp [readScalar, hc, hne 'n' (by decide), hne 't' (by decide), hne 'f' (by decide),
    hne '"' (by decide), hne '-' (by decide)]

theorem readScalar_integer {n : ℤ} (hs : IsShort n) (fuel : ℕ) {rest : List Char}
    (hr : Ends rest) :
    readScalar fuel ((toString n).toList ++ rest) = .ok (.number (.integer n), rest) := by
  cases n with
  | ofNat n =>
      have hn : (toString (Int.ofNat n)).toList = (toString n).toList := rfl
      obtain ⟨c, cs, hcs⟩ := List.exists_cons_of_ne_nil (Text.toString_int_ne_nil (Int.ofNat n))
      have hc : isDigit c = true :=
        Text.isDigit_toString (n := n) (by rw [← hn, hcs]; exact List.mem_cons_self)
      have hread := readUnsigned_toString false (n := n) (by simp) hs hr
      rw [← hn, hcs, List.cons_append] at hread
      rw [hcs, List.cons_append, readScalar_digit hc, hread]
      rfl
  | negSucc n =>
      have hread := readUnsigned_toString true (n := n + 1) (by simp) hs hr
      have hminus : ∀ cs, readScalar fuel ('-' :: cs) = readUnsigned true cs := fun _ => rfl
      rw [Text.toString_negSucc, List.cons_append, hminus, hread]
      rfl

theorem readScalar_writeString (s : String) {fuel : ℕ} (rest : List Char)
    (hf : (writeString s).length ≤ fuel) :
    readScalar fuel (writeString s ++ rest) = .ok (.string s, rest) := by
  have hread := readStringRest_writeString s rest hf
  rw [writeString_append]
  simp [readScalar, hread, Except.map]

theorem readName_writeString (name : String) {fuel : ℕ} (hf : (writeString name).length ≤ fuel)
    (cs : List Char) : readName fuel (writeString name ++ ':' :: cs) = .ok (name, cs) := by
  have hread := readStringRest_writeString name (':' :: cs) hf
  rw [writeString_append]
  simp only [readName, hread, bind, Except.bind, skipSpace_cons (c := ':') (by decide)]
  rfl

section Enclosed

variable {budget : ℕ} {gap sp : List Char}

theorem readItems_last (hsp : ∀ c ∈ sp, isSpace c = true) {fuel : ℕ} {v : Value}
    {cs rest : List Char} (h : readValue fuel budget cs = .ok (v, sp ++ ']' :: rest))
    (acc : List Value) :
    readItems (fuel + 1) budget acc cs = .ok (.array (acc.reverse ++ [v]), rest) := by
  have hskip : skipSpace (sp ++ ']' :: rest) = ']' :: rest := by
    rw [skipSpace_append hsp, skipSpace_cons (by decide)]
  rw [readItems, h]
  simp [hskip]

theorem readItems_more (hgap : ∀ c ∈ gap, isSpace c = true) {fuel : ℕ} {v : Value}
    {cs next : List Char} (h : readValue fuel budget cs = .ok (v, ',' :: (gap ++ next)))
    (hnext : Opens ']' next) (acc : List Value) :
    readItems (fuel + 1) budget acc cs = readItems fuel budget (v :: acc) next := by
  have hskip := hnext.skipSpace_eq hgap
  obtain ⟨c, cs', rfl, -, hne⟩ := hnext
  rw [readItems, h]
  simp only [skipSpace_cons (c := ',') (by decide), hskip]
  simp [hne]

/-- Elements that are read one by one are read as the rest of an array. -/
theorem readItems_joinLists (hgap : ∀ c ∈ gap, isSpace c = true)
    (hsp : ∀ c ∈ sp, isSpace c = true) {text : Value → List Char} {v : Value} {vs : List Value}
    (hreads : ∀ w ∈ v :: vs, Reads budget (text w) w)
    (hopens : ∀ w ∈ v :: vs, Opens ']' (text w)) (acc : List Value) {fuel : ℕ} (rest : List Char)
    (hf : 2 * (Text.joinLists (',' :: gap) ((v :: vs).map text) ++ (sp ++ ']' :: rest)).length <
      fuel) :
    readItems fuel budget acc
        (Text.joinLists (',' :: gap) ((v :: vs).map text) ++ (sp ++ ']' :: rest)) =
      .ok (.array (acc.reverse ++ v :: vs), rest) := by
  have hv := hreads v List.mem_cons_self
  induction vs generalizing v acc fuel with
  | nil =>
      obtain ⟨fuel, rfl⟩ := Nat.exists_eq_succ_of_ne_zero (Nat.ne_zero_of_lt hf)
      have hend : Ends (sp ++ ']' :: rest) := (ends_cons.mpr (by decide)).space_append hsp
      exact readItems_last hsp (hv fuel _ (Nat.lt_succ_iff.mp hf) hend) acc
  | cons w vs ih =>
      obtain ⟨fuel, rfl⟩ := Nat.exists_eq_succ_of_ne_zero (Nat.ne_zero_of_lt hf)
      have hopens' : ∀ u ∈ w :: vs, Opens ']' (text u) := fun u hu =>
        hopens u (List.mem_cons_of_mem _ hu)
      simp only [List.map_cons, joinLists_cons_cons_append] at hf ⊢
      have hread := hv fuel _ (Nat.lt_succ_iff.mp hf) (ends_cons.mpr (by decide))
      rw [readItems_more hgap hread (opens_joinLists (hopens' w List.mem_cons_self) _ _)]
      have hlen : 2 * (Text.joinLists (',' :: gap) ((w :: vs).map text) ++
          (sp ++ ']' :: rest)).length < fuel := by
        simp only [List.map_cons, List.length_append, List.length_cons] at hf ⊢
        omega
      have hrest := ih (fun u hu => hreads u (List.mem_cons_of_mem _ hu)) hopens' (v :: acc) hlen
        (hreads w (by simp))
      simpa using hrest

theorem readMember (l : Layout) {name : String} {text rest : List Char} {v : Value}
    (hv : Reads budget text v) (hr : Ends rest) {fuel : ℕ}
    (hf : 2 * (l.member name text ++ rest).length ≤ fuel) :
    readName (fuel + 1) (l.member name text ++ rest) =
        .ok (name, l.afterColon ++ (text ++ rest)) ∧
      readValue fuel budget (l.afterColon ++ (text ++ rest)) = .ok (v, rest) := by
  simp only [Layout.member, List.append_assoc, List.cons_append, List.length_append,
    List.length_cons] at hf ⊢
  refine ⟨readName_writeString name (by omega) _, ?_⟩
  rw [readValue_space l.isSpace_afterColon]
  refine hv fuel rest ?_ hr
  rw [List.length_append]
  omega

theorem readMembers_last (hsp : ∀ c ∈ sp, isSpace c = true) (l : Layout) {name : String}
    {text rest : List Char} {v : Value} (hv : Reads budget text v) {fuel : ℕ}
    (hf : 2 * (l.member name text ++ (sp ++ '\x7d' :: rest)).length ≤ fuel)
    (acc : List (String × Value)) :
    readMembers (fuel + 1) budget acc (l.member name text ++ (sp ++ '\x7d' :: rest)) =
      .ok (.object (acc.reverse ++ [(name, v)]), rest) := by
  have hskip : skipSpace (sp ++ '\x7d' :: rest) = '\x7d' :: rest := by
    rw [skipSpace_append hsp, skipSpace_cons (by decide)]
  obtain ⟨hname, hvalue⟩ :=
    readMember l hv ((ends_cons.mpr (by decide)).space_append hsp) hf
  rw [readMembers, hname]
  simp [hvalue, hskip]

theorem readMembers_more (hgap : ∀ c ∈ gap, isSpace c = true) (l : Layout) {name : String}
    {text next : List Char} {v : Value} (hv : Reads budget text v) {fuel : ℕ}
    (hf : 2 * (l.member name text ++ ',' :: (gap ++ next)).length ≤ fuel)
    (hnext : Opens '\x7d' next) (acc : List (String × Value)) :
    readMembers (fuel + 1) budget acc (l.member name text ++ ',' :: (gap ++ next)) =
      readMembers fuel budget ((name, v) :: acc) next := by
  have hskip := hnext.skipSpace_eq hgap
  obtain ⟨hname, hvalue⟩ := readMember l hv (ends_cons.mpr (by decide)) hf
  rw [readMembers, hname]
  simp [hvalue, skipSpace_cons (c := ',') (by decide), hskip]

/-- Members whose values are read one by one are read as the rest of an object. -/
theorem readMembers_joinLists (l : Layout) (hgap : ∀ c ∈ gap, isSpace c = true)
    (hsp : ∀ c ∈ sp, isSpace c = true) {text : Value → List Char} {m : String × Value}
    {ms : List (String × Value)} (hreads : ∀ n ∈ m :: ms, Reads budget (text n.2) n.2)
    (acc : List (String × Value)) {fuel : ℕ} (rest : List Char)
    (hf : 2 * (Text.joinLists (',' :: gap) ((m :: ms).map fun n => l.member n.1 (text n.2)) ++
      (sp ++ '\x7d' :: rest)).length < fuel) :
    readMembers fuel budget acc
        (Text.joinLists (',' :: gap) ((m :: ms).map fun n => l.member n.1 (text n.2)) ++
          (sp ++ '\x7d' :: rest)) =
      .ok (.object (acc.reverse ++ m :: ms), rest) := by
  have hm := hreads m List.mem_cons_self
  induction ms generalizing m acc fuel with
  | nil =>
      obtain ⟨fuel, rfl⟩ := Nat.exists_eq_succ_of_ne_zero (Nat.ne_zero_of_lt hf)
      exact readMembers_last hsp l hm (Nat.lt_succ_iff.mp hf) acc
  | cons n ms ih =>
      obtain ⟨fuel, rfl⟩ := Nat.exists_eq_succ_of_ne_zero (Nat.ne_zero_of_lt hf)
      simp only [List.map_cons, joinLists_cons_cons_append] at hf ⊢
      rw [readMembers_more hgap l hm (Nat.lt_succ_iff.mp hf)
        (opens_joinLists (opens_member l n.1 _) _ _)]
      have hlen : 2 * (Text.joinLists (',' :: gap)
          ((n :: ms).map fun n => l.member n.1 (text n.2)) ++
            (sp ++ '\x7d' :: rest)).length < fuel := by
        simp only [List.map_cons, List.length_append, List.length_cons] at hf ⊢
        omega
      have hrest := ih (fun u hu => hreads u (List.mem_cons_of_mem _ hu)) (m :: acc) hlen
        (hreads n (by simp))
      simpa using hrest

end Enclosed

theorem reads_of_readScalar {p : ℤ → Prop} {v : Value} (hi : v.Integral p)
    (harray : v.kind ≠ .array) (hobject : v.kind ≠ .object) {l : Layout} {depth budget : ℕ}
    (h : ∀ fuel rest, 2 * (v.chars l depth ++ rest).length ≤ fuel → Ends rest →
      readScalar fuel (v.chars l depth ++ rest) = .ok (v, rest)) :
    Reads budget (v.chars l depth) v := by
  intro fuel rest hf hr
  have hread := h fuel rest hf hr
  obtain ⟨c, cs, hc, hk⟩ := hi.exists_chars_eq_cons l depth
  have hs : isSpace c = false := by
    obtain ⟨c', cs', hc', hs, -⟩ := hi.opens l depth (.inl rfl)
    rw [hc] at hc'
    rwa [(List.cons.inj hc').1]
  rw [hc, List.cons_append] at hf hread ⊢
  obtain ⟨fuel, rfl⟩ : ∃ f, fuel = f + 1 := ⟨fuel - 1, by rw [List.length_cons] at hf; omega⟩
  rw [readValue_scalar hs ?_ ?_, hread]
  · rintro rfl
    exact harray (Option.some_inj.mp hk).symm
  · rintro rfl
    exact hobject (Option.some_inj.mp hk).symm

theorem readValue_array {fuel n : ℕ} {gap text : List Char} (hgap : ∀ c ∈ gap, isSpace c = true)
    (ht : Opens ']' text) :
    readValue (fuel + 1) (n + 2) ('[' :: (gap ++ text)) = readItems fuel (n + 1) [] text := by
  have hskip := ht.skipSpace_eq hgap
  obtain ⟨c, cs, rfl, -, hne⟩ := ht
  rw [readValue, skipSpace_cons (by decide)]
  simp [hskip, hne]

theorem readValue_object {fuel n : ℕ} {gap text : List Char} (hgap : ∀ c ∈ gap, isSpace c = true)
    (ht : Opens '\x7d' text) :
    readValue (fuel + 1) (n + 2) ('\x7b' :: (gap ++ text)) =
      readMembers fuel (n + 1) [] text := by
  have hskip := ht.skipSpace_eq hgap
  obtain ⟨c, cs, rfl, -, hne⟩ := ht
  rw [readValue, skipSpace_cons (by decide)]
  simp [hskip, hne]

theorem reads_array (l : Layout) {depth n : ℕ} {items : List Value}
    (hreads : ∀ v ∈ items, Reads (n + 1) (v.chars l (depth + 1)) v)
    (hopens : ∀ v ∈ items, Opens ']' (v.chars l (depth + 1))) :
    Reads (n + 2) ((Value.array items).chars l depth) (.array items) := by
  intro fuel rest hf hr
  rw [Value.chars_array] at hf ⊢
  cases items with
  | nil =>
      simp only [List.map_nil, Layout.enclose, List.cons_append, List.nil_append,
        List.length_cons] at hf ⊢
      obtain ⟨fuel, rfl⟩ : ∃ f, fuel = f + 1 := ⟨fuel - 1, by omega⟩
      rw [readValue, skipSpace_cons (by decide)]
      simp [skipSpace_cons (c := ']') (by decide)]
  | cons v vs =>
      have hopen := hopens v List.mem_cons_self
      simp only [List.map_cons, Layout.enclose, List.cons_append, List.append_assoc,
        List.nil_append, List.length_cons] at hf ⊢
      obtain ⟨fuel, rfl⟩ : ∃ f, fuel = f + 1 := ⟨fuel - 1, by omega⟩
      rw [readValue_array (l.isSpace_gap _) (opens_joinLists hopen _ _)]
      refine readItems_joinLists (l.isSpace_gap _) (l.isSpace_gap _) hreads hopens [] rest ?_
      simp only [List.map_cons, List.length_append, List.length_cons] at hf ⊢
      omega

theorem reads_object (l : Layout) {depth n : ℕ} {members : List (String × Value)}
    (hreads : ∀ m ∈ members, Reads (n + 1) (m.2.chars l (depth + 1)) m.2) :
    Reads (n + 2) ((Value.object members).chars l depth) (.object members) := by
  intro fuel rest hf hr
  rw [Value.chars] at hf ⊢
  cases members with
  | nil =>
      simp only [List.map_nil, Layout.enclose, List.cons_append, List.nil_append,
        List.length_cons] at hf ⊢
      obtain ⟨fuel, rfl⟩ : ∃ f, fuel = f + 1 := ⟨fuel - 1, by omega⟩
      rw [readValue, skipSpace_cons (by decide)]
      simp [skipSpace_cons (c := '\x7d') (by decide)]
  | cons m ms =>
      simp only [List.map_cons, Layout.enclose, List.cons_append, List.append_assoc,
        List.nil_append, List.length_cons] at hf ⊢
      obtain ⟨fuel, rfl⟩ : ∃ f, fuel = f + 1 := ⟨fuel - 1, by omega⟩
      rw [readValue_object (l.isSpace_gap _) (opens_joinLists (opens_member l m.1 _) _ _)]
      refine readMembers_joinLists l (l.isSpace_gap _) (l.isSpace_gap _) hreads [] rest ?_
      simp only [List.map_cons, List.length_append, List.length_cons] at hf ⊢
      omega

/-- A value is read back from its text in every layout. -/
theorem Value.Nests.reads {n : ℕ} {v : Value} (hn : v.Nests n) (hi : v.Integral IsShort)
    (l : Layout) (depth : ℕ) : Reads (n + 1) (v.chars l depth) v := by
  induction hn generalizing depth with
  | null =>
      refine reads_of_readScalar hi (by simp [kind]) (by simp [kind]) ?_
      intro fuel rest hf hr
      rw [chars]
      rfl
  | @bool n b =>
      refine reads_of_readScalar hi (by simp [kind]) (by simp [kind]) ?_
      intro fuel rest hf hr
      rw [chars]
      cases b <;> rfl
  | number =>
      refine reads_of_readScalar hi (by simp [kind]) (by simp [kind]) ?_
      intro fuel rest hf hr
      cases hi with
      | number hs =>
          rw [chars]
          exact readScalar_integer hs fuel hr
  | @string n s =>
      refine reads_of_readScalar hi (by simp [kind]) (by simp [kind]) ?_
      intro fuel rest hf hr
      rw [chars] at hf ⊢
      exact readScalar_writeString s rest (by rw [List.length_append] at hf; omega)
  | array h ih =>
      cases hi with
      | array hitems =>
          exact reads_array l (fun v hv => ih v hv (hitems v hv) _)
            fun v hv => (hitems v hv).opens l _ (.inl rfl)
  | object h ih =>
      cases hi with
      | object hmembers => exact reads_object l fun m hm => ih m hm (hmembers m hm) _

theorem Value.parse_chars {v : Value} (hn : v.Nests 127) (hi : v.Integral IsShort) (l : Layout) :
    Value.parse (String.ofList (v.chars l 0)) = .ok v := by
  have hread := hn.reads hi l 0 (fuelFor (v.chars l 0)) [] (by simp [fuelFor]) ends_nil
  rw [List.append_nil] at hread
  simp only [parse, String.toList_ofList, depthLimit, hread, bind, Except.bind]
  rfl

end ResourceAgent.Json
