import ResourceAgent.Proofs.Json.Layout
import ResourceAgent.Proofs.Json.Quoted

/-!
# JSON texts are unambiguous

A text that starts with a value tells which value it is and where it ends, in every layout. So no
two values have the same compact form or the same pretty form. The literal of a number with a
fraction or an exponent could be anything; values that hold one are left out.
-/
namespace ResourceAgent.Json

theorem isNumeric_of_isDelimiter {c : Char} (h : isDelimiter c = true) :
    Text.isNumeric c = false := by
  simp only [isDelimiter, isSpace, Bool.or_eq_true, decide_eq_true_eq] at h
  rcases h with ((((((rfl | rfl) | rfl) | rfl) | rfl) | rfl) | rfl) <;> decide

/-- A bracket that closes an array or an object. -/
def IsClosing (c : Char) : Prop := c = ']' ∨ c = '\x7d'

theorem IsClosing.isDelimiter {c : Char} (h : IsClosing c) : isDelimiter c = true := by
  rcases h with rfl | rfl <;> decide

theorem IsClosing.isSpace {c : Char} (h : IsClosing c) : isSpace c = false := by
  rcases h with rfl | rfl <;> decide

/-- A closing bracket is not taken for a comma. -/
theorem IsClosing.space_append_ne_comma {closing : Char} (hc : IsClosing closing)
    {sp : List Char} (hsp : ∀ c ∈ sp, Json.isSpace c = true) (r s : List Char) :
    sp ++ closing :: r ≠ ',' :: s := by
  intro h
  have hskip := congrArg skipSpace h
  rw [skipSpace_append hsp, skipSpace_cons hc.isSpace, skipSpace_cons (by decide)] at hskip
  rcases hc with rfl | rfl <;> cases hskip

/-- The text starts with neither white space nor the closing bracket. -/
def Opens (closing : Char) (text : List Char) : Prop :=
  ∃ c cs, text = c :: cs ∧ isSpace c = false ∧ c ≠ closing

theorem Opens.append {closing : Char} {text : List Char} (h : Opens closing text)
    (rest : List Char) : Opens closing (text ++ rest) := by
  obtain ⟨c, cs, rfl, hs, hne⟩ := h
  exact ⟨c, cs ++ rest, rfl, hs, hne⟩

theorem Opens.skipSpace_eq {closing : Char} {text sp : List Char} (h : Opens closing text)
    (hsp : ∀ c ∈ sp, isSpace c = true) : skipSpace (sp ++ text) = text := by
  obtain ⟨c, cs, rfl, hs, -⟩ := h
  rw [skipSpace_append hsp, skipSpace_cons hs]

theorem opens_member (l : Layout) (name : String) (text : List Char) :
    Opens '\x7d' (l.member name text) := ⟨'"', _, rfl, by decide, by decide⟩

theorem joinLists_cons_cons_append {α : Type} (c : α) (gap a b : List α) (rest : List (List α))
    (k : List α) : Text.joinLists (c :: gap) (a :: b :: rest) ++ k =
      a ++ c :: (gap ++ (Text.joinLists (c :: gap) (b :: rest) ++ k)) := by
  simp [Text.joinLists]

theorem opens_joinLists {closing c : Char} {gap text : List Char} (h : Opens closing text)
    (texts : List (List Char)) (k : List Char) :
    Opens closing (Text.joinLists (c :: gap) (text :: texts) ++ k) := by
  cases texts with
  | nil => exact h.append k
  | cons next texts =>
      rw [joinLists_cons_cons_append]
      exact h.append _

section Enclosed

variable {α : Type} {code : α → List Char} {closing : Char}

/-- Texts with commas between them and a bracket after them are unambiguous if each of them is. -/
theorem joinLists_append_inj (hc : IsClosing closing) {gap sp : List Char}
    (hsp : ∀ c ∈ sp, isSpace c = true) {x y : α} {xs ys : List α} {r s : List Char}
    (hcode : ∀ a ∈ x :: xs, ∀ b ∈ y :: ys, ∀ r s, Ends r → Ends s →
      code a ++ r = code b ++ s → a = b ∧ r = s)
    (h : Text.joinLists (',' :: gap) ((x :: xs).map code) ++ (sp ++ closing :: r) =
      Text.joinLists (',' :: gap) ((y :: ys).map code) ++ (sp ++ closing :: s)) :
    x :: xs = y :: ys ∧ r = s := by
  have hend : ∀ r, Ends (sp ++ closing :: r) := fun r =>
    (ends_cons.mpr hc.isDelimiter).space_append hsp
  have hcomma : ∀ cs, Ends (',' :: cs) := fun cs => ends_cons.mpr (by decide)
  have hxy := hcode x List.mem_cons_self y List.mem_cons_self
  induction xs generalizing x y ys with
  | nil =>
      cases ys with
      | nil =>
          obtain ⟨rfl, htail⟩ := hxy _ _ (hend r) (hend s) h
          have hrs := List.append_cancel_left htail
          rw [List.cons.injEq] at hrs
          exact ⟨rfl, hrs.2⟩
      | cons y' ys =>
          simp only [List.map_cons, joinLists_cons_cons_append] at h
          obtain ⟨-, htail⟩ := hxy _ _ (hend r) (hcomma _) h
          exact absurd htail (hc.space_append_ne_comma hsp _ _)
  | cons x' xs ih =>
      cases ys with
      | nil =>
          simp only [List.map_cons, joinLists_cons_cons_append] at h
          obtain ⟨-, htail⟩ := hxy _ _ (hcomma _) (hend s) h
          exact absurd htail.symm (hc.space_append_ne_comma hsp _ _)
      | cons y' ys =>
          simp only [List.map_cons, joinLists_cons_cons_append] at h
          obtain ⟨rfl, htail⟩ := hxy _ _ (hcomma _) (hcomma _) h
          have hrest := List.append_cancel_left (List.cons.inj htail).2
          have hcode' : ∀ a ∈ x' :: xs, ∀ b ∈ y' :: ys, ∀ r s, Ends r → Ends s →
              code a ++ r = code b ++ s → a = b ∧ r = s := fun a ha b hb =>
            hcode a (List.mem_cons_of_mem _ ha) b (List.mem_cons_of_mem _ hb)
          obtain ⟨he, hrs⟩ := ih hcode' hrest
            (hcode' x' List.mem_cons_self y' List.mem_cons_self)
          exact ⟨by rw [he], hrs⟩

/-- Between brackets there may be no texts at all; a text does not start like a closing bracket. -/
theorem Layout.enclose_append_inj (l : Layout) (opening : Char) (hc : IsClosing closing)
    (depth : ℕ) {xs ys : List α} {r s : List Char}
    (hcode : ∀ a ∈ xs, ∀ b ∈ ys, ∀ r s, Ends r → Ends s →
      code a ++ r = code b ++ s → a = b ∧ r = s)
    (hx : ∀ a ∈ xs, Opens closing (code a)) (hy : ∀ b ∈ ys, Opens closing (code b))
    (h : l.enclose opening closing depth (xs.map code) ++ r =
      l.enclose opening closing depth (ys.map code) ++ s) : xs = ys ∧ r = s := by
  have hempty : ∀ (y : α) (ys : List α) (r s : List Char), Opens closing (code y) →
      l.enclose opening closing depth [] ++ r ≠
        l.enclose opening closing depth (code y :: ys.map code) ++ s := by
    intro y ys r s hy h
    have hopen : Opens closing (Text.joinLists (',' :: l.gap (depth + 1))
        (code y :: ys.map code) ++ (l.gap depth ++ closing :: s)) := opens_joinLists hy _ _
    simp only [enclose, List.cons_append, List.append_assoc, List.nil_append, List.cons.injEq,
      true_and] at h
    have hskip := congrArg skipSpace h
    rw [skipSpace_cons hc.isSpace, hopen.skipSpace_eq (l.isSpace_gap _)] at hskip
    obtain ⟨c, cs, heq, -, hne⟩ := hopen
    rw [heq] at hskip
    exact hne (List.cons.inj hskip).1.symm
  cases xs with
  | nil =>
      cases ys with
      | nil => exact ⟨rfl, List.append_cancel_left h⟩
      | cons y ys => exact absurd h (hempty y ys r s (hy y List.mem_cons_self))
  | cons x xs =>
      cases ys with
      | nil => exact absurd h.symm (hempty x xs s r (hx x List.mem_cons_self))
      | cons y ys =>
          simp only [List.map_cons, enclose, List.cons_append, List.append_assoc, List.cons.injEq,
            true_and] at h
          have htexts := List.append_cancel_left h
          exact joinLists_append_inj hc (l.isSpace_gap _) hcode htexts

end Enclosed

namespace Value

variable {p : ℤ → Prop} {v w : Value} {r s : List Char}

theorem Integral.kind_eq (hv : v.Integral p) (hw : w.Integral p) (l : Layout) (depth : ℕ)
    (h : v.chars l depth ++ r = w.chars l depth ++ s) : v.kind = w.kind := by
  obtain ⟨c, cs, hc, hk⟩ := hv.exists_chars_eq_cons l depth
  obtain ⟨c', cs', hc', hk'⟩ := hw.exists_chars_eq_cons l depth
  rw [hc, hc', List.cons_append, List.cons_append, List.cons.injEq] at h
  rw [h.1, hk'] at hk
  exact (Option.some_inj.mp hk).symm

/-- No value starts like white space or a closing bracket. -/
theorem Integral.opens (hv : v.Integral p) (l : Layout) (depth : ℕ) {closing : Char}
    (hc : IsClosing closing) : Opens closing (v.chars l depth) := by
  obtain ⟨c, cs, hcs, hk⟩ := hv.exists_chars_eq_cons l depth
  refine ⟨c, cs, hcs, ?_, ?_⟩
  · by_contra hs
    simp only [Bool.not_eq_false, isSpace, Bool.or_eq_true, decide_eq_true_eq] at hs
    rcases hs with ((rfl | rfl) | rfl) | rfl <;> cases hk
  · rintro rfl
    rcases hc with rfl | rfl <;> cases hk

/-- A text that starts with a value tells which value it is and where it ends. -/
theorem Integral.chars_append_inj (hv : v.Integral p) (hw : w.Integral p) (l : Layout)
    {depth : ℕ} (hr : Ends r) (hs : Ends s)
    (h : v.chars l depth ++ r = w.chars l depth ++ s) : v = w ∧ r = s := by
  have hkind := hv.kind_eq hw l depth h
  induction hv generalizing w depth r s with
  | null =>
      cases hw with
      | null => exact ⟨rfl, List.append_cancel_left h⟩
      | _ => cases hkind
  | @bool b =>
      cases hw with
      | bool =>
          cases hkind
          exact ⟨rfl, List.append_cancel_left h⟩
      | _ => cases hkind
  | @number m hm =>
      cases hw with
      | @number n hn =>
          rw [chars, chars, Number.write, Number.write] at h
          obtain ⟨rfl, hrest⟩ := Text.toString_append_inj
            (fun c hc => isNumeric_of_isDelimiter (hr c hc))
            (fun c hc => isNumeric_of_isDelimiter (hs c hc)) h
          exact ⟨rfl, hrest⟩
      | _ => cases hkind
  | @string a =>
      cases hw with
      | @string b =>
          rw [chars, chars] at h
          obtain ⟨rfl, hrest⟩ := writeString_append_inj h
          exact ⟨rfl, hrest⟩
      | _ => cases hkind
  | @array items hitems ih =>
      cases hw with
      | @array items' hitems' =>
          rw [chars_array, chars_array] at h
          have hcode : ∀ a ∈ items, ∀ b ∈ items', ∀ r s, Ends r → Ends s →
              a.chars l (depth + 1) ++ r = b.chars l (depth + 1) ++ s → a = b ∧ r = s :=
            fun a ha b hb r s hr hs h =>
              ih a ha (hitems' b hb) hr hs h ((hitems a ha).kind_eq (hitems' b hb) l _ h)
          obtain ⟨rfl, hrest⟩ := l.enclose_append_inj '[' (.inl rfl) depth hcode
            (fun a ha => (hitems a ha).opens l _ (.inl rfl))
            (fun b hb => (hitems' b hb).opens l _ (.inl rfl)) h
          exact ⟨rfl, hrest⟩
      | _ => cases hkind
  | @object members hmembers ih =>
      cases hw with
      | @object members' hmembers' =>
          rw [chars, chars] at h
          have hcode : ∀ a ∈ members, ∀ b ∈ members', ∀ r s, Ends r → Ends s →
              l.member a.1 (a.2.chars l (depth + 1)) ++ r =
                l.member b.1 (b.2.chars l (depth + 1)) ++ s → a = b ∧ r = s := by
            intro a ha b hb r s hr hs h
            simp only [Layout.member, List.append_assoc, List.cons_append] at h
            obtain ⟨hname, h⟩ := writeString_append_inj h
            have hvalue := List.append_cancel_left (List.cons.inj h).2
            obtain ⟨hv, hrest⟩ := ih a ha (hmembers' b hb) hr hs hvalue
              ((hmembers a ha).kind_eq (hmembers' b hb) l _ hvalue)
            exact ⟨Prod.ext hname hv, hrest⟩
          obtain ⟨rfl, hrest⟩ := l.enclose_append_inj '\x7b' (.inr rfl) depth hcode
            (fun a _ => opens_member l a.1 _) (fun b _ => opens_member l b.1 _) h
          exact ⟨rfl, hrest⟩
      | _ => cases hkind

theorem Integral.pretty_inj (hv : v.Integral p) (hw : w.Integral p) (h : v.pretty = w.pretty) :
    v = w := by
  have hchars := congrArg String.toList h
  rw [toList_pretty, toList_pretty] at hchars
  exact (hv.chars_append_inj hw .pretty ends_nil ends_nil (by rw [hchars])).1

end Value

end ResourceAgent.Json
