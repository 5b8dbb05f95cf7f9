import Mathlib.Data.List.Nodup
import ResourceAgent.Proofs.Outline.Line

/-!
# The lines above a line

The parent of a line is the nearest line before it that is indented less. Going from parent to
parent gives the lineage of a line, written from the outermost line down to the line itself.

This looks back over all the lines before, whereas a reader goes forward. `lineage_next` has the
forward form: the lineage of a line is that of the line before it, without those lines in it that
are not indented less, and the line itself.
-/
namespace ResourceAgent.Outline

/-- The last of the lines before the given number that are indented less than the depth. -/
def nearest? (ls : List Line) (number depth : ℕ) : Option Line :=
  (ls.filter fun a => a.number < number ∧ a.indent < depth).getLast?

/-- The nearest line before the given one that is indented less. -/
def parent? (ls : List Line) (line : Line) : Option Line := nearest? ls line.number line.indent

variable {ls ls' : List Line} {line prev a b c : Line} {n k : ℕ}

theorem mem_of_nearest? (h : nearest? ls n k = some a) : a ∈ ls ∧ a.number < n ∧ a.indent < k := by
  simpa using List.mem_of_getLast? h

/-- The lines from the outermost one down to the given one, each the parent of the next. -/
def lineage (ls : List Line) (line : Line) : List Line :=
  match _eq : parent? ls line with
  | none => [line]
  | some a => lineage ls a ++ [line]
termination_by line.number
decreasing_by exact (mem_of_nearest? _eq).2.1

theorem lineage_of_parent?_eq_none (h : parent? ls line = none) : lineage ls line = [line] := by
  rw [lineage]
  split
  · rfl
  · simp_all

theorem lineage_of_parent?_eq_some (h : parent? ls line = some a) :
    lineage ls line = lineage ls a ++ [line] := by
  rw [lineage]
  split
  · simp_all
  · simp_all

theorem nearest?_append (ls ls' : List Line) (n k : ℕ) :
    nearest? (ls ++ ls') n k = (nearest? ls' n k).or (nearest? ls n k) := by
  rw [nearest?, List.filter_append, List.getLast?_append]
  rfl

theorem nearest?_eq_none_iff :
    nearest? ls n k = none ↔ ∀ a ∈ ls, a.number < n → k ≤ a.indent := by
  simp [nearest?]

theorem nearest?_singleton (hn : a.number < n) (hk : a.indent < k) :
    nearest? [a] n k = some a := by
  simp [nearest?, hn, hk]

/-- No line is nearer than the nearest one. -/
theorem number_le_of_nearest? (ho : InOrder ls) (h : nearest? ls n k = some a) :
    ∀ c ∈ ls, c.number < n → c.indent < k → c.number ≤ a.number := by
  intro c hc hn hk
  have hf : InOrder (ls.filter fun a => a.number < n ∧ a.indent < k) := List.Pairwise.filter _ ho
  obtain ⟨init, hinit⟩ := List.getLast?_eq_some_iff.mp h
  have hm : c ∈ init ++ [a] := by
    rw [← hinit]
    simp [hc, hn, hk]
  rw [hinit, InOrder, List.pairwise_append] at hf
  rcases List.mem_append.mp hm with hm | hm
  · exact (hf.2.2 c hm a List.mem_cons_self).le
  · exact (List.mem_singleton.mp hm ▸ le_rfl)

theorem InOrder.eq_of_number_eq (ho : InOrder ls) (ha : a ∈ ls) (hb : b ∈ ls)
    (h : a.number = b.number) : a = b := by
  have hn : (ls.map Line.number).Nodup := List.pairwise_map.mpr (ho.imp fun hlt => ne_of_lt hlt)
  exact List.inj_on_of_nodup_map hn ha hb h

theorem nearest?_eq_some_iff (ho : InOrder ls) :
    nearest? ls n k = some a ↔ a ∈ ls ∧ a.number < n ∧ a.indent < k ∧
      ∀ c ∈ ls, c.number < n → c.indent < k → c.number ≤ a.number := by
  constructor
  · intro h
    obtain ⟨hm, hn, hk⟩ := mem_of_nearest? h
    exact ⟨hm, hn, hk, number_le_of_nearest? ho h⟩
  · rintro ⟨hm, hn, hk, hmax⟩
    cases h : nearest? ls n k with
    | none =>
        have := nearest?_eq_none_iff.mp h a hm hn
        omega
    | some b =>
        obtain ⟨hb, hbn, hbk⟩ := mem_of_nearest? h
        have h₁ := hmax b hb hbn hbk
        have h₂ := number_le_of_nearest? ho h a hm hn hk
        rw [ho.eq_of_number_eq hb hm (le_antisymm h₁ h₂)]

/-- The nearest line is the same for two numbers with no candidate between them. -/
theorem nearest?_congr {m : ℕ}
    (h : ∀ c ∈ ls, c.indent < k → (c.number < n ↔ c.number < m)) :
    nearest? ls n k = nearest? ls m k := by
  unfold nearest?
  congr 1
  refine List.filter_congr fun c hc => ?_
  by_cases hk : c.indent < k
  · simp [hk, h c hc hk]
  · simp [hk]

theorem self_mem_lineage (ls : List Line) (line : Line) : line ∈ lineage ls line := by
  cases h : parent? ls line with
  | none => simp [lineage_of_parent?_eq_none h]
  | some a => simp [lineage_of_parent?_eq_some h]

theorem indent_le_of_mem_lineage (h : a ∈ lineage ls line) : a.indent ≤ line.indent := by
  fun_induction lineage ls line with
  | case1 line hp => exact (List.mem_singleton.mp h) ▸ le_rfl
  | case2 line b hp ih =>
      rcases List.mem_append.mp h with h | h
      · exact (ih h).trans (mem_of_nearest? hp).2.2.le
      · exact (List.mem_singleton.mp h) ▸ le_rfl

theorem mem_of_mem_lineage (hl : line ∈ ls) (h : a ∈ lineage ls line) : a ∈ ls := by
  fun_induction lineage ls line with
  | case1 line hp => exact (List.mem_singleton.mp h) ▸ hl
  | case2 line b hp ih =>
      rcases List.mem_append.mp h with h | h
      · exact ih (mem_of_nearest? hp).1 h
      · exact (List.mem_singleton.mp h) ▸ hl

/-- Down a lineage the lines are indented more and more. -/
theorem pairwise_lineage (ls : List Line) (line : Line) :
    (lineage ls line).Pairwise (·.indent < ·.indent) := by
  fun_induction lineage ls line with
  | case1 line hp => exact List.pairwise_singleton _ _
  | case2 line b hp ih =>
      refine List.pairwise_append.mpr ⟨ih, List.pairwise_singleton _ _, fun a ha c hc => ?_⟩
      rw [List.mem_singleton.mp hc]
      exact (indent_le_of_mem_lineage ha).trans_lt (mem_of_nearest? hp).2.2

/-- The part of a lineage that is indented less than a depth is the lineage of the nearest line that
is so. The induction goes up the lineage, past the lines that are not indented less. -/
theorem filter_lineage (ho : InOrder ls) (hk : k ≤ line.indent) :
    (lineage ls line).filter (·.indent < k) =
      ((nearest? ls line.number k).map (lineage ls)).getD [] := by
  fun_induction lineage ls line with
  | case1 line hp =>
      have hnone : nearest? ls line.number k = none :=
        nearest?_eq_none_iff.mpr fun a ha hn => hk.trans (nearest?_eq_none_iff.mp hp a ha hn)
      simp [hnone, hk]
  | case2 line a hp ih =>
      obtain ⟨ha, han, hak⟩ := mem_of_nearest? hp
      have hmax := number_le_of_nearest? ho hp
      have hdrop : [line].filter (·.indent < k) = [] := by simp [hk]
      rw [List.filter_append, hdrop, List.append_nil]
      by_cases hlt : a.indent < k
      · have hsome : nearest? ls line.number k = some a :=
          (nearest?_eq_some_iff ho).mpr
            ⟨ha, han, hlt, fun c hc hn hck => hmax c hc hn (hck.trans_le hk)⟩
        have hall : ∀ c ∈ lineage ls a, decide (c.indent < k) = true := fun c hc =>
          decide_eq_true ((indent_le_of_mem_lineage hc).trans_lt hlt)
        rw [hsome, List.filter_eq_self.mpr hall]
        rfl
      · have hsame : nearest? ls line.number k = nearest? ls a.number k := by
          refine nearest?_congr fun c hc hck => ⟨fun hn => ?_, fun hn => hn.trans han⟩
          refine lt_of_le_of_ne (hmax c hc hn (hck.trans_le hk)) fun he => hlt ?_
          exact ho.eq_of_number_eq hc ha he ▸ hck
        rw [hsame, ih (Nat.not_lt.mp hlt)]

/-- The lineage of a line from that of the line right before it. -/
theorem lineage_next (ho : InOrder ls) (hp : prev ∈ ls)
    (hnext : ∀ c ∈ ls, c.number < line.number ↔ c.number ≤ prev.number) :
    lineage ls line = (lineage ls prev).filter (·.indent < line.indent) ++ [line] := by
  have hlt : prev.number < line.number := (hnext prev hp).mpr le_rfl
  by_cases hd : prev.indent < line.indent
  · have hparent : parent? ls line = some prev :=
      (nearest?_eq_some_iff ho).mpr ⟨hp, hlt, hd, fun c hc hn _ => (hnext c hc).mp hn⟩
    have hall : ∀ c ∈ lineage ls prev, decide (c.indent < line.indent) = true := fun c hc =>
      decide_eq_true ((indent_le_of_mem_lineage hc).trans_lt hd)
    rw [lineage_of_parent?_eq_some hparent, List.filter_eq_self.mpr hall]
  · have hsame : parent? ls line = nearest? ls prev.number line.indent := by
      refine nearest?_congr fun c hc hck => (hnext c hc).trans ⟨fun hle => ?_, le_of_lt⟩
      refine lt_of_le_of_ne hle fun he => hd ?_
      exact ho.eq_of_number_eq hc hp he ▸ hck
    rw [filter_lineage ho (Nat.not_lt.mp hd), ← hsame]
    cases h : parent? ls line with
    | none => rw [lineage_of_parent?_eq_none h]; rfl
    | some a => rw [lineage_of_parent?_eq_some h]; rfl

/-- No line comes between two neighbours. -/
theorem InOrder.number_lt_iff {before after : List Line}
    (ho : InOrder (before ++ prev :: line :: after)) :
    ∀ c ∈ before ++ prev :: line :: after, c.number < line.number ↔ c.number ≤ prev.number := by
  simp only [InOrder, List.pairwise_append, List.pairwise_cons, List.mem_cons] at ho
  obtain ⟨-, ⟨hprev, hline, -⟩, hbefore⟩ := ho
  have hlt : prev.number < line.number := hprev line (.inl rfl)
  simp only [List.mem_append, List.mem_cons]
  rintro c (hc | rfl | rfl | hc)
  · have := hbefore c hc prev (.inl rfl)
    omega
  · omega
  · omega
  · have := hline c hc
    omega

end ResourceAgent.Outline
