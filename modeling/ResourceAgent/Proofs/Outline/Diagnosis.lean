import Mathlib.Order.Bounds.Basic
import ResourceAgent.Proofs.Outline.Lineage
import ResourceAgent.Proofs.Outline.Reading

/-!
# What the errors say is true

Each error of the reader says something about the lines of the text: which line is at fault, how it
is divided, and how deep it should have been. `Error.Describes` is what it says, in terms of the
lines and their lineages, without any open sections.

The link is `Tracks`: at each point of the reading the depths of the open trees, innermost first,
are the indentations up the lineage of the last line that was read, and after a branch line the
depth of its children besides. One line of the reader preserves this.
-/
namespace ResourceAgent.Outline

/-- The depths of the blocks that are open after the line: that of the whole outline, and those of
the blocks around the line. -/
def depthsAfter (ls : List Line) (line : Line) : Set ℕ :=
  {d | d = 0 ∨ ∃ a ∈ lineage ls line, a.indent = d}

/-- What an error says about the lines of a text. -/
def Error.Describes (ls : List Line) : Error → Prop
  | .emptyInput => ls = []
  | .malformedLine n => ∃ line ∈ ls, line.number = n ∧
      (':' ∉ line.text ∨ ∀ c ∈ line.text.takeWhile (· != ':'), Text.isBlank c = true)
  | .incompleteSection n name => ∃ line, ls.getLast? = some line ∧ line.number = n ∧
      line.IsBranch ∧ line.name = name
  | .inconsistent n expected found => ∃ before line after, ls = before ++ line :: after ∧
      line.number = n ∧ line.indent = found ∧ found ≠ expected ∧
      (found < expected → ∃ prev, before.getLast? = some prev ∧ prev.IsBranch ∧
        expected = prev.indent + 1) ∧
      (expected < found → (before = [] ∧ expected = 0) ∨
        ∃ prev, before.getLast? = some prev ∧ prev.IsLeaf ∧
          IsGreatest {d | d ∈ depthsAfter ls prev ∧ d ≤ found} expected)

/-- The first of descending numbers that is not too great is the greatest such number. -/
theorem isGreatest_of_head?_dropWhile {ds : List ℕ} {k d : ℕ} (hs : ds.Pairwise (· > ·))
    (hd : (ds.dropWhile (k < ·)).head? = some d) : IsGreatest {x | x ∈ ds ∧ x ≤ k} d := by
  induction ds with
  | nil => simp at hd
  | cons x ds ih =>
      obtain ⟨hx, hs⟩ := List.pairwise_cons.mp hs
      rw [List.dropWhile_cons] at hd
      split_ifs at hd with hk
      · have hgt : k < x := by simpa using hk
        obtain ⟨⟨hmem, hle⟩, hmax⟩ := ih hs hd
        refine ⟨⟨List.mem_cons_of_mem _ hmem, hle⟩, ?_⟩
        rintro y ⟨hy, hyk⟩
        rcases List.mem_cons.mp hy with rfl | hy
        · omega
        · exact hmax ⟨hy, hyk⟩
      · rw [List.head?_cons, Option.some.injEq] at hd
        subst hd
        refine ⟨⟨List.mem_cons_self, by simpa using hk⟩, ?_⟩
        rintro y ⟨hy, -⟩
        rcases List.mem_cons.mp hy with rfl | hy
        · exact le_rfl
        · exact (hx y hy).le

/-- If the first of descending numbers that is not greater than `k` is `k`, the smaller ones
follow. -/
theorem dropWhile_eq_cons_filter {ds : List ℕ} {k : ℕ} (hs : ds.Pairwise (· > ·))
    (hk : (ds.dropWhile (k < ·)).head? = some k) :
    ds.dropWhile (k < ·) = k :: ds.filter (· < k) := by
  induction ds with
  | nil => simp at hk
  | cons x ds ih =>
      obtain ⟨hx, hs⟩ := List.pairwise_cons.mp hs
      rw [List.dropWhile_cons] at hk ⊢
      split_ifs at hk ⊢ with hgt
      · have hnot : ¬ x < k := by
          have : k < x := by simpa using hgt
          omega
        rw [ih hs hk, List.filter_cons, if_neg (by simpa using hnot)]
      · rw [List.head?_cons, Option.some.injEq] at hk
        subst hk
        have hall : ∀ y ∈ ds, decide (y < x) = true := fun y hy => decide_eq_true (hx y hy)
        rw [List.filter_cons, if_neg (by simp), List.filter_eq_self.mpr hall]

namespace Progress

/-- The depths of the open trees, innermost first. The outermost one is never closed. -/
def depths (p : Progress) : List ℕ := p.frames.map Frame.depth ++ [0]

theorem head?_depths (p : Progress) : p.depths.head? = some p.depth := by
  rcases h : p.frames with _ | ⟨frame, outer⟩ <;> simp [depths, depth, h]

theorem zero_mem_depths (p : Progress) : 0 ∈ p.depths := by simp [depths]

@[simp] theorem depths_start : start.depths = [0] := rfl

@[simp] theorem depths_push (depth : ℕ) (name : String) (p : Progress) :
    (p.push depth name).depths = depth :: p.depths := rfl

@[simp] theorem depths_bind (name : String) (entry : Section) (p : Progress) :
    (p.bind name entry).depths = p.depths := by
  unfold bind
  split <;> simp_all [depths]

/-- A line closes the trees that are deeper than it. -/
theorem depths_closeAbove (p : Progress) (k : ℕ) :
    (p.closeAbove k).depths = p.depths.dropWhile (k < ·) := by
  fun_induction p.closeAbove k with
  | case1 p hf => simp [depths, hf]
  | case2 p frame outer hf hlt ih =>
      have hcons : p.depths = frame.depth :: depths ⟨outer, p.root⟩ := by simp [depths, hf]
      rw [ih, depths_bind, hcons, List.dropWhile_cons_of_pos (by simpa using hlt)]
  | case3 p frame outer hf hlt =>
      have hcons : p.depths = frame.depth :: depths ⟨outer, p.root⟩ := by simp [depths, hf]
      rw [hcons, List.dropWhile_cons_of_neg (by simpa using hlt)]

end Progress

/-- The indentations up the lineage of a line. -/
def depthsAbove (ls : List Line) (line : Line) : List ℕ :=
  ((lineage ls line).map Line.indent).reverse

/-- The depths of the open trees are those that the lines read before tell; of the lines that come
next only the first one matters, and only after a branch line. -/
inductive Tracks (ls : List Line) : List Line → List Line → Progress → Prop
  | start {rest p} : p.depths = [0] → Tracks ls [] rest p
  | leaf {before prev rest p} : prev.IsLeaf → p.depths = depthsAbove ls prev →
      Tracks ls (before ++ [prev]) rest p
  | branch {before prev next rest p} : prev.IsBranch → prev.indent < next.indent →
      p.depths = next.indent :: depthsAbove ls prev →
      Tracks ls (before ++ [prev]) (next :: rest) p

variable {ls before rest : List Line} {line prev : Line} {p : Progress}

theorem pairwise_depthsAbove (ls : List Line) (line : Line) :
    (depthsAbove ls line).Pairwise (· > ·) :=
  List.pairwise_reverse.mpr (List.pairwise_map.mpr (pairwise_lineage ls line))

theorem mem_depthsAbove {d : ℕ} :
    d ∈ depthsAbove ls line ↔ ∃ a ∈ lineage ls line, a.indent = d := by
  simp [depthsAbove]

theorem depthsAbove_first (ho : InOrder (line :: rest)) :
    depthsAbove (line :: rest) line = [line.indent] := by
  have hparent : parent? (line :: rest) line = none := by
    refine nearest?_eq_none_iff.mpr fun a ha hn => ?_
    rcases List.mem_cons.mp ha with rfl | ha
    · exact absurd hn (lt_irrefl _)
    · exact absurd hn ((List.pairwise_cons.mp ho).1 a ha).le.not_gt
  simp [depthsAbove, lineage_of_parent?_eq_none hparent]

/-- The depths above a line from those above the line before it. -/
theorem depthsAbove_next {after : List Line} (ho : InOrder (before ++ prev :: line :: after)) :
    depthsAbove (before ++ prev :: line :: after) line =
      line.indent :: (depthsAbove (before ++ prev :: line :: after) prev).filter
        (· < line.indent) := by
  have hlineage := lineage_next ho (by simp) ho.number_lt_iff
  rw [depthsAbove, hlineage, List.map_append, List.reverse_append, depthsAbove, List.filter_reverse,
    List.filter_map]
  rfl

/-- Once a line has closed what is deeper, and is as deep as asked for, the open trees are those of
its own lineage. -/
theorem Tracks.depths_eq (ht : Tracks ls before (line :: rest) p) (ho : InOrder ls)
    (hls : ls = before ++ line :: rest)
    (hd : (p.closeAbove line.indent).depth = line.indent) :
    (p.closeAbove line.indent).depths = depthsAbove ls line := by
  have hhead := (p.closeAbove line.indent).head?_depths
  rw [hd] at hhead
  rw [Progress.depths_closeAbove] at hhead ⊢
  cases ht with
  | start hp =>
      rw [hp] at hhead ⊢
      have hzero : line.indent = 0 := by simpa using hhead.symm
      subst hls
      rw [List.nil_append, depthsAbove_first ho, hzero]
      rfl
  | leaf hleaf hp =>
      rw [List.append_assoc, List.singleton_append] at hls
      subst hls
      rw [hp] at hhead ⊢
      rw [dropWhile_eq_cons_filter (pairwise_depthsAbove _ _) hhead, depthsAbove_next ho]
  | @branch before prev _ _ _ hbranch hlt hp =>
      rw [List.append_assoc, List.singleton_append] at hls
      subst hls
      have hall : ∀ d ∈ depthsAbove (before ++ prev :: line :: rest) prev,
          decide (d < line.indent) = true := by
        intro d hm
        obtain ⟨a, ha, rfl⟩ := mem_depthsAbove.mp hm
        exact decide_eq_true ((indent_le_of_mem_lineage ha).trans_lt hlt)
      rw [hp, depthsAbove_next ho, List.filter_eq_self.mpr hall,
        List.dropWhile_cons_of_neg (by simp)]

/-- A line that is deeper than what is open after it has closed what is deeper: it is the first
line, or comes after a leaf, and its depth should have been the greatest open one not beyond it. -/
theorem Tracks.describes_deeper (ht : Tracks ls before (line :: rest) p)
    (hls : ls = before ++ line :: rest)
    (hd : (p.closeAbove line.indent).depth < line.indent) :
    Error.Describes ls
      (.inconsistent line.number (p.closeAbove line.indent).depth line.indent) := by
  have hhead := (p.closeAbove line.indent).head?_depths
  rw [Progress.depths_closeAbove] at hhead
  refine ⟨before, line, rest, hls, rfl, rfl, hd.ne', fun hlt => absurd hlt hd.not_gt, fun _ => ?_⟩
  cases ht with
  | start hp =>
      rw [hp] at hhead
      exact .inl ⟨rfl, by simpa using hhead.symm⟩
  | @leaf _ prev _ _ hleaf hp =>
      right
      refine ⟨prev, by simp, hleaf, ?_⟩
      have hset : {d | d ∈ depthsAfter ls prev ∧ d ≤ line.indent} =
          {d | d ∈ depthsAbove ls prev ∧ d ≤ line.indent} := by
        have hzero : 0 ∈ depthsAbove ls prev := hp ▸ p.zero_mem_depths
        ext d
        refine and_congr_left fun _ => ?_
        rw [mem_depthsAbove]
        exact ⟨fun h => h.elim (fun he => he ▸ mem_depthsAbove.mp hzero) id, .inr⟩
      rw [hset]
      rw [hp] at hhead
      exact isGreatest_of_head?_dropWhile (pairwise_depthsAbove ls prev) hhead
  | branch hbranch hlt hp =>
      rw [hp, List.dropWhile_cons_of_neg (by simp), List.head?_cons, Option.some.injEq] at hhead
      omega

/-- Whatever error a reading ends with after some lines, it describes the lines. -/
theorem Reading.describes {result : Except Error Tree} (ho : InOrder ls)
    (h : Reading p rest result) (hls : ls = before ++ rest) (ht : Tracks ls before rest p) :
    ∀ e, result = .error e → e.Describes ls := by
  induction h generalizing before with
  | done p =>
      rintro e ⟨⟩
  | deeper hlt =>
      rintro e ⟨⟩
      exact ht.describes_deeper hls hlt
  | @malformed p line rest hd hb =>
      rintro e ⟨⟩
      refine ⟨line, by simp [hls], rfl, ?_⟩
      by_cases hc : ':' ∈ line.text
      · right
        rw [← Line.name_eq_empty_iff]
        by_contra hn
        exact hb ⟨hc, hn⟩
      · exact .inl hc
  | leaf hd hl _ ih =>
      have hq := ht.depths_eq ho hls hd
      exact ih (hls.trans (List.append_cons ..)) (.leaf hl (by rw [Progress.depths_bind, hq]))
  | @incomplete p line hd hb =>
      rintro e ⟨⟩
      exact ⟨line, by simp [hls], rfl, hb, rfl⟩
  | @childless p line next rest hd hb hn =>
      rintro e ⟨⟩
      refine ⟨before ++ [line], next, rest, hls.trans (List.append_cons ..), rfl, rfl, by omega,
        fun _ => ⟨line, by simp, hb, rfl⟩, fun hlt => by omega⟩
  | branch hd hb hn _ ih =>
      have hq := ht.depths_eq ho hls hd
      exact ih (hls.trans (List.append_cons ..)) (.branch hb hn (by rw [Progress.depths_push, hq]))

theorem describes_of_readLines {e : Error} (ho : InOrder ls)
    (h : readLines .start ls = .error e) : e.Describes ls := by
  have ht : Tracks ls [] ls .start := .start rfl
  exact (reading_readLines .start ls).describes ho rfl ht e h

theorem parse_eq_emptyInput_iff {text : String} :
    parse text = .error .emptyInput ↔ linesOf text = [] := by
  constructor
  · intro h
    by_contra hne
    rw [parse_eq_readLines hne] at h
    exact hne (describes_of_readLines (inOrder_linesOf text) h)
  · intro h
    rw [parse, h]

theorem describes_of_parse {text : String} {e : Error} (h : parse text = .error e) :
    e.Describes (linesOf text) := by
  by_cases hne : linesOf text = []
  · rw [parse_eq_emptyInput_iff.mpr hne] at h
    cases h
    exact hne
  · rw [parse_eq_readLines hne] at h
    exact describes_of_readLines (inOrder_linesOf text) h

/-- The error for a text without lines comes exactly for those, and each error describes the lines
of the text. -/
theorem parse_error_describes (text : String) :
    (parse text = .error .emptyInput ↔
      ∀ line ∈ textLines text, line.all Text.isBlank = true) ∧
    LinesIn text (linesOf text) ∧
    ∀ e, parse text = .error e → e.Describes (linesOf text) := by
  refine ⟨?_, linesIn_linesOf text, fun e => describes_of_parse⟩
  rw [parse_eq_emptyInput_iff, linesOf_eq_nil_iff]

/-- A line between two depths that are open: the smaller one was expected. -/
theorem parse_error_describes_between :
    let text := "a:\n  b:\n    c: 1\n   d: 2"
    parse text = .error (.inconsistent 4 2 3) ∧
      Error.Describes (linesOf text) (.inconsistent 4 2 3) := by
  intro text
  have h : parse text = .error (.inconsistent 4 2 3) := by decide +kernel
  exact ⟨h, (parse_error_describes text).2.2 _ h⟩

end ResourceAgent.Outline
