import Mathlib.Data.List.Forall2
import Mathlib.Order.Monotone.Basic
import ResourceAgent.Proofs.Outline.Reading

/-!
# Outlines laid out anew

Blank lines, the blanks at the end of a line and the kind of the blanks at its start make no
difference to an outline, and of the indentations only their order counts. So if the lines of two
texts correspond, with the same names and values and with indentations that some increasing function
takes from the one to the other, both texts are read alike: as the same tree, or with the same error
about corresponding lines, in which the depths are taken along by the function.

The two runs go side by side: in each step the progress of the second is that of the first with its
depths taken along (`Progress.taken`). The outermost tree may be taken along too, by any function
that names can be bound under, so that the second run may start from a tree that has bindings.
-/
namespace ResourceAgent.Outline

/-- Both lines are without a colon, or both without a name before it, or they have the same name and
the same value. -/
def DividedAlike (a b : Line) : Prop :=
  (':' ∉ a.text ∧ ':' ∉ b.text) ∨
    (':' ∈ a.text ∧ ':' ∈ b.text ∧
      (a.name = "" ∧ b.name = "" ∨ a.name = b.name ∧ a.value = b.value))

instance (a b : Line) : Decidable (DividedAlike a b) :=
  inferInstanceAs (Decidable (_ ∨ _))

/-- The second line is the first one at the depth that the function gives. -/
structure Corresponds (f : ℕ → ℕ) (a b : Line) : Prop where
  indent_eq : b.indent = f a.indent
  divided : DividedAlike a b

/-- How an error about lines reads when each line has become the one that it is paired with. -/
inductive Error.Becomes (f : ℕ → ℕ) (pairs : List (Line × Line)) : Error → Error → Prop
  | emptyInput : Becomes f pairs .emptyInput .emptyInput
  | malformedLine {a b} : (a, b) ∈ pairs →
      Becomes f pairs (.malformedLine a.number) (.malformedLine b.number)
  | incompleteSection {a b} (name) : (a, b) ∈ pairs →
      Becomes f pairs (.incompleteSection a.number name) (.incompleteSection b.number name)
  | inconsistent {before a b after} (depth found) : pairs = before ++ (a, b) :: after →
      (∀ prev ∈ before.getLast?, ¬ prev.1.IsBranch) →
      Becomes f pairs (.inconsistent a.number depth found)
        (.inconsistent b.number (f depth) (f found))
  | afterBranch {before prev a b after} (depth found) :
      pairs = before ++ prev :: (a, b) :: after → prev.1.IsBranch →
      Becomes f pairs (.inconsistent a.number (depth + 1) found)
        (.inconsistent b.number (f depth + 1) (f found))

/-- The same tree, or an error and what it becomes. -/
inductive ReadAlike (f : ℕ → ℕ) (pairs : List (Line × Line)) :
    Except Error Tree → Except Error Tree → Prop
  | tree (tree) : ReadAlike f pairs (.ok tree) (.ok tree)
  | error {e e'} : Error.Becomes f pairs e e' → ReadAlike f pairs (.error e) (.error e')

variable {f : ℕ → ℕ} {a b : Line}

theorem DividedAlike.binds_iff (h : DividedAlike a b) : a.Binds ↔ b.Binds := by
  rcases h with ⟨ha, hb⟩ | ⟨ha, hb, ⟨hna, hnb⟩ | ⟨hn, -⟩⟩
  · exact ⟨fun h => absurd h.colon_mem ha, fun h => absurd h.colon_mem hb⟩
  · exact ⟨fun h => absurd hna h.name_ne, fun h => absurd hnb h.name_ne⟩
  · exact ⟨fun h => ⟨hb, hn ▸ h.name_ne⟩, fun h => ⟨ha, hn.symm ▸ h.name_ne⟩⟩

theorem DividedAlike.name_and_value_eq (h : DividedAlike a b) (hb : a.Binds) :
    a.name = b.name ∧ a.value = b.value := by
  rcases h with ⟨ha, -⟩ | ⟨-, -, ⟨hna, -⟩ | h⟩
  · exact absurd hb.colon_mem ha
  · exact absurd hna hb.name_ne
  · exact h

theorem DividedAlike.isLeaf (h : DividedAlike a b) (hl : a.IsLeaf) : b.IsLeaf :=
  ⟨h.binds_iff.mp hl.toBinds, (h.name_and_value_eq hl.toBinds).2 ▸ hl.value_ne⟩

theorem DividedAlike.isBranch (h : DividedAlike a b) (hb : a.IsBranch) : b.IsBranch :=
  ⟨h.binds_iff.mp hb.toBinds, (h.name_and_value_eq hb.toBinds).2 ▸ hb.value_eq⟩

/-- What becomes of the depths and of the outermost tree when lines are read in another layout. -/
structure Layout (f : ℕ → ℕ) (g : Tree → Tree) : Prop where
  strictMono : StrictMono f
  zero : f 0 = 0
  insert : ∀ name entry tree, g (tree.insert name entry) = (g tree).insert name entry

variable {g : Tree → Tree}

namespace Progress

/-- The progress with its depths and its outermost tree taken along. -/
def taken (f : ℕ → ℕ) (g : Tree → Tree) (p : Progress) : Progress :=
  ⟨p.frames.map fun frame => ⟨f frame.depth, frame.name, frame.entries⟩, g p.root⟩

theorem taken_push (depth : ℕ) (name : String) (p : Progress) :
    (p.push depth name).taken f g = (p.taken f g).push (f depth) name := rfl

theorem taken_of_frames_eq_cons {p : Progress} {frame : Frame} {outer : List Frame}
    (hp : p.frames = frame :: outer) : p.taken f g =
      ⟨⟨f frame.depth, frame.name, frame.entries⟩ :: (taken f g ⟨outer, p.root⟩).frames,
        (taken f g ⟨outer, p.root⟩).root⟩ := by
  simp [taken, hp]

variable (h : Layout f g)
include h

theorem depth_taken (p : Progress) : (p.taken f g).depth = f p.depth := by
  rcases hp : p.frames with _ | ⟨frame, outer⟩ <;> simp [taken, depth, hp, h.zero]

theorem taken_bind (name : String) (entry : Section) (p : Progress) :
    (p.bind name entry).taken f g = (p.taken f g).bind name entry := by
  rcases hp : p.frames with _ | ⟨frame, outer⟩ <;> simp [taken, bind, hp, h.insert]

theorem taken_closeAbove (k : ℕ) (p : Progress) :
    (p.closeAbove k).taken f g = (p.taken f g).closeAbove (f k) := by
  fun_induction closeAbove k p with
  | case1 p hp =>
      have hd : (p.taken f g).depth = 0 := by simp [taken, depth, hp]
      rw [closeAbove_of_depth_le (hd.trans_le (Nat.zero_le _))]
  | case2 p frame outer hp hlt ih =>
      rw [ih, taken_bind h, taken_of_frames_eq_cons hp, closeAbove_frame (h.strictMono hlt)]
  | case3 p frame outer hp hle =>
      have hd : (p.taken f g).depth = f frame.depth := by simp [taken, depth, hp]
      have hle : f frame.depth ≤ f k := h.strictMono.monotone (Nat.not_lt.mp hle)
      rw [closeAbove_of_depth_le (hd.trans_le hle)]

theorem closeAll_taken (p : Progress) : (p.taken f g).closeAll = g p.closeAll := by
  fun_induction closeAll p with
  | case1 p hp =>
      have hroot : p.taken f g = ⟨[], g p.root⟩ := by simp [taken, hp]
      rw [hroot, closeAll_root]
  | case2 p frame outer hp ih =>
      rw [taken_of_frames_eq_cons hp, closeAll_frame, ← taken_bind h, ih]

end Progress

theorem Corresponds.closeAbove_eq (hab : Corresponds f a b) (h : Layout f g) (p : Progress) :
    (p.taken f g).closeAbove b.indent = (p.closeAbove a.indent).taken f g := by
  rw [hab.indent_eq, Progress.taken_closeAbove h]

theorem Corresponds.depth_closeAbove (hab : Corresponds f a b) (h : Layout f g) (p : Progress) :
    ((p.taken f g).closeAbove b.indent).depth = f (p.closeAbove a.indent).depth := by
  rw [hab.closeAbove_eq h, Progress.depth_taken h]

/-- A line that is as deep as asked for is so in the other layout. -/
theorem Corresponds.depth_eq (hab : Corresponds f a b) (h : Layout f g) {p : Progress}
    (hd : (p.closeAbove a.indent).depth = a.indent) :
    ((p.taken f g).closeAbove b.indent).depth = b.indent := by
  rw [hab.depth_closeAbove h, hd, hab.indent_eq]

/-- Right after a branch line the next line is as deep as asked for. -/
def Promised (done : List (Line × Line)) (p : Progress) (ls : List Line) : Prop :=
  ∀ prev ∈ done.getLast?, prev.1.IsBranch → ∀ next ∈ ls.head?, p.depth = next.indent

theorem promised_nil (p : Progress) (ls : List Line) : Promised [] p ls := by simp [Promised]

theorem Line.IsLeaf.promised (h : a.IsLeaf) (b : Line) (done : List (Line × Line)) (p : Progress)
    (ls : List Line) : Promised (done ++ [(a, b)]) p ls := by
  intro prev hprev hb
  rw [List.getLast?_concat, Option.mem_some_iff] at hprev
  subst hprev
  exact absurd hb h.not_isBranch

theorem promised_push (done : List (Line × Line)) (p : Progress) (name : String) (next : Line)
    (ls : List Line) : Promised done (p.push next.indent name) (next :: ls) := by
  rintro prev - - next' ⟨⟩
  rfl

/-- A reading of some lines is followed by one of the corresponding lines. `done` are the lines
before, with their counterparts. -/
theorem Reading.follows (hg : Layout f g) {p : Progress} {ls ls' : List Line}
    {result : Except Error Tree} (h : Reading p ls result)
    (hls : List.Forall₂ (Corresponds f) ls ls') (done : List (Line × Line))
    (hdone : Promised done p ls) :
    ∃ result', Reading (p.taken f g) ls' result' ∧
      ReadAlike f (done ++ ls.zip ls') (result.map g) result' := by
  induction h generalizing ls' done with
  | done p =>
      cases hls
      refine ⟨_, .done _, ?_⟩
      rw [Progress.closeAll_taken hg]
      exact .tree _
  | @deeper p a rest hlt =>
      obtain ⟨b, rest', hab, -, rfl⟩ := List.forall₂_cons_left_iff.mp hls
      have hd := hab.depth_closeAbove hg p
      refine ⟨_, .deeper ?_, ?_⟩
      · rw [hd, hab.indent_eq]
        exact hg.strictMono hlt
      · rw [hd, hab.indent_eq]
        have hpairs : done ++ (a :: rest).zip (b :: rest') = done ++ (a, b) :: rest.zip rest' := rfl
        refine .error (.inconsistent _ _ hpairs fun prev hprev hb => ?_)
        have hpromised := hdone prev hprev hb a rfl
        rw [Progress.closeAbove_of_depth_le hpromised.le] at hlt
        omega
  | @malformed p a rest hd hb =>
      obtain ⟨b, rest', hab, -, rfl⟩ := List.forall₂_cons_left_iff.mp hls
      exact ⟨_, .malformed (hab.depth_eq hg hd) (mt hab.divided.binds_iff.mpr hb),
        .error (.malformedLine (by simp))⟩
  | @leaf p a rest result hd hl _ ih =>
      obtain ⟨b, rest', hab, hrest, rfl⟩ := List.forall₂_cons_left_iff.mp hls
      obtain ⟨hname, hvalue⟩ := hab.divided.name_and_value_eq hl.toBinds
      obtain ⟨result', hr, halike⟩ := ih hrest (done ++ [(a, b)]) (hl.promised b done _ rest)
      rw [Progress.taken_bind hg, ← hab.closeAbove_eq hg, hname, hvalue] at hr
      refine ⟨result', .leaf (hab.depth_eq hg hd) (hab.divided.isLeaf hl) hr, ?_⟩
      rwa [List.append_assoc] at halike
  | @incomplete p a hd hb =>
      obtain ⟨b, rest', hab, hrest, rfl⟩ := List.forall₂_cons_left_iff.mp hls
      obtain rfl := List.forall₂_nil_left_iff.mp hrest
      obtain ⟨hname, -⟩ := hab.divided.name_and_value_eq hb.toBinds
      refine ⟨_, .incomplete (hab.depth_eq hg hd) (hab.divided.isBranch hb), ?_⟩
      rw [hname]
      exact .error (.incompleteSection _ (by simp))
  | @childless p a next rest hd hb hn =>
      obtain ⟨b, _, hab, hrest, rfl⟩ := List.forall₂_cons_left_iff.mp hls
      obtain ⟨next', rest', hnext, -, rfl⟩ := List.forall₂_cons_left_iff.mp hrest
      refine ⟨_, .childless (hab.depth_eq hg hd) (hab.divided.isBranch hb) ?_, ?_⟩
      · rw [hnext.indent_eq, hab.indent_eq]
        exact hg.strictMono.monotone hn
      · rw [hab.indent_eq, hnext.indent_eq]
        have hpairs : done ++ (a :: next :: rest).zip (b :: next' :: rest') =
            done ++ (a, b) :: (next, next') :: rest.zip rest' := rfl
        exact .error (.afterBranch _ _ hpairs hb)
  | @branch p a next rest result hd hb hn _ ih =>
      obtain ⟨b, _, hab, hrest, rfl⟩ := List.forall₂_cons_left_iff.mp hls
      obtain ⟨next', rest', hnext, -, rfl⟩ := List.forall₂_cons_left_iff.mp hrest
      obtain ⟨hname, -⟩ := hab.divided.name_and_value_eq hb.toBinds
      obtain ⟨result', hr, halike⟩ :=
        ih hrest (done ++ [(a, b)]) (promised_push _ _ a.name next rest)
      rw [Progress.taken_push, ← hab.closeAbove_eq hg, hname, ← hnext.indent_eq] at hr
      refine ⟨result', .branch (hab.depth_eq hg hd) (hab.divided.isBranch hb) ?_ hr, ?_⟩
      · rw [hnext.indent_eq, hab.indent_eq]
        exact hg.strictMono hn
      · rwa [List.append_assoc] at halike

theorem readLines_alike (hg : Layout f g) (p : Progress) {ls ls' : List Line}
    (hls : List.Forall₂ (Corresponds f) ls ls') :
    ReadAlike f (ls.zip ls') ((readLines p ls).map g) (readLines (p.taken f g) ls') := by
  obtain ⟨result', hr, halike⟩ := (reading_readLines p ls).follows hg hls [] (promised_nil p ls)
  rwa [hr.result_eq] at halike

/-- Two texts whose lines correspond are read alike. -/
theorem parse_readAlike (hf : StrictMono f) (h0 : f 0 = 0) {text text' : String}
    (h : List.Forall₂ (Corresponds f) (linesOf text) (linesOf text')) :
    ReadAlike f ((linesOf text).zip (linesOf text')) (parse text) (parse text') := by
  have hsame : Layout f id := ⟨hf, h0, fun _ _ _ => rfl⟩
  have halike := readLines_alike hsame .start h
  rw [Except.map_id] at halike
  rw [parse, parse]
  generalize linesOf text = ls at h halike ⊢
  generalize linesOf text' = ls' at h halike ⊢
  cases h with
  | nil => exact .error .emptyInput
  | cons hab hrest => exact halike

/-- A branch line with a line after it that is no deeper, with blank lines, other line ends, a tab
and all indentations doubled. -/
theorem parse_readAlike_doubled :
    let text := "a:\n  b:\n  c: 1"
    let text' := "\r\na:\r\n\n\t   b: \r\n    c :\t1  \r\n"
    parse text = .error (.inconsistent 3 3 2) ∧ parse text' = .error (.inconsistent 5 5 4) ∧
      ReadAlike (2 * ·) ((linesOf text).zip (linesOf text')) (parse text) (parse text') := by
  intro text text'
  have hls : linesOf text =
      [⟨1, 0, "a:".toList⟩, ⟨2, 2, "  b:".toList⟩, ⟨3, 2, "  c: 1".toList⟩] := by
    decide +kernel
  have hls' : linesOf text' =
      [⟨2, 0, "a:".toList⟩, ⟨4, 4, "\t   b: ".toList⟩, ⟨5, 4, "    c :\t1  ".toList⟩] := by
    decide +kernel
  have h : List.Forall₂ (Corresponds (2 * ·)) (linesOf text) (linesOf text') := by
    rw [hls, hls']
    exact .cons ⟨by decide, by decide⟩ (.cons ⟨by decide, by decide⟩ (.cons ⟨by decide, by decide⟩
      .nil))
  have hf : StrictMono (2 * · : ℕ → ℕ) := fun a b hlt => Nat.mul_lt_mul_of_pos_left hlt (by decide)
  exact ⟨by decide +kernel, by decide +kernel, parse_readAlike hf rfl h⟩

end ResourceAgent.Outline
