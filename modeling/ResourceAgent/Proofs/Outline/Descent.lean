import ResourceAgent.Proofs.Outline.Derivation

/-!
# The reader as a recursive descent

The plain way to read an outline calls itself for each branch: a block of lines is read at a given
depth from a cursor on, the lines below a branch are a block of their own, and a shallower line
ends a block and gives control back to the caller. This descent is written here on its own, with
its own numbering and dividing of lines. The reader keeps its open sections in a list instead and
closes them late; `readLines_readBlock` relates the two. They come to the same tree on every text,
and where there is none, to the same first fault.
-/
namespace ResourceAgent.Outline

namespace Descent

/-- The lines that are not blank, with their numbers among all lines. -/
def numberedLines (text : String) : List Line :=
  ((Text.lines text.toList).zipIdx 1).filterMap fun (line, number) =>
    if line.all Text.isBlank then none else some ⟨number, Text.indent line, line⟩

/-- The trimmed parts of a line before and after its first colon, of which the first is a name. -/
def divide (line : List Char) : Option (String × String) :=
  match line.idxOf? ':' with
  | none => none
  | some i =>
      let name := Text.trim (line.take i)
      if name = [] then none
      else some (String.ofList name, String.ofList (Text.trim (line.drop (i + 1))))

/-- A block that was read from the cursor on: its tree, and the cursor after its last line. -/
structure Block (cursor : ℕ) where
  tree : Tree
  after : ℕ
  le_after : cursor ≤ after

/-- The block as one that was read from an earlier cursor on. -/
def Block.since {cursor cursor' : ℕ} (h : cursor ≤ cursor') (b : Block cursor') : Block cursor :=
  ⟨b.tree, b.after, h.trans b.le_after⟩

/-- Read the rest of a block at the given depth; `tree` is what its earlier lines came to. -/
def readBlock (ls : List Line) (depth : ℕ) (tree : Tree) (cursor : ℕ) :
    Except Error (Block cursor) :=
  match _eq : ls[cursor]? with
  | none => .ok ⟨tree, cursor, le_rfl⟩
  | some line =>
      if line.indent < depth then .ok ⟨tree, cursor, le_rfl⟩
      else if depth < line.indent then .error (.inconsistent line.number depth line.indent)
      else
        match divide line.text with
        | none => .error (.malformedLine line.number)
        | some (name, value) =>
            if value ≠ "" then
              (readBlock ls depth (tree.insert name (.leaf value)) (cursor + 1)).map
                (.since (Nat.le_succ cursor))
            else
              match ls[cursor + 1]? with
              | none => .error (.incompleteSection line.number name)
              | some next =>
                  if next.indent ≤ depth then
                    .error (.inconsistent next.number (depth + 1) next.indent)
                  else
                    match readBlock ls next.indent .nil (cursor + 1) with
                    | .error e => .error e
                    | .ok children =>
                        (readBlock ls depth (tree.insert name (.branch "" children.tree))
                          children.after).map (.since (Nat.le_of_succ_le children.le_after))
termination_by ls.length - cursor
decreasing_by
  all_goals have hc := (List.getElem?_eq_some_iff.mp _eq).1
  · omega
  · omega
  · have := children.le_after
    omega

/-- Read a text as one block at depth zero. -/
def parse (text : String) : Except Error Tree :=
  match numberedLines text with
  | [] => .error .emptyInput
  | ls => (readBlock ls 0 .nil 0).map Block.tree

theorem numberedLines_eq (text : String) : numberedLines text = linesOf text := by
  unfold numberedLines linesOf
  generalize 1 = first
  induction Text.lines text.toList generalizing first with
  | nil => rfl
  | cons line rest ih =>
      rw [List.zipIdx_cons, List.filterMap_cons, numberLines, isEmpty_trim, ih]
      cases hb : line.all Text.isBlank <;> simp [hb]

theorem divide_eq (line : List Char) : divide line = splitLine line := by
  unfold divide
  cases hi : line.idxOf? ':' with
  | none =>
      have hd : line.dropWhile (· != ':') = [] := by
        rw [List.dropWhile_eq_nil_iff]
        intro c hc
        exact bne_iff_ne.mpr fun he => List.idxOf?_eq_none_iff.mp hi (he ▸ hc)
      simp [splitLine, hd]
  | some i =>
      obtain ⟨hlt, hc, hbefore⟩ := List.idxOf?_eq_some_iff.mp hi
      have hline : line.take i ++ ':' :: line.drop (i + 1) = line := by
        rw [← hc, ← List.drop_eq_getElem_cons hlt, List.take_append_drop]
      have hne : ∀ c ∈ line.take i, (c != ':') = true := by
        intro c hm
        obtain ⟨j, hj, rfl⟩ := List.mem_take_iff_getElem.mp hm
        exact bne_iff_ne.mpr (hbefore j (by omega))
      have hd : line.dropWhile (· != ':') = ':' :: line.drop (i + 1) := by
        conv_lhs => rw [← hline]
        rw [List.dropWhile_append_of_pos hne]
        rfl
      have ht : line.takeWhile (· != ':') = line.take i := by
        conv_lhs => rw [← hline]
        rw [List.takeWhile_append_of_pos hne]
        simp
      simp [splitLine, hd, ht]

end Descent

namespace Progress

/-- The progress with another tree in the place of the innermost one. -/
def withTree (tree : Tree) (p : Progress) : Progress :=
  match p.frames with
  | [] => ⟨[], tree⟩
  | frame :: outer => ⟨⟨frame.depth, frame.name, tree⟩ :: outer, p.root⟩

@[simp] theorem depth_withTree (tree : Tree) (p : Progress) :
    (p.withTree tree).depth = p.depth := by
  unfold withTree
  split <;> simp_all [depth]

@[simp] theorem bind_withTree (name : String) (entry : Section) (tree : Tree) (p : Progress) :
    (p.withTree tree).bind name entry = p.withTree (tree.insert name entry) := by
  unfold withTree
  split <;> simp [bind]

end Progress

/-- A line of the right depth that cannot be divided ends the reading. -/
theorem readLines_malformed {p : Progress} {line : Line} (hd : line.indent = p.depth)
    (hs : line.split = none) (rest : List Line) :
    readLines p (line :: rest) = .error (.malformedLine line.number) := by
  rw [readLines, Progress.closeAbove_of_depth_le hd.ge]
  simp [hd, hs]

theorem readLines_deeper {p : Progress} {line : Line} (hd : p.depth < line.indent)
    (rest : List Line) :
    readLines p (line :: rest) = .error (.inconsistent line.number p.depth line.indent) := by
  rw [readLines, Progress.closeAbove_of_depth_le hd.le]
  simp [hd]

theorem readLines_incomplete {p : Progress} {line : Line} {name : String}
    (hd : line.indent = p.depth) (hs : line.split = some (name, "")) :
    readLines p [line] = .error (.incompleteSection line.number name) := by
  rw [readLines, Progress.closeAbove_of_depth_le hd.ge]
  simp [hd, hs]

theorem readLines_childless {p : Progress} {line next : Line} {name : String}
    (hd : line.indent = p.depth) (hs : line.split = some (name, ""))
    (hn : next.indent ≤ p.depth) (rest : List Line) :
    readLines p (line :: next :: rest) =
      .error (.inconsistent next.number (p.depth + 1) next.indent) := by
  rw [readLines, Progress.closeAbove_of_depth_le hd.ge]
  simp [hd, hs, hn]

namespace Descent

variable {ls : List Line} {depth cursor : ℕ} {tree : Tree}

theorem split_eq_of_divide {line : Line} {o : Option (String × String)}
    (h : divide line.text = o) : line.split = o := by
  rw [Line.split, ← divide_eq, h]

theorem drop_eq_cons {line : Line} (h : ls[cursor]? = some line) :
    ls.drop cursor = line :: ls.drop (cursor + 1) := by
  obtain ⟨hlt, rfl⟩ := List.getElem?_eq_some_iff.mp h
  exact List.drop_eq_getElem_cons hlt

theorem bind_since {α : Type} {cursor' : ℕ} (h : cursor ≤ cursor')
    (e : Except Error (Block cursor')) (f : Tree → ℕ → Except Error α) :
    ((e.map (Block.since h)).bind fun b => f b.tree b.after) =
      e.bind fun b => f b.tree b.after := by
  cases e <;> rfl

theorem exists_of_map_since {cursor' : ℕ} {h : cursor ≤ cursor'}
    {e : Except Error (Block cursor')} {b : Block cursor} (he : e.map (Block.since h) = .ok b) :
    ∃ c, e = .ok c ∧ c.after = b.after := by
  cases e with
  | error _ => cases he
  | ok c =>
      cases he
      exact ⟨c, rfl, rfl⟩

/-- A block ends with the lines or before a line that is shallower than the block. -/
theorem indent_lt_of_readBlock {b : Block cursor} (h : readBlock ls depth tree cursor = .ok b) :
    ∀ line ∈ (ls.drop b.after).head?, line.indent < depth := by
  fun_induction readBlock ls depth tree cursor with
  | case1 depth tree cursor hnone =>
      cases h
      simp [hnone]
  | case2 depth tree cursor line hline hlt =>
      cases h
      simpa [hline] using hlt
  | case5 depth tree cursor line hline hge hle name value hs hv ih =>
      obtain ⟨c, hc, hafter⟩ := exists_of_map_since h
      exact hafter ▸ ih hc
  | case9 depth tree cursor line hline hge hle name value hs hv next hnext hn children hc ihc ih =>
      obtain ⟨c, hc, hafter⟩ := exists_of_map_since h
      exact hafter ▸ ih hc
  | _ => cases h

theorem indent_eq_depth {p : Progress} {line : Line} (tree : Tree) (hp : p.depth = depth)
    (hge : ¬ line.indent < depth) (hle : ¬ depth < line.indent) :
    line.indent = (p.withTree tree).depth := by
  rw [Progress.depth_withTree, hp]
  omega

/-- To read on from the cursor with `tree` as the innermost tree is to read the block there and to
go on after it with the tree of the block. The induction follows the descent. Where a block of
children has been read, the reader still has their section open; it is closed there and then by
`readLines_pop`, since the line after the block is shallower. -/
theorem readLines_readBlock (ls : List Line) (depth : ℕ) (tree : Tree) (cursor : ℕ)
    (p : Progress) (hp : p.depth = depth) :
    readLines (p.withTree tree) (ls.drop cursor) =
      (readBlock ls depth tree cursor).bind fun b =>
        readLines (p.withTree b.tree) (ls.drop b.after) := by
  fun_induction readBlock ls depth tree cursor generalizing p with
  | case1 => rfl
  | case2 => rfl
  | case3 depth tree cursor line hline hge hlt =>
      have hd : (p.withTree tree).depth < line.indent := by rwa [Progress.depth_withTree, hp]
      rw [drop_eq_cons hline, readLines_deeper hd, Progress.depth_withTree, hp]
      rfl
  | case4 depth tree cursor line hline hge hle hs =>
      have hd := indent_eq_depth tree hp hge hle
      rw [drop_eq_cons hline, readLines_malformed hd (split_eq_of_divide hs)]
      rfl
  | case5 depth tree cursor line hline hge hle name value hs hv ih =>
      have hd := indent_eq_depth tree hp hge hle
      rw [drop_eq_cons hline, readLines_leaf hd (split_eq_of_divide hs) hv, Progress.bind_withTree,
        ih p hp, bind_since _ _ fun t n => readLines (p.withTree t) (ls.drop n)]
  | case6 depth tree cursor line hline hge hle name value hs hv hnone =>
      obtain rfl : value = "" := not_not.mp hv
      have hd := indent_eq_depth tree hp hge hle
      have hlast : ls.drop (cursor + 1) = [] :=
        List.drop_eq_nil_of_le (List.getElem?_eq_none_iff.mp hnone)
      rw [drop_eq_cons hline, hlast, readLines_incomplete hd (split_eq_of_divide hs)]
      rfl
  | case7 depth tree cursor line hline hge hle name value hs hv next hnext hn =>
      obtain rfl : value = "" := not_not.mp hv
      have hd := indent_eq_depth tree hp hge hle
      have hn' : next.indent ≤ (p.withTree tree).depth := by rwa [Progress.depth_withTree, hp]
      rw [drop_eq_cons hline, drop_eq_cons hnext,
        readLines_childless hd (split_eq_of_divide hs) hn', Progress.depth_withTree, hp]
      rfl
  | case8 depth tree cursor line hline hge hle name value hs hv next hnext hn e he ih =>
      obtain rfl : value = "" := not_not.mp hv
      have hd := indent_eq_depth tree hp hge hle
      have hn' : (p.withTree tree).depth < next.indent := by
        rw [Progress.depth_withTree, hp]
        omega
      have hpush := ih ((p.withTree tree).push next.indent name) rfl
      rw [he, drop_eq_cons hnext] at hpush
      rw [drop_eq_cons hline, drop_eq_cons hnext, readLines_branch hd (split_eq_of_divide hs) hn']
      exact hpush
  | case9 depth tree cursor line hline hge hle name value hs hv next hnext hn children hc ihc ih =>
      obtain rfl : value = "" := not_not.mp hv
      have hd := indent_eq_depth tree hp hge hle
      have hn' : (p.withTree tree).depth < next.indent := by
        rw [Progress.depth_withTree, hp]
        omega
      have hpush := ihc ((p.withTree tree).push next.indent name) rfl
      rw [hc, drop_eq_cons hnext] at hpush
      calc readLines (p.withTree tree) (ls.drop cursor)
          = readLines ((p.withTree tree).push next.indent name)
              (next :: ls.drop (cursor + 1 + 1)) := by
            rw [drop_eq_cons hline, drop_eq_cons hnext,
              readLines_branch hd (split_eq_of_divide hs) hn']
        _ = readLines (((p.withTree tree).push next.indent name).withTree children.tree)
              (ls.drop children.after) := hpush
        _ = readLines ((p.withTree tree).bind name (.branch "" children.tree))
              (ls.drop children.after) :=
            readLines_pop (indent_lt_of_readBlock hc) name children.tree (p.withTree tree)
        _ = _ := by
            rw [Progress.bind_withTree, ih p hp,
              bind_since _ _ fun t n => readLines (p.withTree t) (ls.drop n)]

end Descent

/-- The reader and the descent agree on every text: on the tree, and on the first fault with all
that it tells. -/
theorem parse_eq_descent (text : String) : parse text = Descent.parse text := by
  rw [parse, Descent.parse, Descent.numberedLines_eq]
  cases linesOf text with
  | nil => rfl
  | cons line rest =>
      have hr := Descent.readLines_readBlock (line :: rest) 0 .nil 0 .start rfl
      rw [List.drop_zero] at hr
      refine hr.trans ?_
      dsimp only
      cases hb : Descent.readBlock (line :: rest) 0 .nil 0 with
      | error e => rfl
      | ok b =>
          have hend : (line :: rest).drop b.after = [] := by
            rcases hd : (line :: rest).drop b.after with _ | ⟨next, tail⟩
            · rfl
            · have := Descent.indent_lt_of_readBlock hb next (by rw [hd]; rfl)
              omega
          calc readLines (Progress.start.withTree b.tree) ((line :: rest).drop b.after)
              = .ok (Progress.start.withTree b.tree).closeAll := by rw [hend, readLines]
            _ = .ok b.tree := congrArg Except.ok (Progress.closeAll_root b.tree)

/-- A line may leave several blocks at once. -/
example : Descent.parse "a:\n  b:\n    c: 1\nd: 2\n" =
    .ok (.cons "a" (.branch "" (.cons "b" (.branch "" (.cons "c" (.leaf "1") .nil)) .nil))
      (.cons "d" (.leaf "2") .nil)) := by
  decide +kernel

end ResourceAgent.Outline
