import ResourceAgent.Proofs.Outline.Canonical
import ResourceAgent.Text.Search

/-!
# Written forms of a tree

The bindings of a tree may be written in any order and the children of each branch indented by any
blanks, as long as all lines of a tree have the same indentation, which is none for the outermost
tree and greater than that of the branch line for the others. From each such form a canonical tree
is found again, and each canonical tree has one. So canonical trees are what the reader can come to.
-/
namespace ResourceAgent.Outline

/-- Blanks that indent a line by a depth. -/
structure Margin (depth : ℕ) (margin : List Char) : Prop where
  length_eq : margin.length = depth
  isBlank : ∀ c ∈ margin, Text.isBlank c = true
  newline_not_mem : '\n' ∉ margin

/-- The lines write the bindings in the given order at the given depth. The depth of the children
of a branch and their order are chosen for each branch on its own, and the blanks for each line. -/
inductive Written : ℕ → List (String × Section) → List (List Char) → Prop
  | nil {depth : ℕ} : Written depth [] []
  | leaf {depth : ℕ} {margin : List Char} {name value : String} {es ls} :
      Margin depth margin → Written depth es ls →
      Written depth ((name, .leaf value) :: es)
        ((margin ++ (name.toList ++ ':' :: value.toList)) :: ls)
  | branch {depth deeper : ℕ} {margin : List Char} {name label : String} {entries : Tree}
      {children es inner ls} :
      Margin depth margin → depth < deeper → children.Perm entries.toList →
      Written deeper children inner → Written depth es ls →
      Written depth ((name, .branch label entries) :: es)
        ((margin ++ (name.toList ++ [':'])) :: (inner ++ ls))

/-- The text writes the tree, with or without a line feed after the last line. -/
def Tree.WrittenAs (tree : Tree) (text : String) : Prop :=
  ∃ es ls, es.Perm tree.toList ∧ Written 0 es ls ∧
    (text.toList = Text.joinLists ['\n'] ls ∨ text.toList = Text.joinLists ['\n'] ls ++ ['\n'])

theorem trim_toList {s : String} (h : Text.trimmed s = s) : Text.trim s.toList = s.toList := by
  simpa [Text.trimmed] using congrArg String.toList h

theorem Margin.colon_not_mem {depth : ℕ} {margin : List Char} (h : Margin depth margin) :
    ':' ∉ margin := by
  intro hm
  exact absurd (h.isBlank ':' hm) (by decide)

/-- A line that was written for a name and a value reads as this name and this value. -/
theorem Margin.reads {depth : ℕ} {margin : List Char} {name value : String}
    (h : Margin depth margin) (hn : IsName name) (hv : Text.trimmed value = value) :
    Reads depth (margin ++ (name.toList ++ ':' :: value.toList)) name value := by
  have hne : name.toList ≠ [] := by
    intro he
    exact hn.ne_empty (String.toList_eq_nil_iff.mp he)
  have ht := trim_toList hn.trimmed_eq
  refine ⟨?_, margin ++ name.toList, value.toList, (List.append_assoc ..).symm, ?_, ?_, ?_, ?_⟩
  · rw [Text.indent_append h.isBlank hne ht, h.length_eq]
  · rw [List.mem_append, not_or]
    exact ⟨h.colon_not_mem, hn.colon_not_mem⟩
  · rw [Text.trim_append_of_blank h.isBlank, ht]
    exact hne
  · rw [Text.trim_append_of_blank h.isBlank, ht, String.ofList_toList]
  · rw [trim_toList hv, String.ofList_toList]

/-- A line that was written can be found again in a text. -/
theorem Margin.restorable {depth : ℕ} {margin : List Char} {name value : String}
    (h : Margin depth margin) (hn : IsName name) (hv : Text.trimmed value = value)
    (hvn : '\n' ∉ value.toList) :
    Text.Restorable (margin ++ (name.toList ++ ':' :: value.toList)) := by
  refine ⟨by simp, ?_, ?_⟩
  · have hc : '\n' ≠ ':' := by decide
    simp [h.newline_not_mem, hn.newline_not_mem, hvn, hc]
  · intro hl
    rcases hv' : value.toList with _ | ⟨c, rest⟩
    · rw [hv'] at hl
      simp at hl
    · have hlast : value.toList.getLast? = some '\r' := by
        rw [hv'] at hl ⊢
        simpa using hl
      exact absurd (Text.not_isBlank_getLast_of_trim (trim_toList hv) hlast) (by decide)

theorem Section.Canonical.children {label : String} {entries : Tree}
    (h : (Section.branch label entries).Canonical) :
    label = "" ∧ entries ≠ .nil ∧ entries.Ascending ∧
      ∀ b ∈ entries.toList, IsName b.1 ∧ b.2.Canonical := by
  rw [Section.Canonical, Tree.regular_iff] at h
  exact h

/-- Each line of a written form can be found again in a text. -/
theorem Written.restorable {depth : ℕ} {es : List (String × Section)} {ls : List (List Char)}
    (h : Written depth es ls) (hes : ∀ b ∈ es, IsName b.1 ∧ b.2.Canonical) :
    ∀ line ∈ ls, Text.Restorable line := by
  induction h with
  | nil => simp
  | leaf hm _ ih =>
      obtain ⟨⟨hname, hsection⟩, hrest⟩ := List.forall_mem_cons.mp hes
      rw [Section.Canonical] at hsection
      have hline := hm.restorable hname hsection.trimmed_eq hsection.newline_not_mem
      exact List.forall_mem_cons.mpr ⟨hline, ih hrest⟩
  | @branch depth _ margin name _ _ _ _ _ _ hm _ hp _ _ ihc ih =>
      obtain ⟨⟨hname, hsection⟩, hrest⟩ := List.forall_mem_cons.mp hes
      have hchildren := ihc fun b hb => hsection.children.2.2.2 b (hp.subset hb)
      have hline : Text.Restorable (margin ++ (name.toList ++ ':' :: "".toList)) :=
        hm.restorable hname rfl (by simp)
      exact List.forall_mem_cons.mpr ⟨hline, List.forall_mem_append.mpr ⟨hchildren, ih hrest⟩⟩

/-- Lines that write canonical bindings are derived as a row of items with these bindings. The
induction is on how they were written; the bindings of a branch are found again in the order they
were written in, which makes the same tree as any other order. -/
theorem Written.exists_items {depth : ℕ} {es : List (String × Section)} {ls : List (List Char)}
    (h : Written depth es ls) (hes : ∀ b ∈ es, IsName b.1 ∧ b.2.Canonical) :
    ∃ items : Items, items.At depth ∧ items.lines = ls ∧ items.entries = es := by
  induction h with
  | nil => exact ⟨.nil, trivial, rfl, rfl⟩
  | @leaf depth margin name value es ls hm _ ih =>
      obtain ⟨⟨hname, hsection⟩, hrest⟩ := List.forall_mem_cons.mp hes
      rw [Section.Canonical] at hsection
      obtain ⟨items, hat, hls, hentries⟩ := ih hrest
      have hr := hm.reads hname hsection.trimmed_eq
      exact ⟨.leaf _ name value items, ⟨hr, hsection.ne_empty, hat⟩, by rw [Items.lines, hls],
        by rw [Items.entries, hentries]⟩
  | @branch depth deeper margin name label entries children es inner ls hm hd hp hw _ ihc ih =>
      obtain ⟨⟨hname, hsection⟩, hrest⟩ := List.forall_mem_cons.mp hes
      obtain ⟨rfl, hne, hasc, hbindings⟩ := hsection.children
      obtain ⟨below, hbelow, hinner, hchildren⟩ := ihc fun b hb => hbindings b (hp.subset hb)
      obtain ⟨items, hat, hls, hentries⟩ := ih hrest
      have hr : Reads depth (margin ++ (name.toList ++ ':' :: "".toList)) name "" :=
        hm.reads hname rfl
      have hb : below ≠ .nil := by
        rintro rfl
        rw [Items.entries] at hchildren
        rw [← hchildren] at hp
        exact hne (Tree.toList_injective hp.symm.eq_nil)
      refine ⟨.branch _ name below items, ⟨hr, ⟨deeper, hd, hb, hbelow⟩, hat⟩, ?_, ?_⟩
      · rw [Items.lines, hinner, hls]
        rfl
      · rw [Items.entries, hchildren, hentries, Tree.ofList_eq_of_perm hasc hp]

/-- A canonical tree is found again from each text that writes it. -/
theorem Tree.WrittenAs.parse_eq {tree : Tree} {text : String} (h : tree.WrittenAs text)
    (hc : tree.Canonical) : parse text = .ok tree := by
  obtain ⟨es, ls, hp, hw, htext⟩ := h
  obtain ⟨hasc, hbindings⟩ := Tree.regular_iff.mp hc.2
  have hes : ∀ b ∈ es, IsName b.1 ∧ b.2.Canonical := fun b hb => hbindings b (hp.subset hb)
  obtain ⟨items, hat, hls, hentries⟩ := hw.exists_items hes
  have hne : items ≠ .nil := by
    rintro rfl
    rw [Items.entries] at hentries
    rw [← hentries] at hp
    exact hc.1 (Tree.toList_injective hp.symm.eq_nil)
  have hlne : ls ≠ [] := hls ▸ Items.lines_ne_nil hne
  have hlines : Text.lines text.toList = ls := by
    rcases htext with ht | ht
    · rw [ht, Text.lines_joinLists (hw.restorable hes)]
    · rw [ht, Text.lines_joinLists_append_newline hlne (hw.restorable hes)]
  have hd : items.Derives text := by
    refine ⟨hne, hat, ?_⟩
    rw [writtenLines, hlines, List.filter_eq_self.mpr, hls]
    intro line hl
    rw [hat.not_blank line (hls ▸ hl)]
    rfl
  rw [hd.parse_eq, Items.value, hentries, Tree.ofList_eq_of_perm hasc hp]

mutual

/-- A section with its name at the given depth, its children one blank deeper. -/
def Section.layout (depth : ℕ) (name : String) : Section → List (List Char)
  | .leaf value => [List.replicate depth ' ' ++ (name.toList ++ ':' :: value.toList)]
  | .branch _ entries =>
      (List.replicate depth ' ' ++ (name.toList ++ [':'])) :: entries.layout (depth + 1)

/-- The bindings of a tree in order at the given depth. -/
def Tree.layout (depth : ℕ) : Tree → List (List Char)
  | .nil => []
  | .cons name entry rest => entry.layout depth name ++ rest.layout depth

end

theorem margin_replicate (depth : ℕ) : Margin depth (List.replicate depth ' ') where
  length_eq := List.length_replicate
  isBlank := by
    intro c hc
    rw [List.eq_of_mem_replicate hc]
    decide
  newline_not_mem := by
    intro hn
    exact absurd (List.eq_of_mem_replicate hn) (by decide)

mutual

theorem Section.written_layout (entry : Section) (name : String) {depth : ℕ}
    {es : List (String × Section)} {ls : List (List Char)} (h : Written depth es ls) :
    Written depth ((name, entry) :: es) (entry.layout depth name ++ ls) :=
  match entry with
  | .leaf _ => .leaf (margin_replicate depth) h
  | .branch _ entries =>
      .branch (margin_replicate depth) (Nat.lt_succ_self depth) (List.Perm.refl _)
        (entries.written_layout (depth + 1)) h

theorem Tree.written_layout (tree : Tree) (depth : ℕ) :
    Written depth tree.toList (tree.layout depth) :=
  match tree with
  | .nil => .nil
  | .cons name entry rest => entry.written_layout name (rest.written_layout depth)

end

theorem exists_writtenAs (tree : Tree) : ∃ text, tree.WrittenAs text :=
  ⟨String.ofList (Text.joinLists ['\n'] (tree.layout 0)), tree.toList, tree.layout 0,
    List.Perm.refl _, tree.written_layout 0, .inl String.toList_ofList⟩

/-- The trees that texts are read as are the canonical ones, and each of them is found again from
every text that writes it. -/
theorem parse_roundTrip :
    (∀ text tree, parse text = .ok tree → tree.Canonical) ∧
      (∀ text tree, tree.Canonical → tree.WrittenAs text → parse text = .ok tree) ∧
      ∀ tree, (∃ text, parse text = .ok tree) ↔ tree.Canonical := by
  refine ⟨fun _ _ => canonical_of_parse, fun _ _ hc hw => hw.parse_eq hc, fun tree => ⟨?_, ?_⟩⟩
  · rintro ⟨text, h⟩
    exact canonical_of_parse h
  · intro hc
    obtain ⟨text, hw⟩ := exists_writtenAs tree
    exact ⟨text, hw.parse_eq hc⟩

end ResourceAgent.Outline
