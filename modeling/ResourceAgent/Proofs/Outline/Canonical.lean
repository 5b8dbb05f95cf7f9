import ResourceAgent.Proofs.Outline.Derivation
import ResourceAgent.Proofs.Text.Lines

/-!
# Canonical trees

A tree is canonical if it has bindings and all names and values in it could stand in a line: they
are trimmed, not empty, and without line feeds, and names are without colons. That its names ascend
is no choice: `Tree.insert` keeps them so, and each map of names to sections is one such tree.
The reader comes to canonical trees only: the names and values come from lines, which have no line
feed in them, and no row of children is empty when its branch is closed.
-/
namespace ResourceAgent.Outline

/-- The text could be the name in a line. -/
structure IsName (s : String) : Prop where
  ne_empty : s ≠ ""
  trimmed_eq : Text.trimmed s = s
  colon_not_mem : ':' ∉ s.toList
  newline_not_mem : '\n' ∉ s.toList

/-- The text could be the value in a line. -/
structure IsValue (s : String) : Prop where
  ne_empty : s ≠ ""
  trimmed_eq : Text.trimmed s = s
  newline_not_mem : '\n' ∉ s.toList

mutual

/-- A leaf with a value that could stand in a line, or a branch without a label that has children,
all of them canonical. -/
def Section.Canonical : Section → Prop
  | .leaf value => IsValue value
  | .branch label entries => label = "" ∧ entries ≠ .nil ∧ entries.Regular

/-- The names ascend and could stand in lines, and all sections are canonical. -/
def Tree.Regular : Tree → Prop
  | .nil => True
  | .cons name entry rest =>
      IsName name ∧ (∀ n ∈ rest.names, name < n) ∧ entry.Canonical ∧ rest.Regular

end

/-- A regular tree with at least one binding. -/
def Tree.Canonical (tree : Tree) : Prop := tree ≠ .nil ∧ tree.Regular

theorem Tree.regular_iff {tree : Tree} :
    tree.Regular ↔ tree.Ascending ∧ ∀ b ∈ tree.toList, IsName b.1 ∧ b.2.Canonical := by
  induction tree using Tree.bindingsInduction with
  | nil => simp [Tree.Regular, Tree.ascending_nil]
  | cons name entry rest ih =>
      rw [Tree.Regular, Tree.ascending_cons, Tree.toList_cons, List.forall_mem_cons, ih]
      tauto

theorem ofList_ne_empty {cs : List Char} (h : cs ≠ []) : String.ofList cs ≠ "" := by
  intro he
  exact h (by simpa using congrArg String.toList he)

theorem trimmed_ofList_trim (cs : List Char) :
    Text.trimmed (String.ofList (Text.trim cs)) = String.ofList (Text.trim cs) := by
  rw [Text.trimmed, String.toList_ofList, Text.trim_trim]

theorem Reads.isName {depth : ℕ} {line : List Char} {name value : String}
    (h : Reads depth line name value) (hn : '\n' ∉ line) : IsName name := by
  obtain ⟨before, after, rfl, hc, ht, rfl, -⟩ := h.divided
  refine ⟨ofList_ne_empty ht, trimmed_ofList_trim before, ?_, ?_⟩
  · rw [String.toList_ofList]
    exact fun hm => hc (Text.mem_of_mem_trim hm)
  · rw [String.toList_ofList]
    exact fun hm => hn (List.mem_append_left _ (Text.mem_of_mem_trim hm))

theorem Reads.isValue {depth : ℕ} {line : List Char} {name value : String}
    (h : Reads depth line name value) (hv : value ≠ "") (hn : '\n' ∉ line) : IsValue value := by
  obtain ⟨before, after, rfl, -, -, -, rfl⟩ := h.divided
  refine ⟨hv, trimmed_ofList_trim after, ?_⟩
  rw [String.toList_ofList]
  intro hm
  exact hn (List.mem_append_right _ (List.mem_cons_of_mem _ (Text.mem_of_mem_trim hm)))

theorem Items.entries_ne_nil {items : Items} (h : items ≠ .nil) : items.entries ≠ [] := by
  cases items <;> simp_all [Items.entries]

/-- The entries of a derived row are canonical. A branch is closed with at least one child because
its row of children is not empty. -/
theorem Items.At.canonical_entries {depth : ℕ} {items : Items} (h : items.At depth)
    (hn : ∀ line ∈ items.lines, '\n' ∉ line) :
    ∀ b ∈ items.entries, IsName b.1 ∧ b.2.Canonical := by
  induction items generalizing depth with
  | nil => simp [Items.entries]
  | leaf line name value rest ih =>
      obtain ⟨hr, hv, hrest⟩ := h
      rw [Items.lines, List.forall_mem_cons] at hn
      rw [Items.entries, List.forall_mem_cons]
      exact ⟨⟨hr.isName hn.1, by simpa [Section.Canonical] using hr.isValue hv hn.1⟩, ih hrest hn.2⟩
  | branch line name children rest ihc ih =>
      obtain ⟨hr, ⟨deeper, -, hne, hc⟩, hrest⟩ := h
      rw [Items.lines, List.forall_mem_cons, List.forall_mem_append] at hn
      rw [Items.entries, List.forall_mem_cons]
      have hchildren := ihc hc hn.2.1
      refine ⟨⟨hr.isName hn.1, ?_⟩, ih hrest hn.2.2⟩
      rw [Section.Canonical, Tree.regular_iff]
      exact ⟨rfl, Tree.ofList_ne_nil (Items.entries_ne_nil hne), Tree.ascending_ofList _,
        fun b hb => hchildren b (Tree.toList_ofList_subset _ hb)⟩

theorem newline_not_mem_of_mem_writtenLines {text : String} {line : List Char}
    (h : line ∈ writtenLines text) : '\n' ∉ line :=
  Text.newline_not_mem_of_mem_lines (List.mem_of_mem_filter h)

/-- The reader comes to canonical trees only. -/
theorem canonical_of_parse {text : String} {tree : Tree} (h : parse text = .ok tree) :
    tree.Canonical := by
  obtain ⟨items, hd, rfl⟩ := exists_derives_of_parse h
  have hn : ∀ line ∈ items.lines, '\n' ∉ line := by
    rw [hd.lines_eq]
    exact fun line hl => newline_not_mem_of_mem_writtenLines hl
  have hes := hd.at_zero.canonical_entries hn
  exact ⟨Tree.ofList_ne_nil (Items.entries_ne_nil hd.ne_nil),
    Tree.regular_iff.mpr ⟨Tree.ascending_ofList _,
      fun b hb => hes b (Tree.toList_ofList_subset _ hb)⟩⟩

end ResourceAgent.Outline
