import ResourceAgent.Proofs.Outline.Lineage

/-!
# Rows of lines

A row at some depth is made of lines at this depth, each branch line followed by the row of its
children, which is deeper. It has a list of bindings, one for each line at its depth. If a text is
read as a tree, its lines are a row at depth zero with the bindings of the tree.

The rest is about one line, the row of its children and the rest of its row, taken as one list:
what lies above a child is the line and what lies above the child among the children, and what lies
above a later line of the row is what lies above it in the rest of the row.
-/
namespace ResourceAgent.Outline

/-- The lines are a row at the depth, with these bindings. -/
inductive Row : ℕ → List Line → List (String × Section) → Prop
  | nil {depth : ℕ} : Row depth [] []
  | leaf {line : Line} {ls es} : line.IsLeaf → Row line.indent ls es →
      Row line.indent (line :: ls) ((line.name, .leaf line.value) :: es)
  | branch {line : Line} {deeper : ℕ} {inner outer children es} : line.IsBranch →
      line.indent < deeper → Row deeper inner children → Row line.indent outer es →
      Row line.indent (line :: (inner ++ outer))
        ((line.name, .branch "" (Tree.ofList children)) :: es)

/-- The lines of a row of items, with the entries of the items. -/
theorem Items.At.row {depth : ℕ} {items : Items} {ls : List Line} (h : items.At depth)
    (hm : ∀ line ∈ ls, line.Measured) (hls : ls.map Line.text = items.lines) :
    Row depth ls items.entries := by
  induction items generalizing depth ls with
  | nil =>
      rw [List.map_eq_nil_iff.mp hls]
      exact .nil
  | leaf text name value rest ih =>
      obtain ⟨hr, hv, hrest⟩ := h
      obtain ⟨line, ls, rfl, rfl, htext⟩ := List.map_eq_cons_iff.mp hls
      obtain ⟨hml, hm⟩ := List.forall_mem_cons.mp hm
      obtain ⟨rfl, hs⟩ := hml.reads_iff.mp hr
      obtain ⟨-, rfl, rfl⟩ := Line.split_eq_some_iff.mp hs
      exact .leaf (Line.isLeaf_of_split hs hv) (ih hrest hm htext)
  | branch text name children rest ihc ih =>
      obtain ⟨hr, ⟨deeper, hlt, -, hc⟩, hrest⟩ := h
      obtain ⟨line, ls, rfl, rfl, htext⟩ := List.map_eq_cons_iff.mp hls
      obtain ⟨hml, hm⟩ := List.forall_mem_cons.mp hm
      obtain ⟨rfl, hs⟩ := hml.reads_iff.mp hr
      obtain ⟨-, rfl, -⟩ := Line.split_eq_some_iff.mp hs
      obtain ⟨inner, outer, rfl, hinner, houter⟩ := List.map_eq_append_iff.mp htext
      obtain ⟨hmi, hmo⟩ := List.forall_mem_append.mp hm
      exact .branch (Line.isBranch_of_split hs) hlt (ihc hc hmi hinner) (ih hrest hmo houter)

theorem row_of_parse {text : String} {tree : Tree} (h : parse text = .ok tree) :
    ∃ es, Row 0 (linesOf text) es ∧ tree = Tree.ofList es := by
  obtain ⟨items, hd, rfl⟩ := exists_derives_of_parse h
  have hls : (linesOf text).map Line.text = items.lines := by
    rw [map_text_linesOf, hd.lines_eq]
  exact ⟨items.entries, hd.at_zero.row (measured_linesOf text) hls, rfl⟩

theorem Row.le_indent {depth : ℕ} {ls : List Line} {es : List (String × Section)}
    (h : Row depth ls es) : ∀ b ∈ ls, depth ≤ b.indent := by
  induction h with
  | nil => simp
  | leaf _ _ ih => exact List.forall_mem_cons.mpr ⟨le_rfl, ih⟩
  | branch _ hlt _ _ ihc ih =>
      refine List.forall_mem_cons.mpr ⟨le_rfl, List.forall_mem_append.mpr ⟨fun b hb => ?_, ih⟩⟩
      exact hlt.le.trans (ihc b hb)

theorem Row.indent_head {depth : ℕ} {ls : List Line} {es : List (String × Section)}
    (h : Row depth ls es) : ∀ b ∈ ls.head?, b.indent = depth := by
  cases h <;> simp

/-- The lines after the first one are deeper than it, up to some line as deep as it, from which on
none is less deep. -/
structure Node (line : Line) (inner outer : List Line) : Prop where
  inOrder : InOrder (line :: (inner ++ outer))
  lt_inner : ∀ b ∈ inner, line.indent < b.indent
  le_outer : ∀ b ∈ outer, line.indent ≤ b.indent
  head_outer : ∀ b ∈ outer.head?, b.indent = line.indent

theorem Row.node_leaf {line : Line} {ls : List Line} {es : List (String × Section)}
    (h : Row line.indent ls es) (ho : InOrder (line :: ls)) : Node line [] ls where
  inOrder := ho
  lt_inner := by simp
  le_outer := h.le_indent
  head_outer := h.indent_head

theorem Row.node_branch {line : Line} {deeper : ℕ} {inner outer : List Line}
    {children es : List (String × Section)} (hc : Row deeper inner children)
    (h : Row line.indent outer es) (hlt : line.indent < deeper)
    (ho : InOrder (line :: (inner ++ outer))) : Node line inner outer where
  inOrder := ho
  lt_inner b hb := hlt.trans_le (hc.le_indent b hb)
  le_outer := h.le_indent
  head_outer := h.indent_head

namespace Node

variable {line a b : Line} {inner outer : List Line}

theorem inOrder_inner (h : Node line inner outer) : InOrder inner :=
  (List.pairwise_append.mp (List.pairwise_cons.mp h.inOrder).2).1

theorem inOrder_outer (h : Node line inner outer) : InOrder outer :=
  (List.pairwise_append.mp (List.pairwise_cons.mp h.inOrder).2).2.1

theorem number_lt (h : Node line inner outer) (hb : b ∈ inner ++ outer) :
    line.number < b.number := (List.pairwise_cons.mp h.inOrder).1 b hb

theorem inner_lt_outer (h : Node line inner outer) (ha : a ∈ inner) (hb : b ∈ outer) :
    a.number < b.number :=
  (List.pairwise_append.mp (List.pairwise_cons.mp h.inOrder).2).2.2 a ha b hb

theorem parent?_eq (b : Line) : parent? (line :: (inner ++ outer)) b =
    (parent? outer b).or ((parent? inner b).or (parent? [line] b)) := by
  rw [parent?, ← List.singleton_append, nearest?_append, nearest?_append, Option.or_assoc]
  rfl

theorem parent?_self (h : Node line inner outer) :
    parent? (line :: (inner ++ outer)) line = none := by
  refine nearest?_eq_none_iff.mpr fun a ha hn => ?_
  rcases List.mem_cons.mp ha with rfl | ha
  · exact le_rfl
  · exact absurd hn (h.number_lt ha).not_gt

/-- The children of the line have it for a parent if they have none among themselves. -/
theorem parent?_inner (h : Node line inner outer) (hb : b ∈ inner) :
    parent? (line :: (inner ++ outer)) b = some ((parent? inner b).getD line) := by
  have houter : parent? outer b = none :=
    nearest?_eq_none_iff.mpr fun a ha hn => absurd hn (h.inner_lt_outer hb ha).not_gt
  have hline : parent? [line] b = some line :=
    nearest?_singleton (h.number_lt (List.mem_append_left _ hb)) (h.lt_inner b hb)
  rw [parent?_eq, houter, hline, Option.none_or]
  cases parent? inner b <;> rfl

/-- The first line of the rest of the row keeps the others from looking beyond it. -/
theorem parent?_outer (h : Node line inner outer) (hb : b ∈ outer) :
    parent? (line :: (inner ++ outer)) b = parent? outer b := by
  rw [parent?_eq]
  cases hp : parent? outer b with
  | some a => rfl
  | none =>
      have hle : b.indent ≤ line.indent := by
        obtain ⟨first, rest, rfl⟩ := List.exists_cons_of_ne_nil (List.ne_nil_of_mem hb)
        rw [← h.head_outer first rfl]
        rcases List.mem_cons.mp hb with rfl | hr
        · exact le_rfl
        · have hfirst := (List.pairwise_cons.mp h.inOrder_outer).1 b hr
          exact nearest?_eq_none_iff.mp hp first List.mem_cons_self hfirst
      have hinner : parent? inner b = none :=
        nearest?_eq_none_iff.mpr fun a ha _ => hle.trans (h.lt_inner a ha).le
      have hline : parent? [line] b = none :=
        nearest?_eq_none_iff.mpr fun a ha _ => (List.mem_singleton.mp ha).symm ▸ hle
      rw [hinner, hline]
      rfl

theorem lineage_self (h : Node line inner outer) :
    lineage (line :: (inner ++ outer)) line = [line] :=
  lineage_of_parent?_eq_none h.parent?_self

theorem lineage_inner (h : Node line inner outer) (hb : b ∈ inner) :
    lineage (line :: (inner ++ outer)) b = line :: lineage inner b := by
  have hp := h.parent?_inner hb
  fun_induction lineage inner b with
  | case1 b hnone =>
      rw [hnone] at hp
      rw [lineage_of_parent?_eq_some hp]
      exact congrArg (· ++ [b]) h.lineage_self
  | case2 b a hsome ih =>
      rw [hsome] at hp
      have ha := (mem_of_nearest? hsome).1
      rw [lineage_of_parent?_eq_some hp, Option.getD_some, ih ha (h.parent?_inner ha),
        List.cons_append]

theorem lineage_outer (h : Node line inner outer) (hb : b ∈ outer) :
    lineage (line :: (inner ++ outer)) b = lineage outer b := by
  have hp := h.parent?_outer hb
  fun_induction lineage outer b with
  | case1 b hnone => exact lineage_of_parent?_eq_none (hp.trans hnone)
  | case2 b a hsome ih =>
      have ha := (mem_of_nearest? hsome).1
      rw [lineage_of_parent?_eq_some (hp.trans hsome), ih ha (h.parent?_outer ha)]

end Node

end ResourceAgent.Outline
