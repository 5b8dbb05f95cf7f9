import ResourceAgent.Outline.Tree
import ResourceAgent.Proofs.Text.Blank
import ResourceAgent.Proofs.Text.Numeral
import ResourceAgent.Text.Lines

/-!
# The grammar of outlines

A line is divided by its first colon. A row of items at some depth is a sequence of leaf lines
and of branch lines at that depth, each branch line followed by a row of items, not empty, at a
greater depth. A row of items at depth zero that is not empty is an outline.

`Items` are the derivations of this grammar. They keep each line beside the name and the value
that it is said to have, so `At` can say what makes a derivation right without computing anything.
The grammar is unambiguous: `At.unique` shows that the lines leave no choice, neither in the
depths of the branches nor in where a row ends.
-/
namespace ResourceAgent.Outline

/-- The line has this indentation and its first colon divides it into this name and this value. -/
structure Reads (depth : ℕ) (line : List Char) (name value : String) : Prop where
  indent_eq : Text.indent line = depth
  divided : ∃ before after, line = before ++ ':' :: after ∧ ':' ∉ before ∧
    Text.trim before ≠ [] ∧ name = String.ofList (Text.trim before) ∧
    value = String.ofList (Text.trim after)

/-- A row of items as it is derived. -/
inductive Items where
  | nil
  | leaf (line : List Char) (name value : String) (rest : Items)
  | branch (line : List Char) (name : String) (children rest : Items)

namespace Items

/-- The row is derivable at the depth. -/
def At (depth : ℕ) : Items → Prop
  | .nil => True
  | .leaf line name value rest => Reads depth line name value ∧ value ≠ "" ∧ rest.At depth
  | .branch line name children rest =>
      Reads depth line name "" ∧
      (∃ deeper, depth < deeper ∧ children ≠ .nil ∧ children.At deeper) ∧ rest.At depth

/-- The lines of the row, in order. -/
def lines : Items → List (List Char)
  | .nil => []
  | .leaf line _ _ rest => line :: rest.lines
  | .branch line _ children rest => line :: (children.lines ++ rest.lines)

/-- The bindings of the row, in the order of the text. A branch binds its name to the bindings of
its children, inserted one after the other, and has no label. -/
def entries : Items → List (String × Section)
  | .nil => []
  | .leaf _ name value rest => (name, .leaf value) :: rest.entries
  | .branch _ name children rest =>
      (name, .branch "" (Tree.ofList children.entries)) :: rest.entries

/-- The tree of the row: its bindings inserted in the order of the text. -/
def value (items : Items) : Tree := Tree.ofList items.entries

end Items

/-- The lines of a text that are not blank. -/
def writtenLines (text : String) : List (List Char) :=
  (Text.lines text.toList).filter fun line => !line.all Text.isBlank

/-- The items derive the text as an outline. -/
structure Items.Derives (items : Items) (text : String) : Prop where
  ne_nil : items ≠ .nil
  at_zero : items.At 0
  lines_eq : items.lines = writtenLines text

/-- A line has only one indentation, one name and one value. -/
theorem Reads.unique {depth depth' : ℕ} {line : List Char} {name name' value value' : String}
    (h : Reads depth line name value) (h' : Reads depth' line name' value') :
    depth = depth' ∧ name = name' ∧ value = value' := by
  obtain ⟨before, after, hl, hc, -, hn, hv⟩ := h.divided
  obtain ⟨before', after', hl', hc', -, hn', hv'⟩ := h'.divided
  obtain ⟨rfl, rfl⟩ := Text.mark_append_inj hc hc' (hl.symm.trans hl')
  exact ⟨h.indent_eq.symm.trans h'.indent_eq, hn.trans hn'.symm, hv.trans hv'.symm⟩

/-- The lines, if there are any, start with one that is indented less than the depth. -/
def EndsBelow (depth : ℕ) (ls : List (List Char)) : Prop :=
  ∀ line ∈ ls.head?, Text.indent line < depth

theorem EndsBelow.mono {depth depth' : ℕ} {ls : List (List Char)} (h : EndsBelow depth ls)
    (hle : depth ≤ depth') : EndsBelow depth' ls :=
  fun line hl => (h line hl).trans_le hle

namespace Items

/-- The lines of a row start at its depth. -/
theorem At.indent_head {depth : ℕ} {items : Items} (h : items.At depth) :
    ∀ line ∈ items.lines.head?, Text.indent line = depth := by
  intro line hl
  cases items with
  | nil => simp [lines] at hl
  | leaf first name value rest =>
      simp only [lines, List.head?_cons, Option.mem_def, Option.some.injEq] at hl
      exact hl ▸ h.1.indent_eq
  | branch first name children rest =>
      simp only [lines, List.head?_cons, Option.mem_def, Option.some.injEq] at hl
      exact hl ▸ h.1.indent_eq

theorem lines_ne_nil {items : Items} (h : items ≠ .nil) : items.lines ≠ [] := by
  cases items <;> simp_all [lines]

/-- Rows at smaller depths may come before lines that go on below the depth. -/
theorem At.endsBelow_append {depth deeper : ℕ} {items : Items} {ls : List (List Char)}
    (h : items.At depth) (hd : depth < deeper) (hl : EndsBelow deeper ls) :
    EndsBelow deeper (items.lines ++ ls) := by
  intro line hm
  rcases hi : items.lines with _ | ⟨first, tail⟩
  · rw [hi, List.nil_append] at hm
    exact hl line hm
  · rw [hi, List.cons_append, List.head?_cons] at hm
    have := h.indent_head line (by rw [hi, List.head?_cons]; exact hm)
    omega

theorem At.not_endsBelow {depth : ℕ} {items : Items} {ls : List (List Char)}
    (h : items.At depth) (hne : items ≠ .nil) : ¬ EndsBelow depth (items.lines ++ ls) := by
  obtain ⟨first, tail, hi⟩ := List.exists_cons_of_ne_nil (lines_ne_nil hne)
  intro hb
  have h₁ := h.indent_head first (by rw [hi]; rfl)
  have h₂ := hb first (by rw [hi]; rfl)
  omega

/-- No line of a row is blank: its colon is not. -/
theorem At.not_blank {depth : ℕ} {items : Items} (h : items.At depth) :
    ∀ line ∈ items.lines, line.all Text.isBlank = false := by
  have hr : ∀ {depth line name value}, Reads depth line name value →
      line.all Text.isBlank = false := by
    intro depth line name value hr
    obtain ⟨before, after, rfl, -⟩ := hr.divided
    have hc : Text.isBlank ':' = false := by decide
    simp [hc]
  induction items generalizing depth with
  | nil => simp [lines]
  | leaf line name value rest ih =>
      obtain ⟨hl, -, hrest⟩ := h
      exact List.forall_mem_cons.mpr ⟨hr hl, ih hrest⟩
  | branch line name children rest ihc ih =>
      obtain ⟨hl, ⟨deeper, -, -, hc⟩, hrest⟩ := h
      exact List.forall_mem_cons.mpr ⟨hr hl, List.forall_mem_append.mpr ⟨ihc hc, ih hrest⟩⟩

/-- Two rows of one depth that the same lines start with, each going on below that depth, are the
same row. The induction is on the first row; its branches need the statement for rows with more
lines after them, which is why the rows are not required to use up the lines. -/
theorem At.unique_append {depth : ℕ} {items items' : Items} {ls ls' : List (List Char)}
    (h : items.At depth) (h' : items'.At depth) (hl : EndsBelow depth ls)
    (hl' : EndsBelow depth ls') (he : items.lines ++ ls = items'.lines ++ ls') :
    items = items' ∧ ls = ls' := by
  induction items generalizing depth items' ls ls' with
  | nil =>
      have hs : ls = items'.lines ++ ls' := he
      by_cases hn : items' = .nil
      · subst hn
        exact ⟨rfl, hs⟩
      · exact absurd (hs ▸ hl) (h'.not_endsBelow hn)
  | leaf line name value rest ih =>
      have ⟨hr, hv, hrest⟩ := h
      cases items' with
      | nil =>
          have hs : ls' = (Items.leaf line name value rest).lines ++ ls := he.symm
          exact absurd (hs ▸ hl') (h.not_endsBelow (by simp))
      | leaf line' name' value' rest' =>
          obtain ⟨hr', -, hrest'⟩ := h'
          simp only [lines, List.cons_append, List.cons.injEq] at he
          obtain ⟨rfl, he⟩ := he
          obtain ⟨-, rfl, rfl⟩ := hr.unique hr'
          obtain ⟨rfl, hls⟩ := ih hrest hrest' hl hl' he
          exact ⟨rfl, hls⟩
      | branch line' name' children' rest' =>
          simp only [lines, List.cons_append, List.cons.injEq] at he
          exact absurd (hr.unique (he.1 ▸ h'.1)).2.2 hv
  | branch line name children rest ihc ih =>
      have ⟨hr, ⟨deeper, hd, hcn, hc⟩, hrest⟩ := h
      cases items' with
      | nil =>
          have hs : ls' = (Items.branch line name children rest).lines ++ ls := he.symm
          exact absurd (hs ▸ hl') (h.not_endsBelow (by simp))
      | leaf line' name' value' rest' =>
          simp only [lines, List.cons_append, List.cons.injEq] at he
          exact absurd (hr.unique (he.1 ▸ h'.1)).2.2.symm h'.2.1
      | branch line' name' children' rest' =>
          obtain ⟨hr', ⟨deeper', hd', hcn', hc'⟩, hrest'⟩ := h'
          simp only [lines, List.cons_append, List.cons.injEq, List.append_assoc] at he
          obtain ⟨rfl, he⟩ := he
          obtain ⟨-, rfl, -⟩ := hr.unique hr'
          obtain ⟨first, tail, hi⟩ := List.exists_cons_of_ne_nil (lines_ne_nil hcn)
          obtain ⟨first', tail', hi'⟩ := List.exists_cons_of_ne_nil (lines_ne_nil hcn')
          have hf : first = first' := by
            rw [hi, hi'] at he
            exact (List.cons.inj he).1
          have h₁ := hc.indent_head first (by rw [hi]; rfl)
          have h₂ := hc'.indent_head first' (by rw [hi']; rfl)
          obtain rfl : deeper = deeper' := by rw [← h₁, ← h₂, hf]
          obtain ⟨rfl, hafter⟩ := ihc hc hc' (hrest.endsBelow_append hd (hl.mono hd.le))
            (hrest'.endsBelow_append hd' (hl'.mono hd'.le)) he
          obtain ⟨rfl, hls⟩ := ih hrest hrest' hl hl' hafter
          exact ⟨rfl, hls⟩

/-- A text has at most one derivation. -/
theorem Derives.unique {items items' : Items} {text : String} (h : items.Derives text)
    (h' : items'.Derives text) : items = items' := by
  have he : items.lines ++ [] = items'.lines ++ [] := by rw [h.lines_eq, h'.lines_eq]
  exact (h.at_zero.unique_append h'.at_zero (by simp [EndsBelow]) (by simp [EndsBelow]) he).1

end Items

end ResourceAgent.Outline
