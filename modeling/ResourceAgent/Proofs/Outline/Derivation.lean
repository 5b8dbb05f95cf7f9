import ResourceAgent.Outline.Reader
import ResourceAgent.Proofs.Outline.Grammar
import ResourceAgent.Proofs.Outline.Tree

/-!
# The reader and the grammar

The reader keeps the open sections in a list and closes them late: a section that is complete is
closed only when a shallower line comes, or none. `readLines_pop` says that this makes no
difference. So reading a row of items amounts to binding its entries in the innermost open tree
(`readLines_items`), and whenever the reader comes to a tree, the lines it read at the innermost
depth are a row of items (`exists_items_of_readLines`). Together: a text is read as a tree exactly
if the text has a derivation with this tree.
-/
namespace ResourceAgent.Outline

theorem splitLine_eq_some_iff {text : List Char} {name value : String} :
    splitLine text = some (name, value) ↔
      ∃ before after, text = before ++ ':' :: after ∧ ':' ∉ before ∧ Text.trim before ≠ [] ∧
        name = String.ofList (Text.trim before) ∧ value = String.ofList (Text.trim after) := by
  constructor
  · intro h
    have hcut := List.takeWhile_append_dropWhile (p := (· != ':')) (l := text)
    unfold splitLine at h
    split at h
    · cases h
    · next c after hd =>
        dsimp only at h
        split at h
        · cases h
        · next hne =>
            simp only [Option.some.injEq, Prod.mk.injEq] at h
            obtain rfl : c = ':' := by
              have hn := List.head?_dropWhile_not (· != ':') text
              rw [hd] at hn
              simpa using hn
            refine ⟨text.takeWhile (· != ':'), after, ?_, ?_, ?_, h.1.symm, h.2.symm⟩
            · rw [← hd, hcut]
            · intro hm
              simpa using List.mem_takeWhile_imp hm
            · simpa using hne
  · rintro ⟨before, after, rfl, hc, ht, rfl, rfl⟩
    have hb : ∀ c ∈ before, (c != ':') = true := fun c hm => bne_iff_ne.mpr fun he => hc (he ▸ hm)
    have hd : (before ++ ':' :: after).dropWhile (· != ':') = ':' :: after := by
      rw [List.dropWhile_append_of_pos hb]
      rfl
    have hk : (before ++ ':' :: after).takeWhile (· != ':') = before := by
      rw [List.takeWhile_append_of_pos hb]
      simp
    simp [splitLine, hd, hk, ht]

theorem reads_iff {depth : ℕ} {text : List Char} {name value : String} :
    Reads depth text name value ↔
      Text.indent text = depth ∧ splitLine text = some (name, value) := by
  rw [splitLine_eq_some_iff]
  exact ⟨fun h => ⟨h.indent_eq, h.divided⟩, fun h => ⟨h.1, h.2⟩⟩

/-- The indentation of the line is that of its text. -/
def Line.Measured (line : Line) : Prop := line.indent = Text.indent line.text

theorem isEmpty_trim (line : List Char) : (Text.trim line).isEmpty = line.all Text.isBlank := by
  rw [Bool.eq_iff_iff, List.isEmpty_iff, Text.trim_eq_nil_iff, List.all_eq_true]

theorem map_text_numberLines (first : ℕ) (texts : List (List Char)) :
    (numberLines first texts).map Line.text = texts.filter fun line => !line.all Text.isBlank := by
  induction texts generalizing first with
  | nil => rfl
  | cons text rest ih =>
      rw [numberLines, isEmpty_trim, List.filter_cons]
      cases text.all Text.isBlank <;> simp [ih]

theorem map_text_linesOf (text : String) : (linesOf text).map Line.text = writtenLines text :=
  map_text_numberLines 1 _

theorem measured_numberLines (first : ℕ) (texts : List (List Char)) :
    ∀ line ∈ numberLines first texts, line.Measured := by
  induction texts generalizing first with
  | nil => simp [numberLines]
  | cons text rest ih =>
      rw [numberLines]
      split_ifs
      · exact ih (first + 1)
      · exact List.forall_mem_cons.mpr ⟨rfl, ih (first + 1)⟩

theorem measured_linesOf (text : String) : ∀ line ∈ linesOf text, line.Measured :=
  measured_numberLines 1 _

theorem Line.Measured.reads_iff {line : Line} (h : line.Measured) {depth : ℕ}
    {name value : String} :
    Reads depth line.text name value ↔ line.indent = depth ∧ line.split = some (name, value) := by
  rw [Outline.reads_iff, ← h]
  rfl

namespace Progress

/-- Bind the entries one after the other in the innermost open tree. -/
def bindAll (es : List (String × Section)) (p : Progress) : Progress :=
  es.foldl (fun p e => p.bind e.1 e.2) p

@[simp] theorem bindAll_nil (p : Progress) : p.bindAll [] = p := rfl

@[simp] theorem bindAll_cons (e : String × Section) (es : List (String × Section))
    (p : Progress) : p.bindAll (e :: es) = (p.bind e.1 e.2).bindAll es := rfl

@[simp] theorem depth_start : start.depth = 0 := rfl

@[simp] theorem depth_push (depth : ℕ) (name : String) (p : Progress) :
    (p.push depth name).depth = depth := rfl

@[simp] theorem depth_bind (name : String) (entry : Section) (p : Progress) :
    (p.bind name entry).depth = p.depth := by
  unfold bind
  split <;> simp_all [depth]

@[simp] theorem depth_bindAll (es : List (String × Section)) (p : Progress) :
    (p.bindAll es).depth = p.depth := by
  induction es generalizing p with
  | nil => rfl
  | cons e es ih => rw [bindAll_cons, ih, depth_bind]

theorem bindAll_frame (es : List (String × Section)) (frame : Frame) (outer : List Frame)
    (root : Tree) :
    bindAll es ⟨frame :: outer, root⟩ =
      ⟨⟨frame.depth, frame.name, es.foldl (fun t e => t.insert e.1 e.2) frame.entries⟩ :: outer,
        root⟩ := by
  induction es generalizing frame with
  | nil => rfl
  | cons e es ih => rw [bindAll_cons, bind, ih, List.foldl_cons]

theorem bindAll_push (es : List (String × Section)) (depth : ℕ) (name : String) (p : Progress) :
    (p.push depth name).bindAll es = ⟨⟨depth, name, Tree.ofList es⟩ :: p.frames, p.root⟩ :=
  bindAll_frame es ⟨depth, name, .nil⟩ p.frames p.root

theorem bindAll_start (es : List (String × Section)) :
    start.bindAll es = ⟨[], Tree.ofList es⟩ := by
  have h : ∀ tree : Tree, bindAll es ⟨[], tree⟩ =
      ⟨[], es.foldl (fun t e => t.insert e.1 e.2) tree⟩ := by
    induction es with
    | nil => exact fun _ => rfl
    | cons e es ih => exact fun tree => ih (tree.insert e.1 e.2)
  exact h .nil

/-- Nothing is closed for a line at the innermost depth or below it. -/
theorem closeAbove_of_depth_le {p : Progress} {indent : ℕ} (h : p.depth ≤ indent) :
    p.closeAbove indent = p := by
  rw [closeAbove]
  split
  · rfl
  · next frame outer hf =>
      have hd : p.depth = frame.depth := by simp [depth, hf]
      rw [if_neg (by omega)]

/-- A shallower line closes the innermost section. -/
theorem closeAbove_frame {indent depth : ℕ} (h : indent < depth) (name : String) (entries : Tree)
    (p : Progress) :
    closeAbove indent ⟨⟨depth, name, entries⟩ :: p.frames, p.root⟩ =
      (p.bind name (.branch "" entries)).closeAbove indent := by
  rw [closeAbove]
  simp [h]

theorem closeAll_frame (depth : ℕ) (name : String) (entries : Tree) (p : Progress) :
    closeAll ⟨⟨depth, name, entries⟩ :: p.frames, p.root⟩ =
      (p.bind name (.branch "" entries)).closeAll := by
  rw [closeAll]

theorem closeAll_root (root : Tree) : closeAll ⟨[], root⟩ = root := by
  rw [closeAll]

end Progress

/-- An open section may be closed at once when no line of its depth or below follows. -/
theorem readLines_pop {depth : ℕ} {ls : List Line} (h : ∀ line ∈ ls.head?, line.indent < depth)
    (name : String) (entries : Tree) (p : Progress) :
    readLines ⟨⟨depth, name, entries⟩ :: p.frames, p.root⟩ ls =
      readLines (p.bind name (.branch "" entries)) ls := by
  cases ls with
  | nil => rw [readLines, readLines, Progress.closeAll_frame]
  | cons line rest =>
      have hl : line.indent < depth := h line rfl
      rw [readLines, readLines, Progress.closeAbove_frame hl]

theorem readLines_leaf {p : Progress} {line : Line} {name value : String}
    (hd : line.indent = p.depth) (hs : line.split = some (name, value)) (hv : value ≠ "")
    (rest : List Line) :
    readLines p (line :: rest) = readLines (p.bind name (.leaf value)) rest := by
  rw [readLines, Progress.closeAbove_of_depth_le hd.ge]
  simp [hd, hs, hv]

theorem readLines_branch {p : Progress} {line next : Line} {name : String}
    (hd : line.indent = p.depth) (hs : line.split = some (name, ""))
    (hn : p.depth < next.indent) (rest : List Line) :
    readLines p (line :: next :: rest) = readLines (p.push next.indent name) (next :: rest) := by
  rw [readLines, Progress.closeAbove_of_depth_le hd.ge]
  simp [hd, hs, Nat.not_le.mpr hn]

/-- What the reader does with a line that closes no section, if it comes to a tree in the end. -/
theorem readLines_cons_eq_ok {p : Progress} {line : Line} {rest : List Line} {tree : Tree}
    (h : readLines p (line :: rest) = .ok tree) (hd : p.depth ≤ line.indent) :
    line.indent = p.depth ∧
      ((∃ name value, line.split = some (name, value) ∧ value ≠ "" ∧
          readLines (p.bind name (.leaf value)) rest = .ok tree) ∨
        ∃ name next tail, line.split = some (name, "") ∧ rest = next :: tail ∧
          p.depth < next.indent ∧ readLines (p.push next.indent name) rest = .ok tree) := by
  rw [readLines, Progress.closeAbove_of_depth_le hd] at h
  split_ifs at h with hlt
  refine ⟨by omega, ?_⟩
  split at h
  · cases h
  · next name value hs =>
      split_ifs at h with hv
      · exact .inl ⟨name, value, hs, hv, h⟩
      · have he : value = "" := not_not.mp hv
        subst he
        split at h
        · cases h
        · next next tail =>
            split_ifs at h with hn
            exact .inr ⟨name, next, tail, hs, rfl, Nat.not_le.mp hn, h⟩

theorem head?_indent_lt {ls : List Line} {depth : ℕ} (hm : ∀ line ∈ ls, line.Measured)
    (h : EndsBelow depth (ls.map Line.text)) : ∀ line ∈ ls.head?, line.indent < depth := by
  intro line hl
  have ht : line.text ∈ (ls.map Line.text).head? := by
    rw [List.head?_map]
    exact Option.mem_map_of_mem Line.text hl
  rw [hm line (List.mem_of_mem_head? hl)]
  exact h line.text ht

/-- Reading a row of items at the innermost depth binds its entries there, provided that the lines
after it are not deeper. The induction is on the row. -/
theorem readLines_items {items : Items} {p : Progress} {ls rest : List Line}
    (hat : items.At p.depth) (hm : ∀ line ∈ ls ++ rest, line.Measured)
    (hls : ls.map Line.text = items.lines)
    (hend : EndsBelow (p.depth + 1) (rest.map Line.text)) :
    readLines p (ls ++ rest) = readLines (p.bindAll items.entries) rest := by
  induction items generalizing p ls rest with
  | nil =>
      rw [List.map_eq_nil_iff.mp hls, List.nil_append]
      rfl
  | leaf text name value tail ih =>
      obtain ⟨hr, hv, htail⟩ := hat
      obtain ⟨line, ls, rfl, rfl, htext⟩ := List.map_eq_cons_iff.mp hls
      rw [List.cons_append, List.forall_mem_cons] at hm
      obtain ⟨hml, hm⟩ := hm
      obtain ⟨hd, hs⟩ := hml.reads_iff.mp hr
      rw [List.cons_append, readLines_leaf hd hs hv]
      exact ih (by simpa using htail) hm htext (by simpa using hend)
  | branch text name children tail ihc ih =>
      obtain ⟨hr, ⟨deeper, hlt, hne, hc⟩, htail⟩ := hat
      obtain ⟨line, ls, rfl, rfl, htext⟩ := List.map_eq_cons_iff.mp hls
      rw [List.cons_append, List.forall_mem_cons] at hm
      obtain ⟨hml, hm⟩ := hm
      obtain ⟨hd, hs⟩ := hml.reads_iff.mp hr
      obtain ⟨inner, outer, rfl, hinner, houter⟩ := List.map_eq_append_iff.mp htext
      rw [List.append_assoc] at hm
      obtain ⟨first, more, hf⟩ := List.exists_cons_of_ne_nil (Items.lines_ne_nil hne)
      obtain ⟨next, inner', rfl, hnext, -⟩ := List.map_eq_cons_iff.mp (hinner.trans hf)
      have hdeep : next.indent = deeper := by
        rw [(List.forall_mem_cons.mp hm).1, hnext]
        exact hc.indent_head first (by rw [hf]; rfl)
      have hafter : EndsBelow deeper ((outer ++ rest).map Line.text) := by
        rw [List.map_append, houter]
        exact htail.endsBelow_append hlt (hend.mono hlt)
      have hmo : ∀ line ∈ outer ++ rest, line.Measured :=
        fun line hl => hm line (List.mem_append_right _ hl)
      calc readLines p (line :: (next :: inner' ++ outer) ++ rest)
          = readLines (p.push deeper name) (next :: inner' ++ (outer ++ rest)) := by
            rw [← hdeep, List.cons_append, List.append_assoc, List.cons_append,
              readLines_branch hd hs (hdeep ▸ hlt)]
        _ = readLines ((p.push deeper name).bindAll children.entries) (outer ++ rest) :=
            ihc hc hm hinner (hafter.mono (Nat.le_succ _))
        _ = readLines (p.bind name (.branch "" (Tree.ofList children.entries)))
            (outer ++ rest) := by
            rw [Progress.bindAll_push]
            exact readLines_pop (head?_indent_lt hmo hafter) name _ p
        _ = readLines (p.bindAll (Items.branch line.text name children tail).entries) rest :=
            ih (by simpa using htail) hmo houter (by simpa using hend)

/-- A text with a derivation is read as the tree of the derivation. -/
theorem Items.Derives.parse_eq {items : Items} {text : String} (h : items.Derives text) :
    parse text = .ok items.value := by
  have hl : (linesOf text).map Line.text = items.lines :=
    (map_text_linesOf text).trans h.lines_eq.symm
  have hne : linesOf text ≠ [] := by
    intro hn
    rw [hn] at hl
    exact Items.lines_ne_nil h.ne_nil hl.symm
  have hm : ∀ line ∈ linesOf text ++ [], line.Measured := by
    simpa using measured_linesOf text
  have hr := readLines_items (p := .start) h.at_zero hm hl (by simp [EndsBelow])
  rw [List.append_nil, Progress.bindAll_start, readLines, Progress.closeAll_root] at hr
  rw [parse]
  split
  · contradiction
  · exact hr

/-- If the reader comes to a tree, the lines from the innermost depth on start with a row of items
at this depth, and the reader goes on from the end of the row as if it had bound its entries. The
induction is on the number of lines, because after the children of a branch the row goes on with
lines that the reader met long after the branch line. -/
theorem exists_items_of_readLines {p : Progress} {ls : List Line} {tree : Tree}
    (hm : ∀ line ∈ ls, line.Measured) (h : readLines p ls = .ok tree) :
    ∃ (items : Items) (used rest : List Line), ls = used ++ rest ∧
      used.map Line.text = items.lines ∧
      items.At p.depth ∧ (∀ line ∈ rest.head?, line.indent < p.depth) ∧
      readLines (p.bindAll items.entries) rest = .ok tree := by
  induction hn : ls.length using Nat.strong_induction_on generalizing p ls with
  | h n ih =>
      rcases ls with _ | ⟨line, ls⟩
      · exact ⟨.nil, [], [], rfl, rfl, trivial, by simp, h⟩
      · by_cases hd : line.indent < p.depth
        · exact ⟨.nil, [], line :: ls, rfl, rfl, trivial, by simpa using hd, h⟩
        · obtain ⟨hml, hms⟩ := List.forall_mem_cons.mp hm
          rw [List.length_cons] at hn
          obtain ⟨hdepth, hline⟩ := readLines_cons_eq_ok h (Nat.not_lt.mp hd)
          rcases hline with
            ⟨name, value, hs, hv, hnext⟩ | ⟨name, next, tail, hs, hcons, hlt, hnext⟩
          · obtain ⟨items, used, rest, hls, hused, hat, hrest, hr⟩ :=
              ih ls.length (by omega) hms hnext rfl
            rw [Progress.depth_bind] at hat hrest
            exact ⟨.leaf line.text name value items, line :: used, rest, by rw [hls]; rfl,
              by rw [List.map_cons, hused]; rfl,
              ⟨hml.reads_iff.mpr ⟨hdepth, hs⟩, hv, hat⟩, hrest, hr⟩
          · obtain ⟨children, inner, outer, hls, hinner, hc, houter, hr⟩ :=
              ih ls.length (by omega) hms hnext rfl
            rw [Progress.depth_push] at hc houter
            have hne : children ≠ .nil := by
              rintro rfl
              rw [List.map_eq_nil_iff.mp hinner, List.nil_append] at hls
              have := houter next (by rw [← hls, hcons]; rfl)
              omega
            have hshort : outer.length < n := by
              rw [hls, List.length_append] at hn
              omega
            have hmo : ∀ line ∈ outer, line.Measured :=
              fun line hl => hms line (hls ▸ List.mem_append_right _ hl)
            rw [Progress.bindAll_push, readLines_pop houter] at hr
            obtain ⟨items, used, rest, houtereq, hused, hat, hrest, hr⟩ :=
              ih outer.length hshort hmo hr rfl
            rw [Progress.depth_bind] at hat hrest
            refine ⟨.branch line.text name children items, line :: (inner ++ used), rest, ?_, ?_,
              ⟨hml.reads_iff.mpr ⟨hdepth, hs⟩, ⟨next.indent, hlt, hne, hc⟩, hat⟩, hrest, hr⟩
            · rw [hls, houtereq, List.cons_append, List.append_assoc]
            · rw [List.map_cons, List.map_append, hinner, hused]
              rfl

/-- A text that is read as a tree has a derivation with this tree. -/
theorem exists_derives_of_parse {text : String} {tree : Tree} (h : parse text = .ok tree) :
    ∃ items : Items, items.Derives text ∧ items.value = tree := by
  rw [parse] at h
  split at h
  · cases h
  · next hne =>
      obtain ⟨items, used, rest, hls, hused, hat, hrest, hr⟩ :=
        exists_items_of_readLines (measured_linesOf text) h
      have hnil : rest = [] := by
        rcases rest with _ | ⟨line, rest⟩
        · rfl
        · exact absurd (hrest line rfl) (Nat.not_lt_zero _)
      rw [hnil, List.append_nil] at hls
      rw [hnil, Progress.bindAll_start, readLines, Progress.closeAll_root, Except.ok.injEq] at hr
      refine ⟨items, ⟨?_, hat, ?_⟩, hr⟩
      · rintro rfl
        exact hne (hls.trans (List.map_eq_nil_iff.mp hused))
      · rw [← hused, ← hls, map_text_linesOf]

/-- The texts that are read, and what they are read as: a text is read as a tree exactly if it can
be derived with this tree, and it can be derived in one way at most. -/
theorem parse_eq_ok_iff_derives (text : String) :
    (∀ tree, parse text = .ok tree ↔ ∃ items : Items, items.Derives text ∧ items.value = tree) ∧
      ∀ items items' : Items, items.Derives text → items'.Derives text → items = items' := by
  refine ⟨fun tree => ⟨exists_derives_of_parse, ?_⟩, fun _ _ => Items.Derives.unique⟩
  rintro ⟨items, h, rfl⟩
  exact h.parse_eq

/-- A name that occurs twice: the later value counts. -/
example :
    let children : Items := .leaf "  ip: 1".toList "ip" "1" (.leaf "  ip: 2".toList "ip" "2" .nil)
    let items : Items := .branch "vip:".toList "vip" children .nil
    items.value = .cons "vip" (.branch "" (.cons "ip" (.leaf "2") .nil)) .nil ∧
      parse "vip:\n  ip: 1\n  ip: 2\n" = .ok items.value := by
  decide +kernel

end ResourceAgent.Outline
