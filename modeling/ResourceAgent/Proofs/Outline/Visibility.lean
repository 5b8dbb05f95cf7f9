import ResourceAgent.Proofs.Outline.Row

/-!
# What becomes of each line

The names down the lineage of a line are its path. A line is shadowed by a later one with the same
parent and the same name, since of two bindings of one name the later one holds; a line is visible
if nothing in its lineage is shadowed. What is found in the tree of a text along a path is what its
one visible line with this path binds, and where there is no such line, nothing is found. If no line
is shadowed at all, the tree has a section for each line.

Both statements follow the rows of the text: how a line, its children and the rest of its row see
each other is worked out in `Node`, and what it comes to for the bindings in `Node.shows_iff`.
-/
namespace ResourceAgent.Outline

/-- The names from the outermost line down to the given one. -/
def path (ls : List Line) (line : Line) : List String := (lineage ls line).map Line.name

/-- A later line has the same parent and the same name. -/
def Shadowed (ls : List Line) (line : Line) : Prop :=
  ∃ later ∈ ls, line.number < later.number ∧ parent? ls later = parent? ls line ∧
    later.name = line.name

/-- Neither the line nor any line above it is shadowed. -/
def Visible (ls : List Line) (line : Line) : Prop := ∀ a ∈ lineage ls line, ¬ Shadowed ls a

/-- A visible line with this path has this value. -/
def Shows (ls : List Line) (p : List String) (v : String) : Prop :=
  ∃ line ∈ ls, Visible ls line ∧ path ls line = p ∧ line.value = v

/-- What stands after the colon in the line of a section. -/
def Section.value : Section → String
  | .leaf value => value
  | .branch _ _ => ""

variable {ls : List Line} {line a b : Line} {inner outer : List Line}

theorem path_ne_nil (ls : List Line) (line : Line) : path ls line ≠ [] := by
  rw [path, Ne, List.map_eq_nil_iff]
  exact List.ne_nil_of_mem (self_mem_lineage ls line)

theorem Visible.of_parent? (h : Visible ls b) (hp : parent? ls b = some a) : Visible ls a := by
  intro c hc
  refine h c ?_
  rw [lineage_of_parent?_eq_some hp]
  exact List.mem_append_left _ hc

/-- The path of a line is that of its parent, and its own name. -/
theorem path_eq (ls : List Line) (line : Line) :
    path ls line = ((parent? ls line).map (path ls)).getD [] ++ [line.name] := by
  cases h : parent? ls line with
  | none => simp [path, lineage_of_parent?_eq_none h]
  | some a => simp [path, lineage_of_parent?_eq_some h]

/-- Of two lines with the same parent and the same name the later one shadows the earlier one. -/
theorem eq_of_not_shadowed (ho : InOrder ls) (ha : a ∈ ls) (hb : b ∈ ls)
    (hp : parent? ls a = parent? ls b) (hn : a.name = b.name) (hsa : ¬ Shadowed ls a)
    (hsb : ¬ Shadowed ls b) : a = b := by
  rcases lt_trichotomy a.number b.number with hlt | heq | hgt
  · exact absurd ⟨b, hb, hlt, hp.symm, hn.symm⟩ hsa
  · exact ho.eq_of_number_eq ha hb heq
  · exact absurd ⟨a, ha, hgt, hp, hn⟩ hsb

/-- Two visible lines with the same path are the same line. The induction goes up the lineage of the
first one: their parents are the same, and so are their names. -/
theorem Visible.eq_of_path_eq (ho : InOrder ls) (ha : a ∈ ls) (hb : b ∈ ls)
    (hva : Visible ls a) (hvb : Visible ls b) (h : path ls a = path ls b) : a = b := by
  induction hn : a.number using Nat.strong_induction_on generalizing a b with
  | h n ih =>
      rw [path_eq ls a, path_eq ls b] at h
      obtain ⟨hpaths, hname⟩ := List.append_inj' h rfl
      have hparents : parent? ls a = parent? ls b := by
        cases hpa : parent? ls a with
        | none =>
            cases hpb : parent? ls b with
            | none => rfl
            | some b' =>
                rw [hpa, hpb] at hpaths
                exact absurd hpaths.symm (path_ne_nil ls b')
        | some a' =>
            cases hpb : parent? ls b with
            | none =>
                rw [hpa, hpb] at hpaths
                exact absurd hpaths (path_ne_nil ls a')
            | some b' =>
                obtain ⟨hma, hlt, -⟩ := mem_of_nearest? hpa
                obtain ⟨hmb, -, -⟩ := mem_of_nearest? hpb
                rw [hpa, hpb] at hpaths
                rw [ih a'.number (hn ▸ hlt) hma hmb (hva.of_parent? hpa) (hvb.of_parent? hpb)
                  hpaths rfl]
      exact eq_of_not_shadowed ho ha hb hparents (by simpa using hname)
        (hva a (self_mem_lineage ls a)) (hvb b (self_mem_lineage ls b))

namespace Node

/-- The line itself is no parent among its children, so they have the same parent in the row if they
have the same parent among themselves. -/
theorem eq_of_getD_eq {x y : Option Line} (hx : x ≠ some line) (hy : y ≠ some line)
    (h : x.getD line = y.getD line) : x = y := by
  cases x <;> cases y <;> simp_all

theorem shadowed_inner (h : Node line inner outer) (hb : b ∈ inner) :
    Shadowed (line :: (inner ++ outer)) b ↔ Shadowed inner b := by
  have hself : ∀ c, parent? inner c ≠ some line := fun c hp =>
    absurd (h.lt_inner line (mem_of_nearest? hp).1) (lt_irrefl _)
  have hpb := h.parent?_inner hb
  constructor
  · rintro ⟨c, hc, hlt, hp, hn⟩
    rw [hpb] at hp
    rcases List.mem_cons.mp hc with rfl | hc
    · rw [h.parent?_self] at hp
      cases hp
    · rcases List.mem_append.mp hc with hc | hc
      · rw [h.parent?_inner hc, Option.some.injEq] at hp
        exact ⟨c, hc, hlt, eq_of_getD_eq (hself c) (hself b) hp, hn⟩
      · rw [h.parent?_outer hc] at hp
        have hlater := (mem_of_nearest? hp).1
        cases hpb' : parent? inner b with
        | none =>
            rw [hpb'] at hlater
            exact absurd (h.number_lt (List.mem_append_right _ hlater)) (lt_irrefl _)
        | some a =>
            rw [hpb'] at hlater
            exact absurd (h.inner_lt_outer (mem_of_nearest? hpb').1 hlater) (lt_irrefl _)
  · rintro ⟨c, hc, hlt, hp, hn⟩
    refine ⟨c, List.mem_cons_of_mem _ (List.mem_append_left _ hc), hlt, ?_, hn⟩
    rw [hpb, h.parent?_inner hc, hp]

theorem shadowed_outer (h : Node line inner outer) (hb : b ∈ outer) :
    Shadowed (line :: (inner ++ outer)) b ↔ Shadowed outer b := by
  have hpb := h.parent?_outer hb
  constructor
  · rintro ⟨c, hc, hlt, hp, hn⟩
    rcases List.mem_cons.mp hc with rfl | hc
    · exact absurd hlt (h.number_lt (List.mem_append_right _ hb)).not_gt
    · rcases List.mem_append.mp hc with hc | hc
      · exact absurd hlt (h.inner_lt_outer hc hb).not_gt
      · rw [hpb, h.parent?_outer hc] at hp
        exact ⟨c, hc, hlt, hp, hn⟩
  · rintro ⟨c, hc, hlt, hp, hn⟩
    refine ⟨c, List.mem_cons_of_mem _ (List.mem_append_right _ hc), hlt, ?_, hn⟩
    rw [hpb, h.parent?_outer hc, hp]

theorem shadowed_self (h : Node line inner outer) :
    Shadowed (line :: (inner ++ outer)) line ↔
      ∃ c ∈ outer, parent? outer c = none ∧ c.name = line.name := by
  constructor
  · rintro ⟨c, hc, hlt, hp, hn⟩
    rw [h.parent?_self] at hp
    rcases List.mem_cons.mp hc with rfl | hc
    · exact absurd hlt (lt_irrefl _)
    · rcases List.mem_append.mp hc with hc | hc
      · rw [h.parent?_inner hc] at hp
        cases hp
      · rw [h.parent?_outer hc] at hp
        exact ⟨c, hc, hp, hn⟩
  · rintro ⟨c, hc, hp, hn⟩
    have hm := List.mem_append_right inner hc
    refine ⟨c, List.mem_cons_of_mem _ hm, h.number_lt hm, ?_, hn⟩
    rw [h.parent?_outer hc, hp, h.parent?_self]

theorem visible_self (h : Node line inner outer) :
    Visible (line :: (inner ++ outer)) line ↔ ¬ Shadowed (line :: (inner ++ outer)) line := by
  rw [Visible, h.lineage_self, List.forall_mem_singleton]

theorem visible_inner (h : Node line inner outer) (hb : b ∈ inner) :
    Visible (line :: (inner ++ outer)) b ↔
      ¬ Shadowed (line :: (inner ++ outer)) line ∧ Visible inner b := by
  rw [Visible, h.lineage_inner hb, List.forall_mem_cons]
  refine and_congr_right fun _ => forall₂_congr fun a ha => ?_
  rw [h.shadowed_inner (mem_of_mem_lineage hb ha)]

theorem visible_outer (h : Node line inner outer) (hb : b ∈ outer) :
    Visible (line :: (inner ++ outer)) b ↔ Visible outer b := by
  rw [Visible, h.lineage_outer hb]
  refine forall₂_congr fun a ha => ?_
  rw [h.shadowed_outer (mem_of_mem_lineage hb ha)]

theorem path_self (h : Node line inner outer) :
    path (line :: (inner ++ outer)) line = [line.name] := by
  rw [path, h.lineage_self, List.map_singleton]

theorem path_inner (h : Node line inner outer) (hb : b ∈ inner) :
    path (line :: (inner ++ outer)) b = line.name :: path inner b := by
  rw [path, h.lineage_inner hb, List.map_cons, path]

theorem path_outer (h : Node line inner outer) (hb : b ∈ outer) :
    path (line :: (inner ++ outer)) b = path outer b := by
  rw [path, h.lineage_outer hb, path]

/-- What a line, its children and the rest of its row show. -/
theorem shows_iff (h : Node line inner outer) {n : String} {q : List String} {v : String} :
    Shows (line :: (inner ++ outer)) (n :: q) v ↔ Shows outer (n :: q) v ∨
      (¬ Shadowed (line :: (inner ++ outer)) line ∧ line.name = n ∧
        (q = [] ∧ line.value = v ∨ Shows inner q v)) := by
  constructor
  · rintro ⟨b, hb, hv, hp, hvalue⟩
    rcases List.mem_cons.mp hb with rfl | hb
    · rw [h.path_self, List.cons.injEq] at hp
      exact .inr ⟨h.visible_self.mp hv, hp.1, .inl ⟨hp.2.symm, hvalue⟩⟩
    · rcases List.mem_append.mp hb with hb | hb
      · rw [h.path_inner hb, List.cons.injEq] at hp
        obtain ⟨hs, hv⟩ := (h.visible_inner hb).mp hv
        exact .inr ⟨hs, hp.1, .inr ⟨b, hb, hv, hp.2, hvalue⟩⟩
      · rw [h.path_outer hb] at hp
        exact .inl ⟨b, hb, (h.visible_outer hb).mp hv, hp, hvalue⟩
  · rintro (⟨b, hb, hv, hp, hvalue⟩ | ⟨hs, rfl, ⟨rfl, hvalue⟩ | ⟨b, hb, hv, hp, hvalue⟩⟩)
    · exact ⟨b, List.mem_cons_of_mem _ (List.mem_append_right _ hb), (h.visible_outer hb).mpr hv,
        (h.path_outer hb).trans hp, hvalue⟩
    · exact ⟨line, List.mem_cons_self, h.visible_self.mpr hs, h.path_self, hvalue⟩
    · exact ⟨b, List.mem_cons_of_mem _ (List.mem_append_left _ hb),
        (h.visible_inner hb).mpr ⟨hs, hv⟩, by rw [h.path_inner hb, hp], hvalue⟩

end Node

namespace Tree

theorem get?_ofList_cons (n m : String) (entry : Section) (es : List (String × Section)) :
    (ofList ((n, entry) :: es)).get? m =
      ((ofList es).get? m).or (if m = n then some entry else none) := by
  rw [get?_ofList, get?_ofList, List.reverse_cons, List.find?_append, Option.map_or]
  by_cases h : m = n
  · simp [h]
  · simp [h, Ne.symm h]

theorem get?_ofList_eq_none_iff {n : String} {es : List (String × Section)} :
    (ofList es).get? n = none ↔ n ∉ es.map Prod.fst := by
  simp only [get?_ofList, Option.map_eq_none_iff, List.find?_eq_none, List.mem_reverse, beq_iff_eq,
    List.mem_map, not_exists, not_and]

end Tree

theorem Section.lookup_cons (label : String) (tree : Tree) (n : String) (q : List String) :
    (Section.branch label tree).lookup (n :: q) = (tree.get? n).bind (Section.lookup q) := rfl

/-- The outermost lines are the line itself and those of the rest of its row. -/
theorem Node.exists_name_iff (h : Node line inner outer) {n : String} :
    (∃ c ∈ line :: (inner ++ outer), parent? (line :: (inner ++ outer)) c = none ∧ c.name = n) ↔
      line.name = n ∨ ∃ c ∈ outer, parent? outer c = none ∧ c.name = n := by
  constructor
  · rintro ⟨c, hc, hp, hn⟩
    rcases List.mem_cons.mp hc with rfl | hc
    · exact .inl hn
    · rcases List.mem_append.mp hc with hc | hc
      · rw [h.parent?_inner hc] at hp
        cases hp
      · exact .inr ⟨c, hc, (h.parent?_outer hc).symm.trans hp, hn⟩
  · rintro (hn | ⟨c, hc, hp, hn⟩)
    · exact ⟨line, List.mem_cons_self, h.parent?_self, hn⟩
    · exact ⟨c, List.mem_cons_of_mem _ (List.mem_append_right _ hc),
        (h.parent?_outer hc).trans hp, hn⟩

/-- A row has the names of its outermost lines bound. -/
theorem Row.exists_name_iff {depth : ℕ} {es : List (String × Section)} (h : Row depth ls es)
    (ho : InOrder ls) {n : String} :
    (∃ c ∈ ls, parent? ls c = none ∧ c.name = n) ↔ n ∈ es.map Prod.fst := by
  induction h with
  | nil => simp
  | leaf hl hr ih =>
      have hnode := hr.node_leaf ho
      refine hnode.exists_name_iff.trans ((or_congr_right (ih hnode.inOrder_outer)).trans ?_)
      rw [List.map_cons, List.mem_cons, eq_comm]
  | branch hb hlt hc hr _ ih =>
      have hnode := hc.node_branch hr hlt ho
      refine hnode.exists_name_iff.trans ((or_congr_right (ih hnode.inOrder_outer)).trans ?_)
      rw [List.map_cons, List.mem_cons, eq_comm]

/-- What a line shows with its children and the rest of its row is what is found in the tree where
its section comes first: `hentry` says so of the children. -/
theorem Node.shows_iff_lookup {entry : Section} {es : List (String × Section)}
    (h : Node line inner outer)
    (hnames : ∀ n, (∃ c ∈ outer, parent? outer c = none ∧ c.name = n) ↔ n ∈ es.map Prod.fst)
    (hentry : ∀ q v, (∃ s, entry.lookup q = some s ∧ s.value = v) ↔
      (q = [] ∧ line.value = v ∨ Shows inner q v))
    (houter : ∀ n q v, Shows outer (n :: q) v ↔
      ∃ s, ((Tree.ofList es).get? n).bind (Section.lookup q) = some s ∧ s.value = v)
    (n : String) (q : List String) (v : String) :
    Shows (line :: (inner ++ outer)) (n :: q) v ↔
      ∃ s, ((Tree.ofList ((line.name, entry) :: es)).get? n).bind (Section.lookup q) = some s ∧
        s.value = v := by
  rw [h.shows_iff, h.shadowed_self, hnames, houter, Tree.get?_ofList_cons, ← hentry]
  by_cases hm : n ∈ es.map Prod.fst
  · obtain ⟨later, hlater⟩ : ∃ later, (Tree.ofList es).get? n = some later := by
      rw [← Option.ne_none_iff_exists']
      exact fun hnone => Tree.get?_ofList_eq_none_iff.mp hnone hm
    rw [hlater, Option.some_or]
    refine ⟨fun hor => hor.resolve_right ?_, .inl⟩
    rintro ⟨hnot, rfl, -⟩
    exact hnot hm
  · rw [Tree.get?_ofList_eq_none_iff.mpr hm, Option.none_or]
    by_cases hn : n = line.name
    · subst hn
      simp [hm]
    · simp [hn, Ne.symm hn]

/-- What a row shows is what is found in the tree of its bindings. -/
theorem Row.shows_iff_lookup {depth : ℕ} {es : List (String × Section)} (h : Row depth ls es)
    (ho : InOrder ls) (n : String) (q : List String) (v : String) :
    Shows ls (n :: q) v ↔
      ∃ s, ((Tree.ofList es).get? n).bind (Section.lookup q) = some s ∧ s.value = v := by
  induction h generalizing n q v with
  | nil => simp [Shows]
  | @leaf line ls es hl hr ih =>
      have hnode := hr.node_leaf ho
      refine hnode.shows_iff_lookup (fun n => hr.exists_name_iff hnode.inOrder_outer) ?_
        (ih hnode.inOrder_outer) n q v
      intro q v
      cases q with
      | nil => simp [Shows, Section.lookup, Section.value]
      | cons m q => simp [Shows, Section.lookup, Section.children]
  | @branch line deeper inner outer children es hb hlt hc hr ihc ih =>
      have hnode := hc.node_branch hr hlt ho
      refine hnode.shows_iff_lookup (fun n => hr.exists_name_iff hnode.inOrder_outer) ?_
        (ih hnode.inOrder_outer) n q v
      intro q v
      cases q with
      | nil => simp [Shows, path_ne_nil, Section.lookup, Section.value, hb.value_eq]
      | cons m q =>
          rw [Section.lookup_cons, ihc hnode.inOrder_inner]
          simp

mutual

theorem Section.length_flatten (entry : Section) (depth depth' : ℕ) (name name' : String) :
    (entry.flatten depth name).length = (entry.flatten depth' name').length :=
  match entry with
  | .leaf _ => rfl
  | .branch _ entries => by
      rw [Section.flatten, Section.flatten, List.length_cons, List.length_cons,
        entries.length_flatten (depth + 1) (depth' + 1)]

/-- Depths and names make no difference to the number of sections. -/
theorem Tree.length_flatten (tree : Tree) (depth depth' : ℕ) :
    (tree.flatten depth).length = (tree.flatten depth').length :=
  match tree with
  | .nil => rfl
  | .cons name entry rest => by
      rw [Tree.flatten, Tree.flatten, List.length_append, List.length_append,
        entry.length_flatten depth depth' name name, rest.length_flatten depth depth']

end

/-- The section of a binding and those below it. -/
def sections (b : String × Section) : List (ℕ × String × Option String) := b.2.flatten 0 b.1

theorem Tree.flatten_eq_flatMap (tree : Tree) : tree.flatten 0 = tree.toList.flatMap sections := by
  induction tree using Tree.bindingsInduction with
  | nil => rfl
  | cons name entry rest ih =>
      rw [Tree.flatten, ih, Tree.toList_cons, List.flatMap_cons]
      rfl

/-- Bindings of different names give as many sections as the tree that is made of them. -/
theorem Tree.length_flatten_ofList {es : List (String × Section)} (h : (es.map Prod.fst).Nodup) :
    ((Tree.ofList es).flatten 0).length = (es.flatMap sections).length := by
  rw [Tree.flatten_eq_flatMap, ((Tree.toList_ofList_perm h).flatMap_right sections).length_eq]

/-- If no line is shadowed, none is among the children or in the rest of the row, where the name of
the line is not bound again. -/
theorem Node.not_shadowed {es : List (String × Section)} (h : Node line inner outer)
    (hr : Row line.indent outer es)
    (hs : ∀ b ∈ line :: (inner ++ outer), ¬ Shadowed (line :: (inner ++ outer)) b) :
    line.name ∉ es.map Prod.fst ∧ (∀ b ∈ inner, ¬ Shadowed inner b) ∧
      ∀ b ∈ outer, ¬ Shadowed outer b := by
  obtain ⟨hself, hrest⟩ := List.forall_mem_cons.mp hs
  obtain ⟨hinner, houter⟩ := List.forall_mem_append.mp hrest
  refine ⟨?_, fun b hb hsb => hinner b hb ((h.shadowed_inner hb).mpr hsb),
    fun b hb hsb => houter b hb ((h.shadowed_outer hb).mpr hsb)⟩
  rw [← hr.exists_name_iff h.inOrder_outer]
  exact fun hex => hself (h.shadowed_self.mpr hex)

/-- If no line is shadowed, the bindings of a row have as many sections as there are lines. -/
theorem Row.length_sections {depth : ℕ} {es : List (String × Section)} (h : Row depth ls es)
    (ho : InOrder ls) (hs : ∀ b ∈ ls, ¬ Shadowed ls b) :
    (es.map Prod.fst).Nodup ∧ (es.flatMap sections).length = ls.length := by
  induction h with
  | nil => simp
  | @leaf line ls es hl hr ih =>
      have hnode := hr.node_leaf ho
      obtain ⟨hnew, -, houter⟩ := hnode.not_shadowed hr hs
      obtain ⟨hnodup, hlen⟩ := ih hnode.inOrder_outer houter
      refine ⟨List.nodup_cons.mpr ⟨hnew, hnodup⟩, ?_⟩
      rw [List.flatMap_cons, List.length_append, hlen, List.length_cons, Nat.add_comm]
      rfl
  | @branch line deeper inner outer children es hb hlt hc hr ihc ih =>
      have hnode := hc.node_branch hr hlt ho
      obtain ⟨hnew, hinner, houter⟩ := hnode.not_shadowed hr hs
      obtain ⟨hnodup, hlen⟩ := ih hnode.inOrder_outer houter
      obtain ⟨hnodup', hlen'⟩ := ihc hnode.inOrder_inner hinner
      refine ⟨List.nodup_cons.mpr ⟨hnew, hnodup⟩, ?_⟩
      have hbranch : (sections (line.name, .branch "" (Tree.ofList children))).length =
          inner.length + 1 := by
        rw [sections, Section.flatten, List.length_cons, Tree.length_flatten _ _ 0,
          Tree.length_flatten_ofList hnodup', hlen']
      rw [List.flatMap_cons, List.length_append, hlen, hbranch, List.length_cons,
        List.length_append]
      omega

/-- A section below a canonical one is canonical. -/
theorem Section.Canonical.of_lookup {s t : Section} {p : List String} (h : s.Canonical)
    (hl : s.lookup p = some t) : t.Canonical := by
  induction p generalizing s with
  | nil =>
      rw [Section.lookup, Option.some.injEq] at hl
      exact hl ▸ h
  | cons n p ih =>
      cases s with
      | leaf value => simp [Section.lookup, Section.children] at hl
      | branch label entries =>
          rw [Section.lookup_cons, Option.bind_eq_some_iff] at hl
          obtain ⟨entry, hget, hl⟩ := hl
          exact ih (h.children.2.2.2 _ (Tree.mem_toList_of_get? hget)).2 hl

/-- The path leads to a visible line. -/
def Reaches (ls : List Line) (p : List String) (line : Line) : Prop :=
  line ∈ ls ∧ Visible ls line ∧ path ls line = p

section Lookup

variable {text : String} {tree : Tree} {p : List String}

theorem exists_lookup_iff (h : parse text = .ok tree) (label : String) (hp : p ≠ []) (v : String) :
    (∃ s, (Section.branch label tree).lookup p = some s ∧ s.value = v) ↔
      ∃ line, Reaches (linesOf text) p line ∧ line.value = v := by
  obtain ⟨es, hr, rfl⟩ := row_of_parse h
  obtain ⟨n, q, rfl⟩ := List.exists_cons_of_ne_nil hp
  rw [Section.lookup_cons, ← hr.shows_iff_lookup (inOrder_linesOf text)]
  simp [Shows, Reaches, and_assoc]

theorem value_ne_of_lookup (h : parse text = .ok tree) {label : String} (hp : p ≠ []) {v : String}
    (hl : (Section.branch label tree).lookup p = some (.leaf v)) : v ≠ "" := by
  obtain ⟨n, q, rfl⟩ := List.exists_cons_of_ne_nil hp
  have hcanonical : (Section.branch "" tree).Canonical := by
    obtain ⟨hne, hregular⟩ := canonical_of_parse h
    rw [Section.Canonical]
    exact ⟨rfl, hne, hregular⟩
  have hleaf : (Section.leaf v).Canonical := hcanonical.of_lookup (p := n :: q) hl
  rw [Section.Canonical] at hleaf
  exact hleaf.ne_empty

theorem lookup_eq_leaf_iff (h : parse text = .ok tree) (label : String) (hp : p ≠ [])
    (v : String) :
    (Section.branch label tree).lookup p = some (.leaf v) ↔
      v ≠ "" ∧ ∃ line, Reaches (linesOf text) p line ∧ line.value = v := by
  rw [← exists_lookup_iff h label hp]
  constructor
  · intro hl
    exact ⟨value_ne_of_lookup h hp hl, _, hl, rfl⟩
  · rintro ⟨hne, s, hs, rfl⟩
    cases s with
    | leaf w => exact hs
    | branch label' entries => exact absurd rfl hne

theorem lookup_eq_branch_iff (h : parse text = .ok tree) (label : String) (hp : p ≠ []) :
    (∃ label' entries, (Section.branch label tree).lookup p = some (.branch label' entries)) ↔
      ∃ line, Reaches (linesOf text) p line ∧ line.value = "" := by
  rw [← exists_lookup_iff h label hp]
  constructor
  · rintro ⟨label', entries, hl⟩
    exact ⟨_, hl, rfl⟩
  · rintro ⟨s, hs, hv⟩
    cases s with
    | leaf w => exact absurd hv (value_ne_of_lookup h hp hs)
    | branch label' entries => exact ⟨label', entries, hs⟩

theorem lookup_eq_none_iff (h : parse text = .ok tree) (label : String) (hp : p ≠ []) :
    (Section.branch label tree).lookup p = none ↔ ¬ ∃ line, Reaches (linesOf text) p line := by
  rw [← not_iff_not, not_not, ← ne_eq, Option.ne_none_iff_exists']
  constructor
  · rintro ⟨s, hs⟩
    obtain ⟨line, hline, -⟩ := (exists_lookup_iff h label hp s.value).mp ⟨s, hs, rfl⟩
    exact ⟨line, hline⟩
  · rintro ⟨line, hline⟩
    obtain ⟨s, hs, -⟩ := (exists_lookup_iff h label hp line.value).mpr ⟨line, hline, rfl⟩
    exact ⟨s, hs⟩

theorem length_flatten_of_parse (h : parse text = .ok tree)
    (hs : ∀ b ∈ linesOf text, ¬ Shadowed (linesOf text) b) :
    (tree.flatten 0).length = (linesOf text).length := by
  obtain ⟨es, hr, rfl⟩ := row_of_parse h
  obtain ⟨hnodup, hlen⟩ := hr.length_sections (inOrder_linesOf text) hs
  rw [Tree.length_flatten_ofList hnodup, hlen]

end Lookup

/-- What is found along a path in the tree of a text is what the one visible line with this path
binds: a leaf with its value, or a branch if it has none. If no two lines have the same parent and
the same name, the tree has as many sections as the text has lines. -/
theorem lookup_finds_visible_line {text : String} {tree : Tree} (h : parse text = .ok tree) :
    let ls := linesOf text
    LinesIn text ls ∧
    (∀ label p, p ≠ [] →
      (∀ v, (Section.branch label tree).lookup p = some (.leaf v) ↔
        v ≠ "" ∧ ∃ line, Reaches ls p line ∧ line.value = v) ∧
      ((∃ label' entries, (Section.branch label tree).lookup p = some (.branch label' entries)) ↔
        ∃ line, Reaches ls p line ∧ line.value = "") ∧
      ((Section.branch label tree).lookup p = none ↔ ¬ ∃ line, Reaches ls p line)) ∧
    (∀ p a b, Reaches ls p a → Reaches ls p b → a = b) ∧
    ((∀ a ∈ ls, ∀ b ∈ ls, parent? ls a = parent? ls b → a.name = b.name → a = b) →
      (tree.flatten 0).length = ls.length) := by
  intro ls
  refine ⟨linesIn_linesOf text, fun label p hp => ?_, ?_, fun hdiffer => ?_⟩
  · exact ⟨lookup_eq_leaf_iff h label hp, lookup_eq_branch_iff h label hp,
      lookup_eq_none_iff h label hp⟩
  · rintro p a b ⟨ha, hva, hpa⟩ ⟨hb, hvb, hpb⟩
    exact hva.eq_of_path_eq (inOrder_linesOf text) ha hb hvb (hpa.trans hpb.symm)
  · refine length_flatten_of_parse h ?_
    rintro b hb ⟨later, hm, hlt, hparent, hname⟩
    exact absurd hlt (hdiffer later hm b hb hparent hname ▸ lt_irrefl _)

/-- A branch that a later one of the same name replaces, with all that is below it. -/
theorem lookup_finds_visible_line_shadowed :
    let text := "a:\n  x: 1\nb: 2\na:\n  y: 3\n  y: 4"
    let tree : Tree :=
      .cons "a" (.branch "" (.cons "y" (.leaf "4") .nil)) (.cons "b" (.leaf "2") .nil)
    parse text = .ok tree ∧
      (∃ line, Reaches (linesOf text) ["a", "y"] line ∧ line.value = "4") ∧
      ¬ ∃ line, Reaches (linesOf text) ["a", "x"] line := by
  intro text tree
  have h : parse text = .ok tree := by decide +kernel
  obtain ⟨-, hlookup, -, -⟩ := lookup_finds_visible_line h
  obtain ⟨hleaf, -, -⟩ := hlookup "" ["a", "y"] (by decide)
  obtain ⟨-, -, hnone⟩ := hlookup "" ["a", "x"] (by decide)
  exact ⟨h, ((hleaf "4").mp rfl).2, hnone.mp rfl⟩

end ResourceAgent.Outline
