import ResourceAgent.Outline.Json
import ResourceAgent.Proofs.Json.RoundTrip
import ResourceAgent.Proofs.Outline.Tree

/-!
# Trees through JSON

A tree whose names ascend at every level, which is what a map of names to sections is, can be read
back from its JSON form, compact or pretty, as long as the reader allows the nesting. Whatever text
a tree is read from, the tree is of that kind, so writing it down and reading it again changes
nothing. A branch is an object that has one member `name` and one member `value`, wherever they
stand and whatever else there is; an array in its place is refused.
-/
namespace ResourceAgent.Outline

open Json (Value)

mutual

def Section.Ordered : Section → Prop
  | .leaf _ => True
  | .branch _ entries => entries.Ordered

/-- The names ascend, here and in every branch. -/
def Tree.Ordered : Tree → Prop
  | .nil => True
  | .cons name entry rest => (∀ n ∈ rest.names, name < n) ∧ entry.Ordered ∧ rest.Ordered

end

theorem Tree.ordered_iff {tree : Tree} :
    tree.Ordered ↔ tree.Ascending ∧ ∀ b ∈ tree.toList, b.2.Ordered := by
  induction tree using Tree.bindingsInduction with
  | nil => simp [Tree.Ordered, Tree.ascending_nil]
  | cons name entry rest ih =>
      rw [Tree.Ordered, Tree.ascending_cons, Tree.toList_cons, List.forall_mem_cons, ih]
      tauto

theorem Tree.members_eq (tree : Tree) :
    tree.members = tree.toList.map fun b => (b.1, b.2.toJson) := by
  induction tree using Tree.bindingsInduction with
  | nil => rw [members]; rfl
  | cons name entry rest ih => rw [members, ih]; rfl

/-- The members, one by one, stand for the bindings. -/
inductive StandFor : List (String × Value) → List (String × Section) → Prop
  | nil : StandFor [] []
  | leaf {name value : String} {ms es} : StandFor ms es →
      StandFor ((name, .string value) :: ms) ((name, .leaf value) :: es)
  | branch {name label : String} {members inner ms} {children es} :
      members.filter (·.1 == "name") = [("name", .string label)] →
      members.filter (·.1 == "value") = [("value", .object inner)] →
      StandFor inner children → StandFor ms es →
      StandFor ((name, .object members) :: ms) ((name, .branch label (.ofList children)) :: es)

theorem branchOf?_eq (members : List (String × Value)) :
    branchOf? members = (members.filter (·.1 == "value")).map fun m => treeOf? m.2 := by
  induction members with
  | nil => simp [branchOf?]
  | cons m members ih =>
      obtain ⟨name, v⟩ := m
      by_cases h : name = "value"
      · simp [branchOf?, h, ih]
      · simp [branchOf?, h, ih]

theorem onlyMember_eq_some_iff {name : String} {members : List (String × Value)} {v : Value} :
    onlyMember name members = some v ↔ members.filter (·.1 == name) = [(name, v)] := by
  have hname : ∀ m ∈ members.filter (·.1 == name), m.1 = name := by
    intro m hm
    exact beq_iff_eq.mp (List.mem_filter.mp hm).2
  unfold onlyMember
  split
  · rename_i n w hf
    rw [hf] at hname ⊢
    have hn : n = name := hname (n, w) List.mem_cons_self
    simp [hn]
  · rename_i hne
    simp only [reduceCtorEq, false_iff]
    exact hne name v

theorem labelOf_eq_some_iff {members : List (String × Value)} {label : String} :
    labelOf members = some label ↔
      members.filter (·.1 == "name") = [("name", .string label)] := by
  rw [← onlyMember_eq_some_iff]
  unfold labelOf
  split
  · rename_i s hs
    simp [hs]
  · rename_i hne
    simp only [reduceCtorEq, false_iff]
    exact hne label

theorem branchOf?_eq_singleton_iff {members : List (String × Value)} {tree : Tree} :
    branchOf? members = [some tree] ↔ ∃ inner,
      members.filter (·.1 == "value") = [("value", .object inner)] ∧
        bindings? .nil inner = some tree := by
  rw [branchOf?_eq, List.map_eq_singleton_iff]
  constructor
  · rintro ⟨⟨name, v⟩, hf, ht⟩
    have hm : (name, v) ∈ members.filter (·.1 == "value") := by rw [hf]; exact List.mem_cons_self
    have hname : name = "value" := beq_iff_eq.mp (List.mem_filter.mp hm).2
    cases v with
    | object inner => exact ⟨inner, by rw [hf, hname], by simpa [treeOf?] using ht⟩
    | _ => simp [treeOf?] at ht
  · rintro ⟨inner, hf, ht⟩
    exact ⟨_, hf, by simpa [treeOf?] using ht⟩

theorem ofJson?_eq_some {v : Value} {entry : Section} (h : Section.ofJson? v = some entry) :
    (∃ value, v = .string value ∧ entry = .leaf value) ∨
      ∃ members label inner tree, v = .object members ∧ entry = .branch label tree ∧
        members.filter (·.1 == "name") = [("name", .string label)] ∧
        members.filter (·.1 == "value") = [("value", .object inner)] ∧
        bindings? .nil inner = some tree := by
  cases v with
  | string value =>
      simp only [Section.ofJson?, Option.some.injEq] at h
      exact .inl ⟨value, rfl, h.symm⟩
  | object members =>
      simp only [Section.ofJson?] at h
      split at h
      · rename_i label tree hl hb
        obtain ⟨inner, hf, ht⟩ := branchOf?_eq_singleton_iff.mp hb
        cases h
        exact .inr ⟨members, label, inner, tree, rfl, rfl, labelOf_eq_some_iff.mp hl, hf, ht⟩
      · cases h
  | _ => simp [Section.ofJson?] at h

theorem sizeOf_lt_of_filter {name : String} {members inner : List (String × Value)}
    (h : members.filter (·.1 == name) = [(name, .object inner)]) :
    sizeOf inner < sizeOf members := by
  have hm : (name, Value.object inner) ∈ members.filter (·.1 == name) := by
    rw [h]
    exact List.mem_cons_self
  have hsize := List.sizeOf_lt_of_mem (List.mem_filter.mp hm).1
  simp only [Prod.mk.sizeOf_spec, Value.object.sizeOf_spec] at hsize
  omega

/-- Members that are bound one after the other stand for what they are bound to. -/
theorem exists_standFor {ms : List (String × Value)} {tree t : Tree}
    (h : bindings? tree ms = some t) :
    ∃ es, StandFor ms es ∧ es.foldl (fun tree e => tree.insert e.1 e.2) tree = t := by
  induction hn : sizeOf ms using Nat.strong_induction_on generalizing ms tree t with
  | h n ih =>
      subst hn
      cases ms with
      | nil => exact ⟨[], .nil, by simpa [bindings?] using h⟩
      | cons m rest =>
          obtain ⟨name, v⟩ := m
          rw [bindings?] at h
          split at h
          · rename_i entry he
            obtain ⟨es, hes, rfl⟩ :=
              ih _ (by simp only [List.cons.sizeOf_spec]; omega) h rfl
            rcases ofJson?_eq_some he with
              ⟨value, rfl, rfl⟩ | ⟨members, label, inner, tree', rfl, rfl, hl, hf, ht⟩
            · exact ⟨(name, .leaf value) :: es, .leaf hes, rfl⟩
            · have hlt := sizeOf_lt_of_filter hf
              obtain ⟨children, hc, rfl⟩ := ih _ (by
                simp only [List.cons.sizeOf_spec, Prod.mk.sizeOf_spec, Value.object.sizeOf_spec]
                omega) ht rfl
              exact ⟨(name, .branch label (.ofList children)) :: es, .branch hl hf hc hes, rfl⟩
          · cases h

theorem StandFor.bindings?_eq {ms : List (String × Value)} {es : List (String × Section)}
    (h : StandFor ms es) (tree : Tree) :
    bindings? tree ms = some (es.foldl (fun tree e => tree.insert e.1 e.2) tree) := by
  induction h generalizing tree with
  | nil => simp [bindings?]
  | leaf _ ih => simp [bindings?, Section.ofJson?, ih]
  | branch hl hv _ _ ihInner ih =>
      have hlabel := labelOf_eq_some_iff.mpr hl
      have hbranch := branchOf?_eq_singleton_iff.mpr ⟨_, hv, ihInner .nil⟩
      simp only [bindings?, Section.ofJson?, hlabel, hbranch, ih]
      rfl

/-- Trees that are read are ordered. -/
theorem StandFor.ordered {ms : List (String × Value)} {es : List (String × Section)}
    (h : StandFor ms es) : ∀ e ∈ es, e.2.Ordered := by
  induction h with
  | nil => simp
  | leaf _ ih => exact List.forall_mem_cons.mpr ⟨by simp [Section.Ordered], ih⟩
  | @branch _ label _ _ _ children _ _ _ _ _ ihInner ih =>
      refine List.forall_mem_cons.mpr ⟨?_, ih⟩
      rw [Section.Ordered, Tree.ordered_iff]
      exact ⟨Tree.ascending_ofList _, fun e he => ihInner e (Tree.toList_ofList_subset _ he)⟩

/-- A tree is written no deeper than the text that it was read from. -/
theorem StandFor.nests {ms : List (String × Value)} {es : List (String × Section)}
    (h : StandFor ms es) {n : ℕ} (hn : ∀ m ∈ ms, m.2.Nests n) : ∀ e ∈ es, e.2.toJson.Nests n := by
  induction h generalizing n with
  | nil => simp
  | leaf _ ih =>
      refine List.forall_mem_cons.mpr ⟨?_, ih (List.forall_mem_cons.mp hn).2⟩
      rw [Section.toJson]
      exact .string
  | @branch _ label members inner _ children _ hl hv _ _ ihInner ih =>
      obtain ⟨hobject, hrest⟩ := List.forall_mem_cons.mp hn
      refine List.forall_mem_cons.mpr ⟨?_, ih hrest⟩
      cases hobject with
      | @object k _ hmembers =>
          have hm : ("value", Value.object inner) ∈ members :=
            (List.mem_filter.mp (by rw [hv]; exact List.mem_cons_self)).1
          cases hmembers _ hm with
          | @object k _ hinner =>
              have htree : (Value.object (Tree.ofList children).members).Nests (k + 1) := by
                rw [Tree.members_eq]
                refine .object fun m hm => ?_
                obtain ⟨e, he, rfl⟩ := List.mem_map.mp hm
                exact ihInner hinner e (Tree.toList_ofList_subset _ he)
              rw [Section.toJson]
              refine .object (List.forall_mem_cons.mpr ⟨.string, ?_⟩)
              exact List.forall_mem_cons.mpr ⟨htree, by simp⟩

mutual

theorem Section.standFor_toJson {name : String} : {entry : Section} → entry.Ordered →
    {ms : List (String × Value)} → {es : List (String × Section)} → StandFor ms es →
      StandFor ((name, entry.toJson) :: ms) ((name, entry) :: es)
  | .leaf value, _, _, _, hs => by
      rw [Section.toJson]
      exact .leaf hs
  | .branch label entries, h, ms, es, hs => by
      rw [Section.Ordered] at h
      have he := Tree.ofList_eq_of_perm (Tree.ordered_iff.mp h).1 (List.Perm.refl _)
      have hb : StandFor
          ((name, .object [("name", .string label), ("value", .object entries.members)]) :: ms)
          ((name, .branch label (.ofList entries.toList)) :: es) :=
        .branch rfl rfl (Tree.standFor_members h) hs
      rw [he] at hb
      rw [Section.toJson]
      exact hb

/-- The members of an ordered tree stand for its bindings. -/
theorem Tree.standFor_members : {tree : Tree} → tree.Ordered → StandFor tree.members tree.toList
  | .nil, _ => by
      rw [Tree.members]
      exact .nil
  | .cons name entry rest, h => by
      rw [Tree.Ordered] at h
      rw [Tree.members]
      exact Section.standFor_toJson h.2.1 (Tree.standFor_members h.2.2)

end

mutual

theorem Section.integral_toJson (p : ℤ → Prop) : (entry : Section) → entry.toJson.Integral p
  | .leaf value => by
      rw [Section.toJson]
      exact .string
  | .branch label entries => by
      have h := Tree.integral_toJson p entries
      rw [Section.toJson]
      exact .object (List.forall_mem_cons.mpr ⟨.string, List.forall_mem_cons.mpr ⟨h, by simp⟩⟩)

/-- There are no numbers in a tree. -/
theorem Tree.integral_toJson (p : ℤ → Prop) : (tree : Tree) → (Value.object tree.members).Integral p
  | .nil => by
      rw [Tree.members]
      exact .object (by simp)
  | .cons name entry rest => by
      have h := Tree.integral_toJson p rest
      rw [Tree.members]
      cases h with
      | object hrest =>
          exact .object (List.forall_mem_cons.mpr ⟨Section.integral_toJson p entry, hrest⟩)

end

theorem bindings?_cons_eq_some_iff {name : String} {v : Value} {ms : List (String × Value)}
    {tree t : Tree} : bindings? tree ((name, v) :: ms) = some t ↔
      ∃ entry, Section.ofJson? v = some entry ∧ bindings? (tree.insert name entry) ms = some t := by
  rw [bindings?]
  cases Section.ofJson? v with
  | none => simp
  | some entry => simp

theorem exists_of_readMembers {fuel budget : ℕ} {acc : List (String × Value)} {cs rest : List Char}
    {v : Value} (h : Json.readMembers fuel budget acc cs = .ok (v, rest)) :
    ∃ ms, v = .object (acc.reverse ++ ms) := by
  induction fuel generalizing acc cs with
  | zero => cases h
  | succ fuel ih =>
      obtain ⟨name, w, _, _, -, -, ⟨-, rfl⟩ | ⟨next, -, hnext⟩⟩ := Json.readMembers_succ_eq_ok h
      · exact ⟨_, by rw [List.reverse_cons]⟩
      · obtain ⟨ms, rfl⟩ := ih hnext
        exact ⟨_, by rw [List.reverse_cons, List.append_assoc]⟩

/-- Binding the members as they are read comes to the same as reading them first. -/
theorem readMembers_of_readBindings {fuel : ℕ} {tree t : Tree} {cs rest : List Char}
    (h : readBindings fuel tree cs = .ok (t, rest)) (acc : List (String × Value)) :
    ∃ ms, Json.readMembers fuel (Json.depthLimit - 1) acc cs =
        .ok (.object (acc.reverse ++ ms), rest) ∧ bindings? tree ms = some t := by
  fun_induction readBindings fuel tree cs generalizing acc with
  | case6 tree cs fuel name r₁ hname v r₂ hvalue entry he r₃ hskip =>
      cases h
      refine ⟨[(name, v)], ?_, bindings?_cons_eq_some_iff.mpr ⟨entry, he, by simp [bindings?]⟩⟩
      rw [Json.readMembers, hname]
      simp [hvalue, hskip]
  | case7 tree cs fuel name r₁ hname v r₂ hvalue entry he r₃ hskip ih =>
      obtain ⟨ms, hms, hb⟩ := ih h ((name, v) :: acc)
      refine ⟨(name, v) :: ms, ?_, bindings?_cons_eq_some_iff.mpr ⟨entry, he, hb⟩⟩
      rw [Json.readMembers, hname]
      simp [hvalue, hskip, hms]
  | _ => cases h

theorem readBindings_of_readMembers {fuel : ℕ} {tree t : Tree} (acc : List (String × Value))
    {ms : List (String × Value)} {cs rest : List Char}
    (h : Json.readMembers fuel (Json.depthLimit - 1) acc cs =
      .ok (.object (acc.reverse ++ ms), rest)) (hb : bindings? tree ms = some t) :
    readBindings fuel tree cs = .ok (t, rest) := by
  induction fuel generalizing tree acc ms cs with
  | zero => cases h
  | succ fuel ih =>
      obtain ⟨name, v, r₁, r₂, hname, hvalue, ⟨hskip, hv⟩ | ⟨next, hskip, hnext⟩⟩ :=
        Json.readMembers_succ_eq_ok h
      · simp only [List.reverse_cons, Value.object.injEq, List.append_cancel_left_eq] at hv
        subst hv
        obtain ⟨entry, he, hb⟩ := bindings?_cons_eq_some_iff.mp hb
        simp only [bindings?, Option.some.injEq] at hb
        rw [readBindings]
        simp [hname, hvalue, he, hskip, hb]
      · obtain ⟨ms', hms⟩ := exists_of_readMembers hnext
        simp only [List.reverse_cons, List.append_assoc, List.singleton_append,
          Value.object.injEq] at hms
        obtain rfl := List.append_cancel_left hms
        obtain ⟨entry, he, hb⟩ := bindings?_cons_eq_some_iff.mp hb
        have hrest := ih ((name, v) :: acc) (by simpa using hnext) hb
        rw [readBindings]
        simp [hname, hvalue, he, hskip, hrest]

/-- What is read as members first decides what is read as bindings. -/
theorem readBindings_eq_ok_iff {fuel : ℕ} {t : Tree} {cs rest' : List Char}
    (ms : List (String × Value)) (rest : List Char)
    (h : Json.readMembers fuel (Json.depthLimit - 1) [] cs = .ok (.object ms, rest)) :
    readBindings fuel .nil cs = .ok (t, rest') ↔ rest' = rest ∧ bindings? .nil ms = some t := by
  constructor
  · intro hb
    obtain ⟨ms', hms, ht⟩ := readMembers_of_readBindings hb []
    cases h.symm.trans hms
    exact ⟨rfl, ht⟩
  · rintro ⟨rfl, ht⟩
    exact readBindings_of_readMembers [] h ht

namespace Tree

theorem parseJson_eq_ok_iff {text : String} {tree : Tree} : parseJson text = .ok tree ↔
    ∃ rest, readTree (Json.fuelFor text.toList) text.toList = .ok (tree, rest) ∧
      Json.expectEnd rest = .ok () := by
  simp only [parseJson, bind, Except.bind, pure, Except.pure]
  cases h : readTree (Json.fuelFor text.toList) text.toList with
  | error e => simp
  | ok read =>
      obtain ⟨t, rest⟩ := read
      cases he : Json.expectEnd rest with
      | error e => simp [he]
      | ok u => simp [he]

theorem readTree_object {fuel : ℕ} {gap text : List Char} (hgap : ∀ c ∈ gap, Json.isSpace c = true)
    (ht : Json.Opens '\x7d' text) :
    readTree fuel ('\x7b' :: (gap ++ text)) = readBindings fuel .nil text := by
  have hskip := ht.skipSpace_eq hgap
  obtain ⟨c, cs, rfl, -, hne⟩ := ht
  rw [readTree, Json.skipSpace_cons (by decide)]
  simp [hskip, hne]

/-- An object is read member by member, in every layout. -/
theorem parseJson_object_iff {ms : List (String × Value)} (hn : (Value.object ms).Nests 127)
    (hi : (Value.object ms).Integral Json.IsShort) (l : Json.Layout) {tree : Tree} :
    parseJson (String.ofList ((Value.object ms).chars l 0)) = .ok tree ↔
      bindings? .nil ms = some tree := by
  rw [parseJson_eq_ok_iff, String.toList_ofList]
  have hreads : ∀ m ∈ ms, Json.Reads (Json.depthLimit - 1) (m.2.chars l (0 + 1)) m.2 := by
    intro m hm
    cases hn with
    | object hnests =>
        cases hi with
        | object hintegral => exact (hnests m hm).reads (hintegral m hm) l _
  rw [Value.chars]
  cases ms with
  | nil =>
      have hread : readTree (Json.fuelFor ['\x7b', '\x7d']) ['\x7b', '\x7d'] = .ok (.nil, []) := rfl
      rw [List.map_nil, Json.Layout.enclose, hread]
      simp [bindings?, Json.expectEnd, Json.skipSpace]
  | cons m ms =>
      have hopen := Json.opens_member l m.1 (m.2.chars l (0 + 1))
      simp only [List.map_cons, Json.Layout.enclose]
      rw [readTree_object (l.isSpace_gap _) (Json.opens_joinLists hopen _ _)]
      refine (exists_congr fun rest => and_congr_left fun _ =>
        readBindings_eq_ok_iff (m :: ms) [] ?_).trans ?_
      · refine Json.readMembers_joinLists l (l.isSpace_gap _) (l.isSpace_gap _) hreads [] [] ?_
        simp only [Json.fuelFor, List.map_cons, List.length_append, List.length_cons,
          List.length_nil]
        omega
      · simp [Json.expectEnd, Json.skipSpace]

/-- In every layout, an object is read as a tree if and only if its members stand for bindings. -/
theorem parseJson_iff_standFor {ms : List (String × Value)} (hn : (Value.object ms).Nests 127)
    (hi : (Value.object ms).Integral Json.IsShort) (l : Json.Layout) {tree : Tree} :
    parseJson (String.ofList ((Value.object ms).chars l 0)) = .ok tree ↔
      ∃ es, StandFor ms es ∧ tree = ofList es := by
  rw [parseJson_object_iff hn hi l]
  constructor
  · intro hb
    obtain ⟨es, hs, rfl⟩ := exists_standFor hb
    exact ⟨es, hs, rfl⟩
  · rintro ⟨es, hs, rfl⟩
    exact hs.bindings?_eq .nil

/-- A tree is read back from its JSON form in every layout. -/
theorem parseJson_chars {tree : Tree} (h : tree.Ordered) (hn : tree.toJson.Nests 127)
    (l : Json.Layout) : parseJson (String.ofList (tree.toJson.chars l 0)) = .ok tree := by
  have he := ofList_eq_of_perm (ordered_iff.mp h).1 (List.Perm.refl _)
  exact (parseJson_iff_standFor hn (tree.integral_toJson _) l).mpr
    ⟨tree.toList, standFor_members h, he.symm⟩

theorem parseJson_compact {tree : Tree} (h : tree.Ordered) (hn : tree.toJson.Nests 127) :
    parseJson tree.toJson.compact = .ok tree := by
  rw [Value.compact, Value.compactChars_eq 0]
  exact parseJson_chars h hn .compact

theorem parseJson_pretty {tree : Tree} (h : tree.Ordered) (hn : tree.toJson.Nests 127) :
    parseJson tree.toJson.pretty = .ok tree := by
  rw [Value.pretty, Value.prettyChars_eq]
  exact parseJson_chars h hn .pretty

/-- What is read is ordered, and nested no deeper than the reader allows. -/
theorem ordered_of_parseJson {text : String} {tree : Tree} (h : parseJson text = .ok tree) :
    tree.Ordered ∧ tree.toJson.Nests 127 := by
  obtain ⟨rest, hread, -⟩ := parseJson_eq_ok_iff.mp h
  unfold readTree at hread
  split at hread
  · split at hread
    · cases hread
      rw [toJson, members]
      exact ⟨by simp [Ordered], .object (by simp)⟩
    · obtain ⟨ms, hms, hb⟩ := readMembers_of_readBindings hread []
      obtain ⟨es, hs, rfl⟩ := exists_standFor hb
      have hsub := toList_ofList_subset es
      refine ⟨ordered_iff.mpr ⟨ascending_ofList es, fun e he => hs.ordered e (hsub he)⟩, ?_⟩
      cases (Json.nests_of_read _).2.2 hms (by simp) with
      | object hnests =>
          rw [toJson, members_eq]
          refine .object fun m hm => ?_
          obtain ⟨e, he, rfl⟩ := List.mem_map.mp hm
          exact hs.nests hnests e (hsub he)
  · cases hread
  · split at hread <;> cases hread

/-- Trees are read back from both forms, so no two of them are written alike; and a text that a tree
is read from has a normal form, the compact form of the tree, which is its own normal form. A branch
is read from an object only. -/
theorem json_normal_form :
    (∀ tree : Tree, tree.Ordered → tree.toJson.Nests 127 →
      parseJson tree.toJson.compact = .ok tree ∧ parseJson tree.toJson.pretty = .ok tree) ∧
    (∀ s t : Tree, s.Ordered → t.Ordered → s.toJson.Nests 127 → t.toJson.Nests 127 →
      s.toJson.compact = t.toJson.compact ∨ s.toJson.pretty = t.toJson.pretty → s = t) ∧
    (∀ (text : String) (tree : Tree), parseJson text = .ok tree →
      parseJson tree.toJson.compact = .ok tree ∧
        (parseJson tree.toJson.compact).map (·.toJson.compact) = .ok tree.toJson.compact) ∧
    (∀ items : List Value, Section.ofJson? (.array items) = none) ∧
    ∀ (ms : List (String × Value)) (l : Json.Layout) (tree : Tree),
      (Value.object ms).Nests 127 → (Value.object ms).Integral Json.IsShort →
      (parseJson (String.ofList ((Value.object ms).chars l 0)) = .ok tree ↔
        ∃ es, StandFor ms es ∧ tree = ofList es) := by
  refine ⟨?_, ?_, ?_, ?_, ?_⟩
  · intro tree h hn
    exact ⟨parseJson_compact h hn, parseJson_pretty h hn⟩
  · intro s t hs ht hns hnt he
    rcases he with he | he
    · have hst := parseJson_compact hs hns
      rw [he, parseJson_compact ht hnt] at hst
      exact (Except.ok.inj hst).symm
    · have hst := parseJson_pretty hs hns
      rw [he, parseJson_pretty ht hnt] at hst
      exact (Except.ok.inj hst).symm
  · intro text tree h
    obtain ⟨ho, hn⟩ := ordered_of_parseJson h
    have hparse := parseJson_compact ho hn
    exact ⟨hparse, by rw [hparse]; rfl⟩
  · intro items
    cases h : Section.ofJson? (.array items) with
    | none => rfl
    | some entry => rcases ofJson?_eq_some h with ⟨_, hv, -⟩ | ⟨_, _, _, _, hv, -⟩ <;> cases hv
  · intro ms l tree hn hi
    exact parseJson_iff_standFor hn hi l

/-- A text with members in another order, a member that nobody asked for, and white space; and a
tree that is written differently. -/
theorem json_normal_form_reordered :
    let tree : Tree := .cons "a" (.leaf "1")
      (.cons "b" (.branch "n" (.cons "k" (.leaf "v\n") .nil)) .nil)
    let text := "\x7b \"b\": \x7b\"x\": [0], \"value\": \x7b\"k\": \"v\\u000a\"\x7d," ++
      " \"name\": \"n\"\x7d, \"a\": \"1\" \x7d"
    let other : Tree := .cons "a" (.branch "" .nil) .nil
    tree.Ordered ∧ tree.toJson.Nests 127 ∧ parseJson text = .ok tree ∧
      parseJson tree.toJson.compact = .ok tree ∧ parseJson tree.toJson.pretty = .ok tree ∧
      (parseJson tree.toJson.compact).map (·.toJson.compact) = .ok tree.toJson.compact ∧
      tree.toJson.compact ≠ other.toJson.compact := by
  intro tree text other
  obtain ⟨hround, hinj, hnormal, -⟩ := json_normal_form
  have hp : parseJson text = .ok tree := by decide +kernel
  have hp' : parseJson "\x7b\"a\":\x7b\"name\":\"\",\"value\":\x7b\x7d\x7d\x7d" = .ok other := by
    decide +kernel
  obtain ⟨ho, hn⟩ := ordered_of_parseJson hp
  obtain ⟨ho', hn'⟩ := ordered_of_parseJson hp'
  refine ⟨ho, hn, hp, (hround tree ho hn).1, (hround tree ho hn).2, (hnormal text tree hp).2, ?_⟩
  intro he
  have hne : tree ≠ other := by decide
  exact hne (hinj tree other ho ho' hn hn' (.inl he))

/-- An array does not stand for a branch. -/
theorem parseJson_array_mismatch :
    parseJson "\x7b\"a\":[\"n\",\x7b\x7d]\x7d" = .error .mismatch := by
  decide +kernel

end Tree

end ResourceAgent.Outline
