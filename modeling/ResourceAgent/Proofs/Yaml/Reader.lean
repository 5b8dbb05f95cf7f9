import ResourceAgent.Proofs.Yaml.Flow
import ResourceAgent.Yaml.Reader

/-!
# JSON read as YAML

The tokens of a value are read as the node of the same structure, in which every string is a
double-quoted scalar and everything else a plain one. No tag, no anchor and no alias occurs, so the
context stays as it is. Two steps for each token are fuel enough.
-/
namespace ResourceAgent.Yaml

open Json (Value)

/-- The node of a value. -/
def nodeOf (v : Value) : Node :=
  match v with
  | .null => .scalar none .plain "null"
  | .bool b => .scalar none .plain (if b then "true" else "false")
  | .number n => .scalar none .plain (String.ofList n.write)
  | .string s => .scalar none .doubleQuoted s
  | .array items => .sequence none (items.map fun v => nodeOf v)
  | .object members =>
      .mapping none (members.map fun m => (.scalar none .doubleQuoted m.1, nodeOf m.2))
termination_by sizeOf v
decreasing_by
  · have h := List.sizeOf_lt_of_mem ‹v ∈ items›
    simp only [Value.array.sizeOf_spec]
    omega
  · have h := List.sizeOf_lt_of_mem ‹m ∈ members›
    obtain ⟨name, v⟩ := m
    simp only [Prod.mk.sizeOf_spec, Value.object.sizeOf_spec] at h ⊢
    omega

/-- A token that the content of a node may start with wherever the node stands. -/
def startsNode : Token → Bool
  | .scalar _ _ | .flowSequenceStart | .flowMappingStart => true
  | _ => false

/-- The tokens are read as the node, whatever follows them. -/
structure Reads (ts : List Token) (node : Node) : Prop where
  starts : ∃ t r, ts = t :: r ∧ startsNode t = true
  read : ∀ fuel place ctx rest, 3 * ts.length ≤ fuel →
    readNode fuel place ctx (ts ++ rest) = .ok (node, ctx, rest)

variable {fuel : ℕ} {place : Place} {ctx ctx' : Context} {t : Token} {ts rest : List Token}
  {node : Node}

/-- Without properties a node is its content. -/
theorem readNode_of_readContent (ht : startsNode t = true)
    (h : readContent fuel place { } ctx (t :: ts) = .ok (node, ctx', rest)) :
    readNode (fuel + 1) place ctx (t :: ts) = .ok (node, ctx', rest) := by
  have hproperties : readProperties ctx (t :: ts) = .ok ({ }, t :: ts) := by
    cases t <;> first | rfl | cases ht
  rw [readNode]
  · rw [hproperties]
    simp only [Context.enter, h]
    rfl
  · rintro name rest' he
    cases he
    cases ht

theorem readUnless_of_not_mem {ends : List Token} (h : t ∉ ends) :
    readUnless (fuel + 1) ends place ctx (t :: ts) = readNode fuel place ctx (t :: ts) := by
  simp [readUnless, h]

theorem reads_scalar (style : Style) (text : String) :
    Reads [.scalar style text] (.scalar none style text) where
  starts := ⟨_, _, rfl, rfl⟩
  read := by
    intro fuel place ctx rest hfuel
    obtain ⟨fuel, rfl⟩ : ∃ f, fuel = f + 2 := ⟨fuel - 2, by simp at hfuel; omega⟩
    refine readNode_of_readContent rfl ?_
    rw [readContent]
    rfl

section Loop

variable {α β : Type} {tokens : α → List Token} {result : α → β} {closing : Token}
  {many : ℕ → Bool → List β → Context → List Token → Read (List β)}
  {one : ℕ → List β → Context → List Token → Read (List β)}

/-- Items or entries, read one after the other up to the bracket that closes. -/
theorem read_joinLists
    (hend : ∀ fuel first acc ctx rest,
      many (fuel + 1) first acc ctx (closing :: rest) = .ok (acc.reverse, ctx, rest))
    (hcomma : ∀ fuel acc ctx ts,
      many (fuel + 1) false acc ctx (.flowEntry :: ts) = one fuel acc ctx ts) {a : α} {as : List α}
    (hone : ∀ b ∈ a :: as, ∀ fuel acc ctx rest, 3 * (tokens b).length ≤ fuel →
      one (fuel + 1) acc ctx (tokens b ++ rest) = many fuel false (result b :: acc) ctx rest)
    (fuel : ℕ) (acc : List β) (ctx : Context) (rest : List Token)
    (hfuel : 3 * (Text.joinLists [.flowEntry] ((a :: as).map tokens)).length + 2 ≤ fuel) :
    one fuel acc ctx (Text.joinLists [.flowEntry] ((a :: as).map tokens) ++ closing :: rest) =
      .ok (acc.reverse ++ (a :: as).map result, ctx, rest) := by
  have ha := hone a List.mem_cons_self
  induction as generalizing a fuel acc with
  | nil =>
      simp only [List.map_cons, List.map_nil, Text.joinLists] at hfuel ⊢
      obtain ⟨fuel, rfl⟩ : ∃ f, fuel = f + 2 := ⟨fuel - 2, by omega⟩
      rw [ha (fuel + 1) acc ctx _ (by omega), hend, List.reverse_cons]
  | cons b as ih =>
      have hb := ih (fun d hd => hone d (List.mem_cons_of_mem _ hd))
      simp only [List.map_cons, Text.joinLists, List.append_assoc, List.singleton_append,
        List.length_append, List.length_cons] at hb hfuel ⊢
      obtain ⟨fuel, rfl⟩ : ∃ f, fuel = f + 2 := ⟨fuel - 2, by omega⟩
      rw [ha (fuel + 1) acc ctx _ (by omega), List.cons_append, hcomma,
        hb fuel (result a :: acc) (by omega) (hone b (by simp))]
      simp

/-- The same from the bracket that opens. -/
theorem read_enclosed
    (hend : ∀ fuel first acc ctx rest,
      many (fuel + 1) first acc ctx (closing :: rest) = .ok (acc.reverse, ctx, rest))
    (hcomma : ∀ fuel acc ctx ts,
      many (fuel + 1) false acc ctx (.flowEntry :: ts) = one fuel acc ctx ts) {as : List α}
    (hfirst : ∀ b ∈ as, ∀ fuel ctx rest,
      many (fuel + 1) true [] ctx (tokens b ++ rest) = one fuel [] ctx (tokens b ++ rest))
    (hone : ∀ b ∈ as, ∀ fuel acc ctx rest, 3 * (tokens b).length ≤ fuel →
      one (fuel + 1) acc ctx (tokens b ++ rest) = many fuel false (result b :: acc) ctx rest)
    {fuel : ℕ} (ctx : Context) (rest : List Token)
    (hfuel : 3 * (Text.joinLists [.flowEntry] (as.map tokens)).length + 3 ≤ fuel) :
    many fuel true [] ctx (Text.joinLists [.flowEntry] (as.map tokens) ++ closing :: rest) =
      .ok (as.map result, ctx, rest) := by
  obtain ⟨fuel, rfl⟩ : ∃ f, fuel = f + 1 := ⟨fuel - 1, by omega⟩
  cases as with
  | nil => exact hend fuel true [] ctx rest
  | cons a as =>
      have hstart : ∃ more, Text.joinLists [.flowEntry] ((a :: as).map tokens) ++
          closing :: rest = tokens a ++ more := by
        cases as with
        | nil => exact ⟨_, rfl⟩
        | cons b as => exact ⟨_, List.append_assoc _ _ _⟩
      have hloop := read_joinLists hend hcomma hone fuel [] ctx rest (by omega)
      obtain ⟨more, hmore⟩ := hstart
      rw [hmore] at hloop ⊢
      rw [hfirst a List.mem_cons_self, hloop]
      rfl

end Loop

theorem readFlowItem_of_reads {tokens : List Token} (h : Reads tokens node) {acc : List Node}
    (hfuel : 3 * tokens.length ≤ fuel) :
    readFlowItem (fuel + 1) acc ctx (tokens ++ rest) =
      readFlowItems fuel false (node :: acc) ctx rest := by
  obtain ⟨t, ts, rfl, ht⟩ := h.starts
  have hread := h.read fuel .flow ctx rest hfuel
  rw [List.cons_append] at hread ⊢
  rw [readFlowItem]
  · rw [hread]
  · rintro rest' he
    cases he
    cases ht
  · rintro rest' he
    cases he
    cases ht

theorem readFlowEntry_of_reads {tokens : List Token} (h : Reads tokens node) (name : String)
    {acc : List (Node × Node)} (hfuel : 3 * (tokens.length + 3) ≤ fuel) :
    readFlowEntry (fuel + 1) acc ctx
        (.key :: .scalar .doubleQuoted name :: .value :: (tokens ++ rest)) =
      readFlowEntries fuel false ((.scalar none .doubleQuoted name, node) :: acc) ctx rest := by
  obtain ⟨fuel, rfl⟩ : ∃ f, fuel = f + 2 := ⟨fuel - 2, by omega⟩
  have hname := (reads_scalar .doubleQuoted name).read (fuel + 1) .flow ctx
    (.value :: (tokens ++ rest)) (by simp; omega)
  obtain ⟨t, ts, rfl, ht⟩ := h.starts
  have hread := h.read fuel .flow ctx rest (by omega)
  have hvalue : readFlowValue (fuel + 2) ctx (.value :: (t :: ts ++ rest)) =
      .ok (node, ctx, rest) := by
    rw [readFlowValue, List.cons_append, readUnless_of_not_mem]
    · exact hread
    · rintro he
      simp only [List.mem_cons, List.not_mem_nil, or_false] at he
      rcases he with rfl | rfl <;> cases ht
  rw [readFlowEntry, readUnless_of_not_mem (by simp)]
  simp only [List.cons_append, List.nil_append] at hname hvalue ⊢
  rw [hname]
  dsimp only
  rw [hvalue]

theorem readFlowItems_of_startsNode (ht : startsNode t = true) {acc : List Node} :
    readFlowItems (fuel + 1) true acc ctx (t :: ts) = readFlowItem fuel acc ctx (t :: ts) := by
  rw [readFlowItems]
  · rfl
  · rintro rest' he
    cases he
    cases ht
  · rintro rest' he
    cases he
    cases ht

theorem readFlowItems_flowEntry (fuel : ℕ) (acc : List Node) (ctx : Context) (ts : List Token) :
    readFlowItems (fuel + 1) false acc ctx (.flowEntry :: ts) = readFlowItem fuel acc ctx ts := by
  rw [readFlowItems]
  rfl

theorem readFlowEntries_flowEntry (fuel : ℕ) (acc : List (Node × Node)) (ctx : Context)
    (ts : List Token) : readFlowEntries (fuel + 1) false acc ctx (.flowEntry :: ts) =
      readFlowEntry fuel acc ctx ts := by
  rw [readFlowEntries]
  rfl

theorem reads_sequence {items : List Value} (h : ∀ v ∈ items, Reads (tokensOf v) (nodeOf v)) :
    Reads (.flowSequenceStart ::
        (Text.joinLists [.flowEntry] (items.map tokensOf) ++ [.flowSequenceEnd]))
      (.sequence none (items.map nodeOf)) where
  starts := ⟨_, _, rfl, rfl⟩
  read := by
    intro fuel place ctx rest hfuel
    simp only [List.length_cons, List.length_append, List.length_nil] at hfuel
    obtain ⟨fuel, rfl⟩ : ∃ f, fuel = f + 2 := ⟨fuel - 2, by omega⟩
    have hitems : readFlowItems fuel true [] ctx (Text.joinLists [.flowEntry]
        (items.map tokensOf) ++ .flowSequenceEnd :: rest) = .ok (items.map nodeOf, ctx, rest) := by
      refine read_enclosed ?_ readFlowItems_flowEntry ?_ ?_ ctx rest (by omega)
      · intro fuel first acc ctx rest
        rw [readFlowItems]
      · intro v hv fuel ctx rest
        obtain ⟨t, ts, hts, ht⟩ := (h v hv).starts
        rw [hts]
        exact readFlowItems_of_startsNode ht
      · intro v hv fuel acc ctx rest hfuel
        exact readFlowItem_of_reads (h v hv) hfuel
    refine readNode_of_readContent rfl ?_
    rw [readContent]
    simp only [List.append_eq, List.append_assoc, List.singleton_append, hitems]
    rfl

theorem reads_mapping {members : List (String × Value)}
    (h : ∀ m ∈ members, Reads (tokensOf m.2) (nodeOf m.2)) :
    Reads (.flowMappingStart :: (Text.joinLists [.flowEntry] (members.map fun m =>
        .key :: .scalar .doubleQuoted m.1 :: .value :: tokensOf m.2) ++ [.flowMappingEnd]))
      (.mapping none (members.map fun m => (.scalar none .doubleQuoted m.1, nodeOf m.2))) where
  starts := ⟨_, _, rfl, rfl⟩
  read := by
    intro fuel place ctx rest hfuel
    simp only [List.length_cons, List.length_append, List.length_nil] at hfuel
    obtain ⟨fuel, rfl⟩ : ∃ f, fuel = f + 2 := ⟨fuel - 2, by omega⟩
    have hentries : readFlowEntries fuel true [] ctx (Text.joinLists [.flowEntry]
        (members.map fun m => .key :: .scalar .doubleQuoted m.1 :: .value :: tokensOf m.2) ++
          .flowMappingEnd :: rest) =
        .ok (members.map fun m => (.scalar none .doubleQuoted m.1, nodeOf m.2), ctx, rest) := by
      refine read_enclosed ?_ readFlowEntries_flowEntry ?_ ?_ ctx rest (by omega)
      · intro fuel first acc ctx rest
        rw [readFlowEntries]
      · intro m hm fuel ctx rest
        simp only [List.cons_append]
        rw [readFlowEntries]
        · rfl
        · rintro rest' he
          cases he
        · rintro rest' he
          cases he
      · intro m hm fuel acc ctx rest hfuel
        exact readFlowEntry_of_reads (h m hm) m.1 hfuel
    refine readNode_of_readContent rfl ?_
    rw [readContent]
    simp only [List.append_eq, List.append_assoc, List.singleton_append, hentries]
    rfl

/-- The tokens of a value are read as its node. -/
theorem reads_tokensOf {v : Value} (h : Simple v) : Reads (tokensOf v) (nodeOf v) := by
  induction h with
  | null =>
      rw [tokensOf, nodeOf]
      exact reads_scalar _ _
  | bool b =>
      rw [tokensOf, nodeOf]
      exact reads_scalar _ _
  | nat n =>
      rw [Value.nat, tokensOf, nodeOf]
      exact reads_scalar _ _
  | string _ =>
      rw [tokensOf, nodeOf]
      exact reads_scalar _ _
  | array _ ih =>
      rw [tokensOf, nodeOf]
      exact reads_sequence ih
  | object _ _ ih =>
      rw [tokensOf, nodeOf]
      exact reads_mapping ih

theorem ofTokens_of_reads {tokens : List Token} (h : Reads tokens node) :
    Document.ofTokens tokens = .ok { root := some node } := by
  have hread := h.read (fuelFor tokens) .block { handles := defaultHandles } []
    (by rw [fuelFor]; omega)
  obtain ⟨t, ts, rfl, ht⟩ := h.starts
  have hboundary : isBoundary t = false := by
    cases t <;> first | rfl | cases ht
  rw [List.append_nil] at hread
  rw [Document.ofTokens]
  simp only [hboundary, Bool.false_and, Bool.false_eq_true, ↓reduceIte, readRoot, hread]
  rfl

/-- The compact form of an object is a document, whose node has the structure of the object. -/
theorem parse_compact {members : List (String × Value)} (h : Simple (.object members)) :
    Document.parse (Value.object members).compact =
      .ok { root := some (nodeOf (.object members)) } := by
  rw [Document.parse, tokenize_compact h]
  exact ofTokens_of_reads (reads_tokensOf h)

end ResourceAgent.Yaml
