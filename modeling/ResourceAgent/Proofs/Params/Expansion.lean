import ResourceAgent.Proofs.Params.Reference
import ResourceAgent.Proofs.Text.Numeral

/-!
# Expansion is one pass

A text is divided at its references from the left: up to the first place where a reference starts,
then the reference, and on from its closing brace. There is one such division of every text, and
it does not depend on the environment. The expansion puts the values in the places of the
references and leaves everything else alone, so a value is never searched for references. If values
are missing, it tells the names that have none.
-/
namespace ResourceAgent.Params

/-- A dollar sign, an opening brace, a name that is not empty, and the first closing brace. -/
inductive StartsReference : List Char → Prop
  | intro {name after : List Char} : name ≠ [] → '\x7d' ∉ name →
      StartsReference ('$' :: '\x7b' :: (name ++ '\x7d' :: after))

/-- No reference starts in the first part of the text, though one may start right after it. -/
def Plain (literal rest : List Char) : Prop :=
  ∀ i < literal.length, ¬ StartsReference ((literal ++ rest).drop i)

/-- The division of a text: its references, each with the literal text before it, and the literal
text after the last one. -/
inductive Divided : List Char → List (List Char × String) → List Char → Prop
  | last {cs : List Char} : Plain cs [] → Divided cs [] cs
  | next {cs literal name after last : List Char} {references : List (List Char × String)} :
      cs = literal ++ '$' :: '\x7b' :: (name ++ '\x7d' :: after) → name ≠ [] → '\x7d' ∉ name →
      Plain literal ('$' :: '\x7b' :: (name ++ '\x7d' :: after)) →
      Divided after references last →
      Divided cs ((literal, String.ofList name) :: references) last

/-- The names that have no value, each once, in the order in which they occur first. -/
structure ListsUndefined (env : Environment) (names undefined : List String) : Prop where
  mem_iff : ∀ {name}, name ∈ undefined ↔ name ∈ names ∧ env name = none
  nodup : undefined.Nodup
  ordered : undefined.Pairwise fun a b => names.idxOf a < names.idxOf b

theorem referenceAt?_append {name : List Char} (hne : name ≠ []) (hclosing : '\x7d' ∉ name)
    (after : List Char) :
    referenceAt? ('\x7b' :: (name ++ '\x7d' :: after)) = some (name, after) := by
  have hpos : ∀ c ∈ name, decide (c ≠ '\x7d') = true :=
    fun c hc => decide_eq_true fun h => hclosing (h ▸ hc)
  have htake : (name ++ '\x7d' :: after).takeWhile (· ≠ '\x7d') = name := by
    rw [List.takeWhile_append_of_pos hpos]
    simp
  have hdrop : (name ++ '\x7d' :: after).dropWhile (· ≠ '\x7d') = '\x7d' :: after := by
    rw [List.dropWhile_append_of_pos hpos]
    simp
  simp only [referenceAt?, htake, hdrop]
  simp [hne]

theorem startsReference_iff {c : Char} {cs : List Char} :
    StartsReference (c :: cs) ↔ c = '$' ∧ ∃ name after, referenceAt? cs = some (name, after) := by
  constructor
  · rintro ⟨hne, hclosing⟩
    exact ⟨rfl, _, _, referenceAt?_append hne hclosing _⟩
  · rintro ⟨rfl, name, after, h⟩
    obtain ⟨rfl, hne, hclosing⟩ := referenceAt?_eq_some h
    exact ⟨hne, hclosing⟩

theorem not_startsReference_nil : ¬ StartsReference [] := nofun

instance : DecidablePred StartsReference
  | [] => isFalse not_startsReference_nil
  | c :: cs =>
      decidable_of_iff (c = '$' ∧ (referenceAt? cs).isSome = true)
        (by simp [startsReference_iff, Option.isSome_iff_exists])

instance (literal rest : List Char) : Decidable (Plain literal rest) :=
  inferInstanceAs (Decidable (∀ i < literal.length, ¬ StartsReference ((literal ++ rest).drop i)))

theorem plain_nil (rest : List Char) : Plain [] rest := nofun

theorem plain_cons_iff {c : Char} {literal rest : List Char} :
    Plain (c :: literal) rest ↔
      ¬ StartsReference (c :: (literal ++ rest)) ∧ Plain literal rest := by
  constructor
  · intro h
    exact ⟨h 0 (Nat.succ_pos _), fun i hi => h (i + 1) (Nat.succ_lt_succ hi)⟩
  · rintro ⟨h0, h⟩ i hi
    cases i with
    | zero => exact h0
    | succ i => exact h i (Nat.lt_of_succ_lt_succ hi)

/-- A character at which no reference starts belongs to the first literal text. -/
theorem Divided.cons {c : Char} {cs last : List Char} {references : List (List Char × String)}
    (hc : ¬ StartsReference (c :: cs)) (h : Divided cs references last) :
    ∃ references last, Divided (c :: cs) references last := by
  cases h with
  | last hplain =>
      refine ⟨[], c :: cs, .last (plain_cons_iff.mpr ⟨?_, hplain⟩)⟩
      rwa [List.append_nil]
  | next hcs hne hclosing hplain hafter =>
      rw [hcs] at hc
      exact ⟨_, _, .next (congrArg (c :: ·) hcs) hne hclosing (plain_cons_iff.mpr ⟨hc, hplain⟩)
        hafter⟩

theorem exists_divided (cs : List Char) : ∃ references last, Divided cs references last := by
  fun_induction pieces cs with
  | case1 => exact ⟨[], [], .last (plain_nil [])⟩
  | case2 r name after heq ih =>
      obtain ⟨references, last, h⟩ := ih
      obtain ⟨rfl, hne, hclosing⟩ := referenceAt?_eq_some heq
      exact ⟨_, _, .next rfl hne hclosing (plain_nil _) h⟩
  | case3 r heq ih =>
      obtain ⟨references, last, h⟩ := ih
      refine h.cons fun hs => ?_
      obtain ⟨-, name, after, hsome⟩ := startsReference_iff.mp hs
      cases heq.symm.trans hsome
  | case4 c r hc ih =>
      obtain ⟨references, last, h⟩ := ih
      exact h.cons fun hs => hc (startsReference_iff.mp hs).1

/-- A reference that follows a literal text does not start within another one. -/
theorem Plain.length_le {literal literal' name after rest : List Char} (h : Plain literal' rest)
    (hne : name ≠ []) (hclosing : '\x7d' ∉ name)
    (he : literal ++ '$' :: '\x7b' :: (name ++ '\x7d' :: after) = literal' ++ rest) :
    literal'.length ≤ literal.length := by
  by_contra hlt
  refine h literal.length (not_le.mp hlt) ?_
  rw [← he, List.drop_left]
  exact ⟨hne, hclosing⟩

theorem not_plain_of_reference {literal name after : List Char} (hne : name ≠ [])
    (hclosing : '\x7d' ∉ name) :
    ¬ Plain (literal ++ '$' :: '\x7b' :: (name ++ '\x7d' :: after)) [] := by
  intro h
  have hlength : (literal ++ '$' :: '\x7b' :: (name ++ '\x7d' :: after)).length ≤ literal.length :=
    h.length_le hne hclosing (List.append_nil _).symm
  simp only [List.length_append, List.length_cons] at hlength
  omega

theorem Divided.unique {cs last last' : List Char}
    {references references' : List (List Char × String)} (h : Divided cs references last)
    (h' : Divided cs references' last') : references' = references ∧ last' = last := by
  induction h generalizing references' last' with
  | last hplain =>
      cases h' with
      | last _ => exact ⟨rfl, rfl⟩
      | next hcs hne hclosing _ _ =>
          exact absurd (hcs ▸ hplain) (not_plain_of_reference hne hclosing)
  | next hcs hne hclosing hplain _ ih =>
      cases h' with
      | last hplain' =>
          exact absurd (hcs ▸ hplain') (not_plain_of_reference hne hclosing)
      | next hcs' hne' hclosing' hplain' hafter' =>
          have he := hcs.symm.trans hcs'
          have hlength := le_antisymm (hplain.length_le hne' hclosing' he.symm)
            (hplain'.length_le hne hclosing he)
          obtain ⟨rfl, hreference⟩ := List.append_inj he hlength
          simp only [List.cons.injEq, true_and] at hreference
          obtain ⟨rfl, rfl⟩ := Text.mark_append_inj hclosing hclosing' hreference
          obtain ⟨rfl, rfl⟩ := ih hafter'
          exact ⟨rfl, rfl⟩

theorem pieces_of_startsReference {name : List Char} (hne : name ≠ []) (hclosing : '\x7d' ∉ name)
    (after : List Char) : pieces ('$' :: '\x7b' :: (name ++ '\x7d' :: after)) =
      .reference (String.ofList name) :: pieces after := by
  rw [pieces, if_pos rfl]
  split
  · next name' after' heq =>
      cases (referenceAt?_append hne hclosing after).symm.trans heq
      rfl
  · next heq => cases (referenceAt?_append hne hclosing after).symm.trans heq

theorem pieces_of_not_startsReference {c : Char} {cs : List Char}
    (h : ¬ StartsReference (c :: cs)) : pieces (c :: cs) = .char c :: pieces cs := by
  rw [pieces]
  split_ifs with hc
  · split
    · next name after heq => exact absurd (startsReference_iff.mpr ⟨hc, name, after, heq⟩) h
    · rfl
  · rfl

theorem Plain.pieces_append {literal rest : List Char} (h : Plain literal rest) :
    pieces (literal ++ rest) = literal.map .char ++ pieces rest := by
  induction literal with
  | nil => rfl
  | cons c literal ih =>
      obtain ⟨hc, hplain⟩ := plain_cons_iff.mp h
      rw [List.cons_append, pieces_of_not_startsReference hc, ih hplain]
      rfl

theorem Divided.pieces_eq {cs last : List Char} {references : List (List Char × String)}
    (h : Divided cs references last) : pieces cs =
      references.flatMap (fun r => r.1.map .char ++ [.reference r.2]) ++ last.map .char := by
  induction h with
  | last hplain =>
      have hpieces := hplain.pieces_append
      rw [List.append_nil] at hpieces
      rw [hpieces]
      simp [pieces]
  | next hcs hne hclosing hplain hafter ih =>
      rw [hcs, hplain.pieces_append, pieces_of_startsReference hne hclosing, ih]
      simp

theorem referenced_append (ps qs : List Piece) :
    referenced (ps ++ qs) = referenced ps ++ referenced qs := by
  induction ps with
  | nil => rfl
  | cons p ps ih => cases p <;> simp [referenced, ih]

theorem Divided.referenced_eq {cs last : List Char} {references : List (List Char × String)}
    (h : Divided cs references last) : referenced (pieces cs) = references.map Prod.snd := by
  rw [h.pieces_eq, referenced_append, referenced_map_char, List.append_nil]
  clear h
  induction references with
  | nil => rfl
  | cons r references ih =>
      rw [List.flatMap_cons, referenced_append, referenced_append, referenced_map_char, ih]
      rfl

theorem Divided.flatMap_value {cs last : List Char} {references : List (List Char × String)}
    (h : Divided cs references last) {env : Environment} {values : String → String}
    (hv : ∀ name ∈ references.map Prod.snd, env name = some (values name)) :
    (pieces cs).flatMap (Piece.value env) =
      references.flatMap (fun r => r.1 ++ (values r.2).toList) ++ last := by
  rw [h.pieces_eq, List.flatMap_append, flatMap_value_map_char, List.flatMap_assoc]
  congr 1
  refine List.flatMap_congr fun r hr => ?_
  rw [List.flatMap_append, flatMap_value_map_char]
  simp [Piece.value, hv r.2 (List.mem_map_of_mem hr)]

theorem mem_firsts {s : String} {texts : List String} : s ∈ firsts texts ↔ s ∈ texts := by
  induction texts with
  | nil => rfl
  | cons t texts ih =>
      by_cases h : s = t
      · simp [firsts, h]
      · simp [firsts, h, ih]

theorem nodup_firsts (texts : List String) : (firsts texts).Nodup := by
  induction texts with
  | nil => exact List.nodup_nil
  | cons t texts ih => exact List.nodup_cons.mpr ⟨by simp, ih.filter _⟩

/-- Names that are picked from a list and told once are told in the order of the list. -/
theorem pairwise_firsts_filter (p : String → Bool) (names : List String) :
    (firsts (names.filter p)).Pairwise fun a b => names.idxOf a < names.idxOf b := by
  induction names with
  | nil => exact .nil
  | cons name names ih =>
      have hlater : ∀ {picked : List String}, (∀ a ∈ picked, a ≠ name) →
          picked.Pairwise (fun a b => names.idxOf a < names.idxOf b) →
          picked.Pairwise fun a b => (name :: names).idxOf a < (name :: names).idxOf b := by
        intro picked hne hpicked
        refine hpicked.imp_of_mem fun {a b} ha hb hab => ?_
        rw [List.idxOf_cons_ne _ (hne a ha).symm, List.idxOf_cons_ne _ (hne b hb).symm]
        exact Nat.succ_lt_succ hab
      by_cases hp : p name = true
      · rw [List.filter_cons_of_pos hp, firsts]
        refine List.pairwise_cons.mpr ⟨?_, hlater (by simp) (ih.filter _)⟩
        intro b hb
        have hne : name ≠ b := fun h => by simp [h] at hb
        rw [List.idxOf_cons_self, List.idxOf_cons_ne _ hne]
        exact Nat.succ_pos _
      · rw [List.filter_cons_of_neg hp]
        refine hlater ?_ ih
        rintro a ha rfl
        exact hp (List.mem_filter.mp (mem_firsts.mp ha)).2

theorem listsUndefined_firsts (env : Environment) (names : List String) :
    ListsUndefined env names (firsts (names.filter fun name => (env name).isNone)) where
  mem_iff := by simp [mem_firsts]
  nodup := nodup_firsts _
  ordered := pairwise_firsts_filter _ names

variable {text : String} {last : List Char} {references : List (List Char × String)}
  {env : Environment}

theorem Divided.expand_eq_ok (h : Divided text.toList references last) {values : String → String}
    (hv : ∀ name ∈ references.map Prod.snd, env name = some (values name)) :
    expand env text =
      .ok (String.ofList (references.flatMap (fun r => r.1 ++ (values r.2).toList) ++ last)) := by
  have hnone : (references.map Prod.snd).filter (fun name => (env name).isNone) = [] := by
    refine List.filter_eq_nil_iff.mpr fun name hn => ?_
    simp [hv name hn]
  simp only [expand, h.referenced_eq, hnone, firsts, h.flatMap_value hv]

theorem Divided.expand_eq_error (h : Divided text.toList references last)
    (hn : ∃ name ∈ references.map Prod.snd, env name = none) :
    expand env text = .error
      (firsts ((references.map Prod.snd).filter fun name => (env name).isNone)) := by
  simp only [expand, h.referenced_eq]
  split
  · next hnil =>
      obtain ⟨name, hname, hundefined⟩ := hn
      have hmem := (listsUndefined_firsts env (references.map Prod.snd)).mem_iff.mpr
        ⟨hname, hundefined⟩
      rw [hnil] at hmem
      cases hmem
  · rfl

/-- Every text has one division, and it alone decides what becomes of the text: the values are put
in the places of the references, all at once, or the names without a value are told. -/
theorem expand_simultaneous (text : String) :
    ∃ references last, Divided text.toList references last ∧
      (∀ {references' last'}, Divided text.toList references' last' →
        references' = references ∧ last' = last) ∧
      ∀ env : Environment,
        (∀ values : String → String,
          (∀ name ∈ references.map Prod.snd, env name = some (values name)) →
          expand env text = .ok (String.ofList
            (references.flatMap (fun r => r.1 ++ (values r.2).toList) ++ last))) ∧
        ((∃ name ∈ references.map Prod.snd, env name = none) →
          ∃ undefined, ListsUndefined env (references.map Prod.snd) undefined ∧
            expand env text = .error undefined ∧
            load env text = .error (.config
              ("Missing environment variables: " ++ Text.join ", " undefined))) ∧
        ∀ env' : Environment, (∀ name ∈ references.map Prod.snd, env' name = env name) →
          load env' text = load env text := by
  obtain ⟨references, last, h⟩ := exists_divided text.toList
  refine ⟨references, last, h, h.unique, fun env => ⟨fun values => h.expand_eq_ok, ?_, ?_⟩⟩
  · intro hn
    have he := h.expand_eq_error hn
    refine ⟨_, listsUndefined_firsts env _, he, ?_⟩
    rw [load, he]
    rfl
  · intro env' hagree
    exact load_congr (h.referenced_eq ▸ hagree)

/-- Braces that are part of a name, braces that are no reference, and a value that looks like a
reference. -/
theorem expand_simultaneous_nested :
    let text := "$$\x7bA\x7d$\x7b\x7dx\x7d$\x7ba$\x7bb\x7d"
    let name := "a$\x7bb"
    let env := Environment.ofList [("A", "$\x7ba$\x7bb\x7d"), (name, "!")]
    Divided text.toList [(['$'], "A"), ("$\x7b\x7dx\x7d".toList, name)] [] ∧
      expand env text = .ok "$$\x7ba$\x7bb\x7d$\x7b\x7dx\x7d!" ∧
      load (Environment.ofList [("A", "")]) text =
        .error (.config ("Missing environment variables: " ++ name)) ∧
      load (Environment.ofList [("b", "?"), ("A", "$\x7ba$\x7bb\x7d"), (name, "!")]) text =
        load env text := by
  intro text name env
  have hlater : Divided "$\x7b\x7dx\x7d$\x7ba$\x7bb\x7d".toList
      [("$\x7b\x7dx\x7d".toList, name)] [] :=
    @Divided.next _ _ ['a', '$', '\x7b', 'b'] [] _ _ (by decide) (by decide) (by decide) (by decide)
      (.last (plain_nil []))
  have hd : Divided text.toList [(['$'], "A"), ("$\x7b\x7dx\x7d".toList, name)] [] :=
    @Divided.next _ _ ['A'] _ _ _ (by decide) (by decide) (by decide) (by decide) hlater
  obtain ⟨references, last, -, hunique, h⟩ := expand_simultaneous text
  obtain ⟨rfl, rfl⟩ := hunique hd
  refine ⟨hd, ?_, ?_, ?_⟩
  · have hok := (h env).1 (fun name => if name = "A" then "$\x7ba$\x7bb\x7d" else "!") (by decide)
    rw [hok]
    decide
  · obtain ⟨undefined, -, he, hload⟩ := (h (Environment.ofList [("A", "")])).2.1
      ⟨name, by decide, by decide⟩
    have hundefined : expand (Environment.ofList [("A", "")]) text = .error [name] := by
      decide +kernel
    cases he.symm.trans hundefined
    rw [hload]
    decide
  · exact (h env).2.2 _ (by decide)

end ResourceAgent.Params
