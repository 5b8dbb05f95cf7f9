import Mathlib.Data.List.Forall2
import ResourceAgent.Pcs.Command
import ResourceAgent.Proofs.Params.Validation
import ResourceAgent.Proofs.Text.Numeral
import ResourceAgent.Proofs.Text.Words

/-!
# Argument vectors tell the definition

After the name and the agent the arguments of a creation are the option words and then a row of
parts, in a fixed order. Each part is left out or starts with a keyword of its own, and where it
ends is known beforehand or told by the next keyword, as long as no option word is a keyword. So
two creations with equal arguments agree in every part. The group may look like a keyword, because
it is a single argument. Of an update the same holds for the parts that it has.
-/
namespace ResourceAgent

namespace Pcs

/-- The keywords of the parts, in the order of the parts. -/
def keywords : List String :=
  ["op", "meta", "clone", "promotable", "--group", "--disabled", "--agent-validation"]

/-- No word of these texts is a keyword. -/
def FreeOfKeywords (texts : List (Option String)) : Prop :=
  ∀ text ∈ texts, ∀ word ∈ optionWords text, word ∉ keywords

instance (texts : List (Option String)) : Decidable (FreeOfKeywords texts) :=
  inferInstanceAs (Decidable (∀ text ∈ texts, ∀ word ∈ optionWords text, word ∉ keywords))

/-- The text without its outer blanks, empty if there is no text. -/
def stripped (text : Option String) : String := Text.trimmed (text.getD "")

/-- An argument that is read back from a line of arguments as it is. -/
def IsWord (arg : String) : Prop := arg ≠ "" ∧ Text.hasBlank arg = false

theorem optionWords_eq_nil_iff (text : Option String) :
    optionWords text = [] ↔ stripped text = "" := by
  cases text with
  | none => exact ⟨fun _ => rfl, fun _ => rfl⟩
  | some s => simp [optionWords, stripped, Text.wordsOf, Text.words_eq_nil_iff, Text.trimmed]

theorem nonBlank_eq (text : Option String) :
    nonBlank text = if stripped text = "" then none else some (stripped text) := by
  cases text with
  | none => rfl
  | some s => by_cases h : Text.trimmed s = "" <;> simp [nonBlank, stripped, Option.filter, h]

theorem wordsOf_stripped (text : Option String) :
    Text.wordsOf (stripped text) = optionWords text := by
  cases text with
  | none => simp [stripped, optionWords, Text.wordsOf, Text.trimmed, Text.words_trim]
  | some s => simp [stripped, optionWords, Text.wordsOf, Text.trimmed, Text.words_trim]

theorem isWord_of_mem_optionWords {text : Option String} {word : String}
    (h : word ∈ optionWords text) : IsWord word := by
  cases text with
  | none => cases h
  | some s =>
      obtain ⟨cs, hcs, rfl⟩ := List.mem_map.mp h
      obtain ⟨hne, hblank⟩ := Text.ne_nil_and_not_isBlank_of_mem_words hcs
      refine ⟨fun he => hne (String.ofList_injective he), ?_⟩
      simpa [Text.hasBlank] using hblank

/-- A part of an argument vector: what stands after its keyword, unless it is left out. -/
structure Part where
  keyword : String
  content : Option (List String)

namespace Part

def args (part : Part) : List String :=
  match part.content with
  | none => []
  | some content => part.keyword :: content

/-- The words of a field. -/
def words (keyword : String) (text : Option String) : Part :=
  ⟨keyword, if optionWords text = [] then none else some (optionWords text)⟩

def group (group : Option String) : Part :=
  ⟨"--group", if stripped group = "" then none else some [stripped group]⟩

def flag (flag : String) (passed : Bool) : Part := ⟨flag, if passed then some [] else none⟩

theorem args_words (keyword : String) (text : Option String) :
    (words keyword text).args = keywordSection keyword text := by
  rw [keywordSection, nonBlank_eq, words, args]
  simp only [optionWords_eq_nil_iff]
  split_ifs
  · rfl
  · exact congrArg (keyword :: ·) (wordsOf_stripped text).symm

theorem args_group (name : Option String) : (group name).args = groupArgs name := by
  rw [groupArgs, nonBlank_eq, group, args]
  split_ifs <;> rfl

theorem args_flag (name : String) (passed : Bool) :
    (flag name passed).args = flagArg name passed := by
  cases passed <;> rfl

@[simp] theorem words_inj {keyword : String} {text text' : Option String} :
    words keyword text = words keyword text' ↔ optionWords text = optionWords text' := by
  constructor
  · intro h
    have hc := congrArg Part.content h
    simp only [words] at hc
    split_ifs at hc with h₁ h₂ h₂
    · exact h₁.trans h₂.symm
    · exact Option.some.inj hc
  · intro h
    rw [words, words, h]

@[simp] theorem group_inj {name name' : Option String} :
    group name = group name' ↔ stripped name = stripped name' := by
  constructor
  · intro h
    have hc := congrArg Part.content h
    simp only [group] at hc
    split_ifs at hc with h₁ h₂ h₂
    · exact h₁.trans h₂.symm
    · exact List.head_eq_of_cons_eq (Option.some.inj hc)
  · intro h
    rw [group, group, h]

@[simp] theorem flag_inj {name : String} {passed passed' : Bool} :
    flag name passed = flag name passed' ↔ passed = passed' := by
  cases passed <;> cases passed' <;> simp [flag]

/-- The contents, if both are there, end at the same place. -/
def Delimited (part part' : Part) : Prop :=
  ∀ c ∈ part.content, ∀ d ∈ part'.content,
    c.length = d.length ∨ (∀ arg ∈ c, arg ∉ keywords) ∧ ∀ arg ∈ d, arg ∉ keywords

theorem delimited_words {keyword : String} {text text' : Option String}
    (h : FreeOfKeywords [text]) (h' : FreeOfKeywords [text']) :
    (words keyword text).Delimited (words keyword text') := by
  have hcontent : ∀ {text}, FreeOfKeywords [text] →
      ∀ c ∈ (words keyword text).content, ∀ arg ∈ c, arg ∉ keywords := by
    intro text hf c hc
    rw [words] at hc
    split_ifs at hc
    · cases hc
    · cases hc
      exact hf text List.mem_cons_self
  exact fun c hc d hd => .inr ⟨hcontent h c hc, hcontent h' d hd⟩

theorem delimited_group (name name' : Option String) : (group name).Delimited (group name') := by
  have hlength : ∀ name, ∀ c ∈ (group name).content, c.length = 1 := by
    intro name c hc
    rw [group] at hc
    split_ifs at hc
    · cases hc
    · cases hc
      rfl
  exact fun c hc d hd => .inl ((hlength name c hc).trans (hlength name' d hd).symm)

theorem delimited_flag (name : String) (passed passed' : Bool) :
    (flag name passed).Delimited (flag name passed') := by
  have hlength : ∀ passed, ∀ c ∈ (flag name passed).content, c = [] := by
    intro passed c hc
    cases passed
    · cases hc
    · cases hc
      rfl
  exact fun c hc d hd => .inl (by rw [hlength passed c hc, hlength passed' d hd])

end Part

theorem mem_keywords_of_head {parts : List Part} :
    ∀ arg ∈ (parts.flatMap Part.args).head?, arg ∈ parts.map Part.keyword := by
  induction parts with
  | nil => nofun
  | cons part parts ih =>
      obtain ⟨keyword, content⟩ := part
      cases content with
      | none => exact fun arg ha => List.mem_cons_of_mem _ (ih arg ha)
      | some content =>
          rintro arg ⟨⟩
          exact List.mem_cons_self

/-- Words that are no keywords end where a row of parts starts. -/
theorem append_parts_inj {ws ws' : List String} {parts parts' : List Part}
    (h : ∀ word ∈ ws, word ∉ keywords) (h' : ∀ word ∈ ws', word ∉ keywords)
    (hk : parts.map Part.keyword ⊆ keywords) (hk' : parts'.map Part.keyword ⊆ keywords)
    (he : ws ++ parts.flatMap Part.args = ws' ++ parts'.flatMap Part.args) :
    ws = ws' ∧ parts.flatMap Part.args = parts'.flatMap Part.args := by
  have hstop : ∀ {parts : List Part}, parts.map Part.keyword ⊆ keywords →
      ∀ arg ∈ (parts.flatMap Part.args).head?, decide (arg ∉ keywords) = false :=
    fun hk arg ha => decide_eq_false (not_not_intro (hk (mem_keywords_of_head arg ha)))
  exact Text.run_append_inj (fun word hm => decide_eq_true (h word hm))
    (fun word hm => decide_eq_true (h' word hm)) (hstop hk) (hstop hk') he

/-- A keyword that does not follow tells whether its part is left out. -/
theorem ne_cons_of_not_mem {parts : List Part} {keyword : String} {args : List String}
    (h : keyword ∉ parts.map Part.keyword) : parts.flatMap Part.args ≠ keyword :: args := by
  intro he
  exact h (mem_keywords_of_head keyword (by simp [he]))

/-- The parts of two rows correspond: they have the same keyword, and end at the same place. -/
def Correspond (parts parts' : List Part) : Prop :=
  List.Forall₂ (fun p q => p.keyword = q.keyword ∧ p.Delimited q) parts parts'

theorem Correspond.keywords_eq {parts parts' : List Part} (h : Correspond parts parts') :
    parts.map Part.keyword = parts'.map Part.keyword := by
  induction h with
  | nil => rfl
  | cons h _ ih => rw [List.map_cons, List.map_cons, h.1, ih]

/-- A row of parts with distinct keywords is told by its arguments. -/
theorem parts_inj {parts parts' : List Part} (h : Correspond parts parts')
    (hsub : parts.map Part.keyword ⊆ keywords) (hnodup : (parts.map Part.keyword).Nodup)
    (he : parts.flatMap Part.args = parts'.flatMap Part.args) : parts = parts' := by
  induction h with
  | nil => rfl
  | @cons p q rest rest' hpq hrest ih =>
      obtain ⟨keyword, content⟩ := p
      obtain ⟨keyword', content'⟩ := q
      obtain ⟨rfl, hdelimited⟩ := hpq
      obtain ⟨hfresh, hdistinct⟩ := List.nodup_cons.mp hnodup
      have hrest' : rest.map Part.keyword ⊆ keywords := (List.cons_subset.mp hsub).2
      have hkeys : rest.map Part.keyword = rest'.map Part.keyword := Correspond.keywords_eq hrest
      rw [List.flatMap_cons, List.flatMap_cons] at he
      match content, content' with
      | none, none => rw [ih hrest' hdistinct he]
      | none, some d => exact absurd he (ne_cons_of_not_mem hfresh)
      | some c, none => exact absurd he.symm (ne_cons_of_not_mem (hkeys ▸ hfresh))
      | some c, some d =>
          have hcontent := (List.cons.inj he).2
          obtain ⟨rfl, hrow⟩ : c = d ∧ rest.flatMap Part.args = rest'.flatMap Part.args := by
            rcases hdelimited c rfl d rfl with hlength | ⟨hc, hd⟩
            · exact List.append_inj hcontent hlength
            · exact append_parts_inj hc hd hrest' (hkeys ▸ hrest') hcontent
          rw [ih hrest' hdistinct hrow]

/-- The texts of a definition that are passed word by word. -/
def optionTexts (spec : ResourceSpec) : List (Option String) :=
  [spec.resourceOptions, spec.operations, spec.metaOptions, spec.cloneOptions,
    spec.promotableOptions]

/-- Those of them that an update passes. -/
def updateTexts (spec : ResourceSpec) : List (Option String) :=
  [spec.resourceOptions, spec.operations, spec.metaOptions]

def createParts (spec : ResourceSpec) : List Part :=
  [.words "op" spec.operations, .words "meta" spec.metaOptions, .words "clone" spec.cloneOptions,
    .words "promotable" spec.promotableOptions, .group spec.group,
    .flag "--disabled" spec.disabled, .flag "--agent-validation" spec.agentValidation]

def updateParts (spec : ResourceSpec) : List Part :=
  [.words "op" spec.operations, .words "meta" spec.metaOptions,
    .flag "--agent-validation" spec.agentValidation]

theorem args_create (name : String) (spec : ResourceSpec) : (Command.create name spec).args =
    ["resource", "create", name, spec.agent] ++
      (optionWords spec.resourceOptions ++ (createParts spec).flatMap Part.args) := by
  simp [Command.args, createParts, Part.args_words, Part.args_group, Part.args_flag]

theorem args_update (name : String) (spec : ResourceSpec) : (Command.update name spec).args =
    ["resource", "update", name] ++
      (optionWords spec.resourceOptions ++ (updateParts spec).flatMap Part.args) := by
  simp [Command.args, updateParts, Part.args_words, Part.args_flag]

theorem FreeOfKeywords.of_mem {texts : List (Option String)} {text : Option String}
    (h : FreeOfKeywords texts) (hm : text ∈ texts) : FreeOfKeywords [text] := by
  intro text' hm'
  rw [List.mem_singleton.mp hm']
  exact h text hm

variable {spec spec' : ResourceSpec} {name name' : String}

theorem correspond_createParts (h : FreeOfKeywords (optionTexts spec))
    (h' : FreeOfKeywords (optionTexts spec')) :
    Correspond (createParts spec) (createParts spec') := by
  have hwords : ∀ keyword {text text'}, text ∈ optionTexts spec → text' ∈ optionTexts spec' →
      (Part.words keyword text).Delimited (Part.words keyword text') :=
    fun keyword _ _ hm hm' => Part.delimited_words (h.of_mem hm) (h'.of_mem hm')
  refine .cons ⟨rfl, hwords _ ?_ ?_⟩ (.cons ⟨rfl, hwords _ ?_ ?_⟩ (.cons ⟨rfl, hwords _ ?_ ?_⟩
    (.cons ⟨rfl, hwords _ ?_ ?_⟩ (.cons ⟨rfl, Part.delimited_group _ _⟩
      (.cons ⟨rfl, Part.delimited_flag _ _ _⟩ (.cons ⟨rfl, Part.delimited_flag _ _ _⟩ .nil))))))
  all_goals simp [optionTexts]

theorem correspond_updateParts (h : FreeOfKeywords (updateTexts spec))
    (h' : FreeOfKeywords (updateTexts spec')) :
    Correspond (updateParts spec) (updateParts spec') := by
  have hwords : ∀ keyword {text text'}, text ∈ updateTexts spec → text' ∈ updateTexts spec' →
      (Part.words keyword text).Delimited (Part.words keyword text') :=
    fun keyword _ _ hm hm' => Part.delimited_words (h.of_mem hm) (h'.of_mem hm')
  refine .cons ⟨rfl, hwords _ ?_ ?_⟩ (.cons ⟨rfl, hwords _ ?_ ?_⟩
    (.cons ⟨rfl, Part.delimited_flag _ _ _⟩ .nil))
  all_goals simp [updateTexts]

/-- Option words and a row of parts after them are told by the arguments. -/
theorem options_parts_inj {text text' : Option String} {parts parts' : List Part}
    (ht : FreeOfKeywords [text]) (ht' : FreeOfKeywords [text']) (h : Correspond parts parts')
    (hsub : parts.map Part.keyword ⊆ keywords) (hnodup : (parts.map Part.keyword).Nodup)
    (he : optionWords text ++ parts.flatMap Part.args =
      optionWords text' ++ parts'.flatMap Part.args) :
    optionWords text = optionWords text' ∧ parts = parts' := by
  obtain ⟨hwords, hparts⟩ := append_parts_inj (ht text List.mem_cons_self)
    (ht' text' List.mem_cons_self) hsub (h.keywords_eq ▸ hsub) he
  exact ⟨hwords, parts_inj h hsub hnodup hparts⟩

/-- The parts of the agent are told by its first two colons; more of them belong to the type. -/
theorem agent_inj (h : spec.validate = .ok ()) (h' : spec'.validate = .ok ())
    (he : spec.agent = spec'.agent) :
    spec.standard = spec'.standard ∧ spec.provider = spec'.provider ∧ spec.type = spec'.type := by
  have hlist : ∀ spec : ResourceSpec, spec.agent.toList =
      spec.standard.toList ++ ':' :: (spec.provider.toList ++ ':' :: spec.type.toList) := by
    intro spec
    simp [ResourceSpec.agent, String.toList_append]
  have hchars := congrArg String.toList he
  rw [hlist, hlist] at hchars
  have hs := ResourceSpec.validate_eq_ok_iff.mp h
  have hs' := ResourceSpec.validate_eq_ok_iff.mp h'
  obtain ⟨hstandard, hrest⟩ := Text.mark_append_inj hs.colon_not_mem_standard
    hs'.colon_not_mem_standard hchars
  obtain ⟨hprovider, htype⟩ := Text.mark_append_inj hs.colon_not_mem_provider
    hs'.colon_not_mem_provider hrest
  exact ⟨String.toList_injective hstandard, String.toList_injective hprovider,
    String.toList_injective htype⟩

/-- The definitions agree in everything that an update passes. -/
structure UpdateAlike (spec spec' : ResourceSpec) : Prop where
  resourceOptions : optionWords spec.resourceOptions = optionWords spec'.resourceOptions
  operations : optionWords spec.operations = optionWords spec'.operations
  metaOptions : optionWords spec.metaOptions = optionWords spec'.metaOptions
  agentValidation : spec.agentValidation = spec'.agentValidation

/-- The definitions agree in everything that a creation passes. -/
structure CreateAlike (spec spec' : ResourceSpec) : Prop extends UpdateAlike spec spec' where
  standard : spec.standard = spec'.standard
  provider : spec.provider = spec'.provider
  type : spec.type = spec'.type
  cloneOptions : optionWords spec.cloneOptions = optionWords spec'.cloneOptions
  promotableOptions : optionWords spec.promotableOptions = optionWords spec'.promotableOptions
  group : stripped spec.group = stripped spec'.group
  disabled : spec.disabled = spec'.disabled

theorem args_create_eq_iff (hv : spec.validate = .ok ()) (hv' : spec'.validate = .ok ())
    (hf : FreeOfKeywords (optionTexts spec)) (hf' : FreeOfKeywords (optionTexts spec')) :
    (Command.create name spec).args = (Command.create name' spec').args ↔
      name = name' ∧ CreateAlike spec spec' := by
  rw [args_create, args_create]
  constructor
  · intro he
    simp only [List.cons_append, List.nil_append, List.cons.injEq, true_and] at he
    obtain ⟨hname, hagent, he⟩ := he
    obtain ⟨hstandard, hprovider, htype⟩ := agent_inj hv hv' hagent
    obtain ⟨hoptions, hparts⟩ := options_parts_inj (hf.of_mem List.mem_cons_self)
      (hf'.of_mem List.mem_cons_self) (correspond_createParts hf hf') (List.Subset.refl keywords)
      (by decide : keywords.Nodup) he
    simp only [createParts, List.cons.injEq, Part.words_inj, Part.group_inj, Part.flag_inj,
      and_true] at hparts
    obtain ⟨hop, hmeta, hclone, hpromotable, hgroup, hdisabled, hvalidation⟩ := hparts
    exact ⟨hname, ⟨⟨hoptions, hop, hmeta, hvalidation⟩, hstandard, hprovider, htype, hclone,
      hpromotable, hgroup, hdisabled⟩⟩
  · rintro ⟨rfl, h⟩
    have hparts : createParts spec = createParts spec' := by
      simp [createParts, h.operations, h.metaOptions, h.cloneOptions, h.promotableOptions,
        h.group, h.disabled, h.agentValidation]
    have hagent : spec.agent = spec'.agent := by
      rw [ResourceSpec.agent, h.standard, h.provider, h.type, ResourceSpec.agent]
    rw [hparts, hagent, h.resourceOptions]

theorem args_update_eq_iff (hf : FreeOfKeywords (updateTexts spec))
    (hf' : FreeOfKeywords (updateTexts spec')) :
    (Command.update name spec).args = (Command.update name' spec').args ↔
      name = name' ∧ UpdateAlike spec spec' := by
  rw [args_update, args_update]
  constructor
  · intro he
    simp only [List.cons_append, List.nil_append, List.cons.injEq, true_and] at he
    obtain ⟨hname, he⟩ := he
    obtain ⟨hoptions, hparts⟩ := options_parts_inj (hf.of_mem List.mem_cons_self)
      (hf'.of_mem List.mem_cons_self) (correspond_updateParts hf hf')
      (by decide : ["op", "meta", "--agent-validation"] ⊆ keywords)
      (by decide : ["op", "meta", "--agent-validation"].Nodup) he
    simp only [updateParts, List.cons.injEq, Part.words_inj, Part.flag_inj, and_true] at hparts
    exact ⟨hname, ⟨hoptions, hparts.1, hparts.2.1, hparts.2.2⟩⟩
  · rintro ⟨rfl, h⟩
    have hparts : updateParts spec = updateParts spec' := by
      simp [updateParts, h.operations, h.metaOptions, h.agentValidation]
    rw [hparts, h.resourceOptions]

theorem isWord_of_mem_keywords {keyword : String} (h : keyword ∈ keywords) : IsWord keyword := by
  have hall : ∀ keyword ∈ keywords, keyword ≠ "" ∧ Text.hasBlank keyword = false := by
    decide +kernel
  exact hall keyword h

/-- Every argument of the part is a word. -/
def Part.OfWords (part : Part) : Prop := ∀ arg ∈ part.args, IsWord arg

theorem Part.ofWords_words {keyword : String} (h : keyword ∈ keywords) (text : Option String) :
    (Part.words keyword text).OfWords := by
  intro arg ha
  rw [words, args] at ha
  split_ifs at ha
  · cases ha
  · rcases List.mem_cons.mp ha with rfl | ha
    · exact isWord_of_mem_keywords h
    · exact isWord_of_mem_optionWords ha

theorem Part.ofWords_flag {name : String} (h : name ∈ keywords) (passed : Bool) :
    (Part.flag name passed).OfWords := by
  intro arg ha
  cases passed with
  | false => cases ha
  | true =>
      rw [List.mem_singleton.mp ha]
      exact isWord_of_mem_keywords h

theorem isWord_of_mem_flatMap {parts : List Part} (h : ∀ part ∈ parts, part.OfWords) {arg : String}
    (ha : arg ∈ parts.flatMap Part.args) : IsWord arg := by
  obtain ⟨part, hpart, ha⟩ := List.mem_flatMap.mp ha
  exact h part hpart arg ha

/-- The arguments are words, except for the group right after its keyword. -/
def WordsButGroup (group : String) (args : List String) : Prop :=
  ∃ before after, (∀ arg ∈ before ++ after, IsWord arg) ∧
    (args = before ++ after ∨ args = before ++ "--group" :: group :: after)

theorem wordsButGroup_create (spec : ResourceSpec) : WordsButGroup (stripped spec.group)
    (optionWords spec.resourceOptions ++ (createParts spec).flatMap Part.args) := by
  let before := optionWords spec.resourceOptions ++ ((createParts spec).take 4).flatMap Part.args
  let after := ((createParts spec).drop 5).flatMap Part.args
  have hsplit : optionWords spec.resourceOptions ++ (createParts spec).flatMap Part.args =
      before ++ ((Part.group spec.group).args ++ after) := by
    simp [before, after, createParts]
  have hbefore : ∀ part ∈ (createParts spec).take 4, part.OfWords := by
    simp only [createParts, List.take_succ_cons, List.take_zero, List.forall_mem_cons]
    exact ⟨Part.ofWords_words (by decide) _, Part.ofWords_words (by decide) _,
      Part.ofWords_words (by decide) _, Part.ofWords_words (by decide) _, nofun⟩
  have hafter : ∀ part ∈ (createParts spec).drop 5, part.OfWords := by
    simp only [createParts, List.drop_succ_cons, List.drop_zero, List.forall_mem_cons]
    exact ⟨Part.ofWords_flag (by decide) _, Part.ofWords_flag (by decide) _, nofun⟩
  refine ⟨before, after, ?_, ?_⟩
  · refine List.forall_mem_append.mpr ⟨List.forall_mem_append.mpr ⟨?_, ?_⟩, ?_⟩
    · exact fun arg => isWord_of_mem_optionWords
    · exact fun arg => isWord_of_mem_flatMap hbefore
    · exact fun arg => isWord_of_mem_flatMap hafter
  · rw [hsplit, Part.args_group, groupArgs, nonBlank_eq]
    split_ifs
    · exact .inl rfl
    · exact .inr rfl

theorem isWord_update (spec : ResourceSpec) :
    ∀ arg ∈ optionWords spec.resourceOptions ++ (updateParts spec).flatMap Part.args,
      IsWord arg := by
  have hparts : ∀ part ∈ updateParts spec, part.OfWords := by
    simp only [updateParts, List.forall_mem_cons]
    exact ⟨Part.ofWords_words (by decide) _, Part.ofWords_words (by decide) _,
      Part.ofWords_flag (by decide) _, nofun⟩
  exact List.forall_mem_append.mpr
    ⟨fun arg => isWord_of_mem_optionWords, fun arg => isWord_of_mem_flatMap hparts⟩

/-- Creations and updates pass everything that they should: their arguments are equal only if the
definitions agree. All of these arguments are words, so none is lost in a line of arguments, except
that the group is passed as it is. -/
theorem args_lose_nothing :
    (∀ {name name' : String} {spec spec' : ResourceSpec},
      spec.validate = .ok () → spec'.validate = .ok () →
      FreeOfKeywords (optionTexts spec) → FreeOfKeywords (optionTexts spec') →
      ((Command.create name spec).args = (Command.create name' spec').args ↔
        name = name' ∧ CreateAlike spec spec')) ∧
    (∀ {name name' : String} {spec spec' : ResourceSpec},
      FreeOfKeywords (updateTexts spec) → FreeOfKeywords (updateTexts spec') →
      ((Command.update name spec).args = (Command.update name' spec').args ↔
        name = name' ∧ UpdateAlike spec spec')) ∧
    ∀ (name : String) (spec : ResourceSpec),
      (∃ args, (Command.create name spec).args =
        ["resource", "create", name, spec.agent] ++ args ∧
          WordsButGroup (stripped spec.group) args) ∧
      ∃ args, (Command.update name spec).args = ["resource", "update", name] ++ args ∧
        ∀ arg ∈ args, IsWord arg :=
  ⟨args_create_eq_iff, args_update_eq_iff, fun name spec =>
    ⟨⟨_, args_create name spec, wordsButGroup_create spec⟩,
      ⟨_, args_update name spec, isWord_update spec⟩⟩⟩

/-- A group that looks like a flag, a type with a colon, and blanks that are of no consequence. -/
theorem args_lose_nothing_group :
    let spec : ResourceSpec :=
      { type := "a:b", operations := some " monitor  interval=10s", cloneOptions := some " ",
        group := some " --disabled ", agentValidation := true }
    let spec' : ResourceSpec :=
      { type := "a:b", operations := some "monitor interval=10s", group := some "--disabled",
        agentValidation := true }
    spec.validate = .ok () ∧ spec'.validate = .ok () ∧ FreeOfKeywords (optionTexts spec) ∧
      FreeOfKeywords (optionTexts spec') ∧ CreateAlike spec spec' ∧ UpdateAlike spec spec' ∧
      (Command.create "db" spec').args = ["resource", "create", "db", "ocf:heartbeat:a:b", "op",
        "monitor", "interval=10s", "--group", "--disabled", "--agent-validation"] := by
  intro spec spec'
  have hv : spec.validate = .ok () := by decide +kernel
  have hv' : spec'.validate = .ok () := by decide +kernel
  have hf : FreeOfKeywords (optionTexts spec) := by decide +kernel
  have hf' : FreeOfKeywords (optionTexts spec') := by decide +kernel
  have hu : FreeOfKeywords (updateTexts spec) := by decide +kernel
  have hu' : FreeOfKeywords (updateTexts spec') := by decide +kernel
  obtain ⟨hcreate, hupdate, -⟩ := args_lose_nothing
  have hc : (Command.create "db" spec).args = (Command.create "db" spec').args := by
    decide +kernel
  have hup : (Command.update "db" spec).args = (Command.update "db" spec').args := by
    decide +kernel
  exact ⟨hv, hv', hf, hf', ((hcreate hv hv' hf hf').mp hc).2, ((hupdate hu hu').mp hup).2,
    by decide +kernel⟩

end Pcs

end ResourceAgent
