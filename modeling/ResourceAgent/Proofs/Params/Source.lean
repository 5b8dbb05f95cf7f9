import Mathlib.Data.List.Forall2
import Mathlib.Data.List.Perm.Basic
import ResourceAgent.Params.Json

/-!
# What decoding depends on

A field is decoded from the values that its names have in the record. The order of the members and
members of other names are of no consequence, whether the decoding succeeds or fails. A source in
which every JSON value has a representation gives parameters back from the representation of their
JSON form.
-/
namespace ResourceAgent

open Json (Value)

/-- The names of each field of a definition. -/
def ResourceSpec.fieldNames : List (List String) :=
  [["standard"], ["provider"], ["type"], ["operations"], ["meta"], ["clone"], ["promotable"],
    ["group"], ["disabled"], ["agent_validation"], ["resource_options", "options"]]

/-- The names of each field of the parameters. -/
def Params.fieldNames : List (List String) :=
  [["name"], ["state"], ["node"], ["timeout"], ["force"], ["resources"]]

/-- The values that the members of the given names have. -/
def given {ν : Type} (names : List String) (members : List (String × ν)) : List ν :=
  (members.filter fun member => names.contains member.1).map Prod.snd

section Given

variable {ν : Type} {names : List String}

theorem given_append (members members' : List (String × ν)) :
    given names (members ++ members') = given names members ++ given names members' := by
  simp [given]

theorem given_cons_of_mem {name : String} (h : name ∈ names) (v : ν)
    (members : List (String × ν)) :
    given names ((name, v) :: members) = v :: given names members := by
  simp [given, h]

theorem given_cons_of_not_mem {name : String} (h : name ∉ names) (v : ν)
    (members : List (String × ν)) : given names ((name, v) :: members) = given names members := by
  simp [given, h]

theorem given_perm {members members' : List (String × ν)} (h : members.Perm members') :
    (given names members).Perm (given names members') :=
  (h.filter _).map _

end Given

namespace Source

variable {m : Type → Type} [Monad m] {ν α : Type} (s : Source m ν)

/-- What becomes of a field that was given these values. -/
def choose (decode : ν → m α) (default : α) : List ν → m α
  | [] => pure default
  | [v] => decode v
  | _ :: _ :: _ => do
      match ← s.reject with
      | none => pure default
      | some v => decode v

variable {s} {decode : ν → m α} {default : α}

theorem field_named [LawfulMonad m] (fields : List (String × ν)) (names : List String)
    (position : ℕ) : s.field (.named fields) names position decode default =
      s.choose decode default (given names fields) := by
  simp only [field, field?, given]
  generalize fields.filter (fun field => names.contains field.1) = fields
  rcases fields with _ | ⟨f, _ | ⟨g, fields⟩⟩
  · simp [choose]
  · simp [choose]
  · rfl

theorem field_positional [LawfulMonad m] (values : List ν) (names : List String) (position : ℕ) :
    s.field (.positional values) names position decode default =
      (values[position]?).elim (pure default) decode := by
  simp only [field, field?, pure_bind]
  cases values[position]? <;> rfl

/-- Of leading values a field takes its own, if it is among them. -/
theorem field_take [LawfulMonad m] (count : ℕ) (values : List ν) (names : List String)
    (position : ℕ) : s.field (.positional (values.take count)) names position decode default =
      if position < count then (values[position]?).elim (pure default) decode
      else pure default := by
  rw [field_positional, List.getElem?_take]
  split_ifs
  · rfl
  · rfl

/-- The order of the values is of no consequence: two are refused whatever they are. -/
theorem choose_perm {values values' : List ν} (h : values.Perm values') :
    s.choose decode default values = s.choose decode default values' := by
  rcases values with _ | ⟨v, _ | ⟨w, values⟩⟩
  · rw [h.nil_eq]
  · rw [List.singleton_perm.mp h]
  · have hlen := h.length_eq
    rcases values' with _ | ⟨v', _ | ⟨w', values'⟩⟩
    · simp at hlen
    · simp at hlen
    · rfl

/-- A value may be exchanged for one that is decoded to the same. -/
theorem choose_exchange {v v' : ν} (h : decode v = decode v') (before after : List ν) :
    s.choose decode default (before ++ v :: after) =
      s.choose decode default (before ++ v' :: after) := by
  rcases before with _ | ⟨u, before⟩
  · rcases after with _ | ⟨w, after⟩
    · exact h
    · rfl
  · rcases before with _ | ⟨w, before⟩ <;> rfl

variable [LawfulMonad m] {v v' : ν} {fields fields' : List (String × ν)}

theorem spec_congr (hv : s.record v = pure (.named fields))
    (hv' : s.record v' = pure (.named fields'))
    (h : ∀ names ∈ ResourceSpec.fieldNames, (given names fields).Perm (given names fields')) :
    s.spec v = s.spec v' := by
  have hfield : ∀ {α : Type} (decode : ν → m α) (default : α) (position : ℕ) (names : List String),
      names ∈ ResourceSpec.fieldNames → s.field (.named fields) names position decode default =
        s.field (.named fields') names position decode default := by
    intro α decode default position names hnames
    rw [field_named, field_named, choose_perm (h names hnames)]
  simp (disch := decide) only [spec, hv, hv', pure_bind, atMost, hfield]

/-- The values of `resources` may differ as long as the definitions in them do not. -/
theorem params_congr (hv : s.record v = pure (.named fields))
    (hv' : s.record v' = pure (.named fields'))
    (h : ∀ names ∈ Params.fieldNames, names ≠ ["resources"] →
      (given names fields).Perm (given names fields'))
    (hresources : s.choose s.specs [] (given ["resources"] fields) =
      s.choose s.specs [] (given ["resources"] fields')) : s.params v = s.params v' := by
  have hfield : ∀ {α : Type} (decode : ν → m α) (default : α) (position : ℕ) (names : List String),
      names ∈ Params.fieldNames ∧ names ≠ ["resources"] →
        s.field (.named fields) names position decode default =
          s.field (.named fields') names position decode default := by
    intro α decode default position names hnames
    rw [field_named, field_named, choose_perm (h names hnames.1 hnames.2)]
  simp (disch := decide) only [params, hv, hv', pure_bind, atMost, hfield]
  simp only [field_named, hresources]

/-- The same for the value of `resources` by position. -/
theorem params_congr_positional {u u' : ν} {before after : List ν}
    (hv : s.record v = pure (.positional (before ++ u :: after)))
    (hv' : s.record v' = pure (.positional (before ++ u' :: after))) (hlen : before.length = 5)
    (hu : s.specs u = s.specs u') : s.params v = s.params v' := by
  have hfield : ∀ {α : Type} (decode : ν → m α) (default : α) (position : ℕ) (names : List String),
      position ≠ 5 → s.field (.positional (before ++ u :: after)) names position decode default =
        s.field (.positional (before ++ u' :: after)) names position decode default := by
    intro α decode default position names hne
    have hget : (before ++ u :: after)[position]? = (before ++ u' :: after)[position]? := by
      rw [List.getElem?_append, List.getElem?_append]
      split_ifs with hlt
      · rfl
      · rw [List.getElem?_cons, List.getElem?_cons, if_neg (by omega), if_neg (by omega)]
    rw [field_positional, field_positional, hget]
  have hresources : ∀ w, s.field (.positional (before ++ w :: after)) ["resources"] 5 s.specs [] =
      s.specs w := by
    intro w
    rw [field_positional, ← hlen, List.getElem?_append_right (Nat.le_refl _)]
    simp
  simp (disch := decide) only [params, hv, hv', pure_bind, atMost, List.length_append,
    List.length_cons, hfield]
  simp only [hresources, hu]

theorem specs_exchange {u u' w w' : ν} {before after : List ν}
    (hu : s.items u = pure (before ++ w :: after))
    (hu' : s.items u' = pure (before ++ w' :: after)) (h : s.spec w = s.spec w') :
    s.specs u = s.specs u' := by
  simp only [specs, hu, hu', pure_bind, List.mapM_append, List.mapM_cons, h]

/-- Every JSON value has a representation, which the source looks into like into the value. -/
structure Represents (s : Source m ν) (e : Value → ν) : Prop where
  object : ∀ members : List (String × Value),
    s.record (e (.object members)) = pure (.named (members.map fun f => (f.1, e f.2)))
  array : ∀ items : List Value, s.items (e (.array items)) = pure (items.map e)
  text : ∀ text : String, s.text (e (.string text)) = pure text
  optionalText : ∀ text : Option String, s.optionalText (e (.optionalString text)) = pure text
  flag : ∀ b : Bool, s.flag (e (.bool b)) = pure b
  seconds : ∀ n : UInt64, s.seconds (e (.nat n.toNat)) = pure n
  choice : ∀ word : String, s.choice (e (.string word)) = pure word

theorem mapM_map_eq_pure {β γ δ : Type} {f : β → m δ} {g : γ → β} {k : γ → δ}
    (h : ∀ c, f (g c) = pure (k c)) (cs : List γ) : (cs.map g).mapM f = pure (cs.map k) := by
  induction cs with
  | nil => simp
  | cons c cs ih => simp [h, ih]

variable {e : Value → ν}

theorem Represents.spec (h : s.Represents e) (spec : ResourceSpec) :
    s.spec (e spec.toJson) = pure spec := by
  simp [Source.spec, ResourceSpec.toJson, h.object, field_named, given, choose, atMost, h.text,
    h.optionalText, h.flag]

theorem Represents.state (h : s.Represents e) (state : TargetState) :
    s.state (e (.string state.word)) = pure state := by
  simp [Source.state, h.choice, TargetState.ofWord?_word]

theorem Represents.specs (h : s.Represents e) (specs : List ResourceSpec) :
    s.specs (e (.array (specs.map ResourceSpec.toJson))) = pure specs := by
  have hspecs : (specs.map (e ∘ ResourceSpec.toJson)).mapM s.spec = pure (specs.map id) :=
    mapM_map_eq_pure h.spec specs
  simp only [Source.specs, h.array, pure_bind, List.map_map, hspecs, List.map_id]

theorem Represents.params (h : s.Represents e) (p : Params) :
    s.params (e p.toJson) = pure p := by
  simp [Source.params, Params.toJson, h.object, field_named, given, choose, atMost, h.text,
    h.optionalText, h.flag, h.seconds, h.state, h.specs]

end Source

end ResourceAgent
