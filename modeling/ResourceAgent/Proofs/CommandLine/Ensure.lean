import ResourceAgent.CommandLine.Parse
import ResourceAgent.Proofs.CommandLine.Level
import ResourceAgent.Proofs.Text.Numeral

/-!
# Parameters as flags

Parameters with one definition at most can be written as flags of `ensure`, each in one word. Read
back in any order, mixed with the global flags, they are the same parameters, whatever characters
the values are made of: only the first equals sign of a word divides it.
-/
namespace ResourceAgent.CommandLine

inductive GlobalFlag where
  | verbose
  | quiet
  | logFormat (format : LogFormat)
  | pcs (binary : String)

namespace GlobalFlag

def option : GlobalFlag → String
  | verbose => "verbose"
  | quiet => "quiet"
  | logFormat _ => "log-format"
  | pcs _ => "pcs"

def word : GlobalFlag → String
  | verbose => "-v"
  | quiet => "-q"
  | logFormat format => attached "log-format" format.word
  | pcs binary => attached "pcs" binary

def update : GlobalFlag → Globals → Globals
  | verbose, g => { g with verbose := true }
  | quiet, g => { g with quiet := true }
  | logFormat format, g => { g with logFormat := some format }
  | pcs binary, g => { g with pcs := some binary }

theorem update_comm (f g : GlobalFlag) (h : f.option ≠ g.option) (s : Globals) :
    f.update (g.update s) = g.update (f.update s) := by
  cases f <;> cases g <;> first | rfl | exact absurd rfl h

end GlobalFlag

/-- A flag if it is wanted. -/
def switch {φ : Type} (wanted : Bool) (flag : φ) : List φ := if wanted then [flag] else []

/-- A flag for a value if there is one. -/
def given {φ α : Type} (value : Option α) (flag : α → φ) : List φ := (value.map flag).toList

/-- The flags for the settings, each once. -/
def Globals.flags (g : Globals) : List GlobalFlag :=
  List.flatten [switch g.verbose .verbose, switch g.quiet .quiet, given g.logFormat .logFormat,
    given g.pcs .pcs]

theorem Globals.foldl_flags (g : Globals) :
    g.flags.foldl (fun s f => f.update s) { } = g := by
  obtain ⟨verbose, quiet, logFormat, pcs⟩ := g
  cases verbose <;> cases quiet <;> cases logFormat <;> cases pcs <;> rfl

/-- What is told about a definition by a text that may be absent. -/
inductive Detail where
  | operations
  | metaOptions
  | cloneOptions
  | promotableOptions
  | group
  /-- The instance attributes, which have a long and a short name. -/
  | resourceOptions (short : Bool)

namespace Detail

def option : Detail → String
  | operations => "operations"
  | metaOptions => "meta"
  | cloneOptions => "clone"
  | promotableOptions => "promotable"
  | group => "group"
  | resourceOptions _ => "resource-options"

def spelling : Detail → String
  | resourceOptions true => "options"
  | detail => detail.option

def put (text : Option String) : Detail → ResourceSpec → ResourceSpec
  | operations, spec => { spec with operations := text }
  | metaOptions, spec => { spec with metaOptions := text }
  | cloneOptions, spec => { spec with cloneOptions := text }
  | promotableOptions, spec => { spec with promotableOptions := text }
  | group, spec => { spec with group := text }
  | resourceOptions _, spec => { spec with resourceOptions := text }

theorem put_comm (d e : Detail) (h : d.option ≠ e.option) (s t : Option String)
    (spec : ResourceSpec) : d.put s (e.put t spec) = e.put t (d.put s spec) := by
  cases d <;> cases e <;> first | rfl | exact absurd rfl h

end Detail

inductive Flag where
  | name (name : String)
  | state (state : TargetState)
  | node (node : String)
  | timeout (seconds : UInt64)
  | force (force : Bool)
  | check
  | standard (standard : String)
  | provider (provider : String)
  | type (type : String)
  | detail (detail : Detail) (text : String)
  | disabled
  | agentValidation

namespace Flag

def option : Flag → String
  | name _ => "name"
  | state _ => "state"
  | node _ => "node"
  | timeout _ => "timeout"
  | force _ => "force"
  | check => "check"
  | standard _ => "standard"
  | provider _ => "provider"
  | type _ => "type"
  | detail d _ => d.option
  | disabled => "disabled"
  | agentValidation => "agent-validation"

/-- The flag with its value. -/
def word : Flag → String
  | name s => attached "name" s
  | state s => attached "state" s.word
  | node s => attached "node" s
  | timeout n => attached "timeout" (toString n.toNat)
  | force b => attached "force" (if b then "true" else "false")
  | check => "--check"
  | standard s => attached "standard" s
  | provider s => attached "provider" s
  | type s => attached "type" s
  | detail d s => attached d.spelling s
  | disabled => "--disabled"
  | agentValidation => "--agent-validation"

def update : Flag → EnsureFlags → EnsureFlags
  | name s, f => { f with name := some s }
  | state s, f => { f with state := s }
  | node s, f => { f with node := some s }
  | timeout n, f => { f with timeout := n }
  | force b, f => { f with force := b }
  | check, f => { f with check := true }
  | standard s, f => f.define fun spec => { spec with standard := s }
  | provider s, f => f.define fun spec => { spec with provider := s }
  | type s, f => { f with type := some s }
  | detail d s, f => f.define (d.put (some s))
  | disabled, f => f.define fun spec => { spec with disabled := true }
  | agentValidation, f => f.define fun spec => { spec with agentValidation := true }

theorem update_comm (f g : Flag) (h : f.option ≠ g.option) (s : EnsureFlags) :
    f.update (g.update s) = g.update (f.update s) := by
  cases f with
  | detail d t =>
      cases g with
      | detail e u =>
          have hput := Detail.put_comm d e h (some t) (some u) s.spec
          simp only [update, EnsureFlags.define, hput]
      | _ => cases d <;> rfl
  | _ =>
      cases g with
      | detail e u => cases e <;> rfl
      | _ => first | rfl | exact absurd rfl h

end Flag

theorem not_mem_commandNames {word : String} (h : word.toList.head? = some '-') :
    commandNames.contains word = false := by
  have hnames : ∀ name ∈ commandNames, name.toList.head? ≠ some '-' := by decide
  rw [List.contains_eq_mem, decide_eq_false_iff_not]
  exact fun hm => hnames word hm h

theorem head?_attached (name value : String) : (attached name value).toList.head? = some '-' := by
  rw [toList_attached]
  rfl

theorem formatWord_word (format : LogFormat) : formatWord format.word = some format := by
  cases format <;> rfl

theorem GlobalFlag.gives_root (f : GlobalFlag) : rootLevel.Gives f.word f.option f.update := by
  cases f with
  | verbose => exact Level.gives_short (c := 'v') rfl (by decide) (by decide)
  | quiet => exact Level.gives_short (c := 'q') rfl (by decide) (by decide)
  | logFormat format =>
      refine Level.gives_attached "log-format" rfl ?_ (by decide)
        (not_mem_commandNames (head?_attached _ _))
      rw [choiceValue, formatWord_word]
      rfl
  | pcs binary =>
      exact Level.gives_attached "pcs" rfl rfl (by decide)
        (not_mem_commandNames (head?_attached _ _))

theorem GlobalFlag.gives_ensure (f : GlobalFlag) :
    ensureLevel.Gives f.word f.option fun s => { s with globals := f.update s.globals } := by
  cases f with
  | verbose => exact Level.gives_short (c := 'v') rfl (by decide) rfl
  | quiet => exact Level.gives_short (c := 'q') rfl (by decide) rfl
  | logFormat format =>
      refine Level.gives_attached "log-format" rfl ?_ (by decide) rfl
      rw [choiceValue, formatWord_word]
      rfl
  | pcs binary => exact Level.gives_attached "pcs" rfl rfl (by decide) rfl

theorem Flag.gives_text (spelling : String) {option value : String}
    {change : String → EnsureFlags → EnsureFlags} {otherName : Option String} {short : Option Char}
    (hlong : ensureLevel.long? spelling =
      some (Opt.owned ⟨option, otherName, short, .take (textValue change)⟩))
    (heq : '=' ∉ spelling.toList) :
    ensureLevel.Gives (attached spelling value) option (Scoped.update (change value)) :=
  Level.gives_attached spelling hlong rfl heq rfl

theorem Detail.gives (d : Detail) (s : String) :
    ensureLevel.Gives (attached d.spelling s) d.option
      (Scoped.update (EnsureFlags.define (d.put (some s)))) := by
  cases d with
  | operations => exact Flag.gives_text "operations" rfl (by decide)
  | metaOptions => exact Flag.gives_text "meta" rfl (by decide)
  | cloneOptions => exact Flag.gives_text "clone" rfl (by decide)
  | promotableOptions => exact Flag.gives_text "promotable" rfl (by decide)
  | group => exact Flag.gives_text "group" rfl (by decide)
  | resourceOptions short =>
      cases short with
      | false => exact Flag.gives_text "resource-options" rfl (by decide)
      | true => exact Flag.gives_text "options" rfl (by decide)

theorem Flag.gives (f : Flag) : ensureLevel.Gives f.word f.option (Scoped.update f.update) := by
  cases f with
  | name s => exact gives_text "name" rfl (by decide)
  | state s =>
      refine Level.gives_attached "state" rfl ?_ (by decide) rfl
      rw [Reading.owned, choiceValue, TargetState.ofWord?_word]
      rfl
  | node s => exact gives_text "node" rfl (by decide)
  | timeout n =>
      refine Level.gives_attached "timeout" rfl ?_ (by decide) rfl
      rw [Reading.owned, secondsValue, Text.readWord_toString]
      rfl
  | force b => cases b <;> exact Level.gives_attached "force" rfl rfl (by decide) rfl
  | check => exact Level.gives_switch "check" rfl (by decide) (by decide) rfl
  | standard s => exact gives_text "standard" rfl (by decide)
  | provider s => exact gives_text "provider" rfl (by decide)
  | type s => exact gives_text "type" rfl (by decide)
  | detail d s => exact d.gives s
  | disabled => exact Level.gives_switch "disabled" rfl (by decide) (by decide) rfl
  | agentValidation =>
      exact Level.gives_switch "agent-validation" rfl (by decide) (by decide) rfl

/-- The global flags before the command. -/
def rootWords : Words rootLevel GlobalFlag where
  word := GlobalFlag.word
  option := GlobalFlag.option
  update := GlobalFlag.update
  gives := GlobalFlag.gives_root
  commute := GlobalFlag.update_comm

/-- The flags of `ensure` and the global flags after it. -/
def ensureWords : Words ensureLevel (Flag ⊕ GlobalFlag) where
  word := Sum.elim Flag.word GlobalFlag.word
  option := Sum.elim Flag.option GlobalFlag.option
  update := Sum.elim (fun f => Scoped.update f.update)
    fun g s => { s with globals := g.update s.globals }
  gives f := by
    cases f with
    | inl f => exact f.gives
    | inr g => exact g.gives_ensure
  commute f g h s := by
    cases f with
    | inl f =>
        cases g with
        | inl g => exact congrArg (Scoped.mk s.globals) (f.update_comm g h s.own)
        | inr g => rfl
    | inr f =>
        cases g with
        | inl g => rfl
        | inr g => exact congrArg (Scoped.mk · s.own) (f.update_comm g h s.globals)

/-- The flags for a definition; the instance attributes go by their short name if it is chosen. -/
def specFlags (short : Bool) (spec : ResourceSpec) : List Flag :=
  List.flatten [[.standard spec.standard], [.provider spec.provider], [.type spec.type],
    given spec.operations (.detail .operations), given spec.metaOptions (.detail .metaOptions),
    given spec.cloneOptions (.detail .cloneOptions),
    given spec.promotableOptions (.detail .promotableOptions), given spec.group (.detail .group),
    given spec.resourceOptions (.detail (.resourceOptions short)), switch spec.disabled .disabled,
    switch spec.agentValidation .agentValidation]

/-- The flags for parameters but for their definitions, and for whether they are only checked. -/
def outerFlags (check : Bool) (p : Params) : List Flag :=
  List.flatten [[.name p.name], [.state p.state], given p.node .node, [.timeout p.timeout],
    [.force p.force], switch check .check]

def paramsFlags (short check : Bool) (p : Params) : List Flag :=
  outerFlags check p ++ p.resources.flatMap (specFlags short)

section Distinct

variable {φ α : Type} {option : φ → String}

theorem map_singleton_sublist (flag : φ) : ([flag].map option).Sublist [option flag] :=
  List.Sublist.refl _

theorem map_switch_sublist (wanted : Bool) (flag : φ) :
    ((switch wanted flag).map option).Sublist [option flag] := by
  cases wanted with
  | false => exact List.nil_sublist _
  | true => exact List.Sublist.refl _

theorem map_given_sublist {name : String} (value : Option α) {flag : α → φ}
    (h : ∀ a, option (flag a) = name) : ((given value flag).map option).Sublist [name] := by
  cases value with
  | none => exact List.nil_sublist _
  | some a => simp [given, h]

/-- Rows of flags, each row for one option at most, are for some of these options in order. -/
theorem map_flatten_sublist {rows : List (List φ)} {names : List String}
    (h : List.Forall₂ (fun row name => (row.map option).Sublist [name]) rows names) :
    (rows.flatten.map option).Sublist names := by
  induction h with
  | nil => exact List.Sublist.refl _
  | cons hrow _ ih =>
      rw [List.flatten_cons, List.map_append]
      exact hrow.append ih

end Distinct

def globalOptionNames : List String := ["verbose", "quiet", "log-format", "pcs"]

def specOptionNames : List String :=
  ["standard", "provider", "type", "operations", "meta", "clone", "promotable", "group",
    "resource-options", "disabled", "agent-validation"]

def paramsOptionNames : List String :=
  ["name", "state", "node", "timeout", "force", "check"] ++ specOptionNames

theorem globalFlags_sublist (g : Globals) :
    (g.flags.map GlobalFlag.option).Sublist globalOptionNames := by
  refine map_flatten_sublist (.cons ?_ (.cons ?_ (.cons ?_ (.cons ?_ .nil))))
  · exact map_switch_sublist g.verbose _
  · exact map_switch_sublist g.quiet _
  · exact map_given_sublist g.logFormat fun _ => rfl
  · exact map_given_sublist g.pcs fun _ => rfl

theorem specFlags_sublist (short : Bool) (spec : ResourceSpec) :
    ((specFlags short spec).map Flag.option).Sublist specOptionNames := by
  unfold specFlags specOptionNames
  apply map_flatten_sublist
  refine .cons (map_singleton_sublist (Flag.standard spec.standard))
    (.cons (map_singleton_sublist (Flag.provider spec.provider))
      (.cons (map_singleton_sublist (Flag.type spec.type)) (.cons ?_ (.cons ?_ (.cons ?_ (.cons ?_
        (.cons ?_ (.cons ?_ (.cons ?_ (.cons ?_ .nil))))))))))
  · exact map_given_sublist spec.operations fun _ => rfl
  · exact map_given_sublist spec.metaOptions fun _ => rfl
  · exact map_given_sublist spec.cloneOptions fun _ => rfl
  · exact map_given_sublist spec.promotableOptions fun _ => rfl
  · exact map_given_sublist spec.group fun _ => rfl
  · exact map_given_sublist spec.resourceOptions fun _ => rfl
  · exact map_switch_sublist spec.disabled _
  · exact map_switch_sublist spec.agentValidation _

theorem outerFlags_sublist (check : Bool) (p : Params) :
    ((outerFlags check p).map Flag.option).Sublist
      ["name", "state", "node", "timeout", "force", "check"] := by
  unfold outerFlags
  apply map_flatten_sublist
  refine .cons (map_singleton_sublist (Flag.name p.name))
    (.cons (map_singleton_sublist (Flag.state p.state)) (.cons ?_
      (.cons (map_singleton_sublist (Flag.timeout p.timeout))
        (.cons (map_singleton_sublist (Flag.force p.force)) (.cons ?_ .nil)))))
  · exact map_given_sublist p.node fun _ => rfl
  · exact map_switch_sublist check _

theorem paramsFlags_sublist (short check : Bool) {p : Params} (hp : p.resources.length ≤ 1) :
    ((paramsFlags short check p).map Flag.option).Sublist paramsOptionNames := by
  rw [paramsFlags, List.map_append]
  refine (outerFlags_sublist check p).append ?_
  rcases h : p.resources with _ | ⟨spec, _ | ⟨second, rest⟩⟩
  · exact List.nil_sublist _
  · rw [List.flatMap_cons, List.flatMap_nil, List.append_nil]
    exact specFlags_sublist short spec
  · simp [h] at hp

theorem foldl_given_detail (d : Detail) (text : Option String) {f : EnsureFlags}
    (h : d.put none f.spec = f.spec) :
    (given text (Flag.detail d)).foldl (fun s g => g.update s) f = f.define (d.put text) := by
  cases text with
  | none =>
      rw [EnsureFlags.define, h]
      rfl
  | some s => rfl

theorem foldl_specFlags (short : Bool) (spec : ResourceSpec) {f : EnsureFlags}
    (hf : f.spec = { }) :
    (specFlags short spec).foldl (fun s g => g.update s) f =
      { f with type := some spec.type, spec := { spec with type := "" } } := by
  obtain ⟨name, state, node, timeout, force, check, type, _⟩ := f
  obtain rfl : _ = ({ } : ResourceSpec) := hf
  simp only [specFlags, List.flatten_cons, List.flatten_nil, List.append_nil, List.foldl_append]
  rw [foldl_given_detail .operations, foldl_given_detail .metaOptions,
    foldl_given_detail .cloneOptions, foldl_given_detail .promotableOptions,
    foldl_given_detail .group, foldl_given_detail (.resourceOptions short)]
  · simp only [EnsureFlags.define, Detail.put, List.foldl_cons, List.foldl_nil, Flag.update]
    cases spec.disabled <;> cases spec.agentValidation <;> rfl
  all_goals rfl

theorem foldl_outerFlags (check : Bool) (p : Params) :
    (outerFlags check p).foldl (fun s g => g.update s) { } =
      { name := some p.name, state := p.state, node := p.node, timeout := p.timeout,
        force := p.force, check } := by
  obtain ⟨name, state, node, timeout, force, resources⟩ := p
  cases node <;> cases check <;> rfl

/-- The settings after the flags for parameters. -/
theorem foldl_paramsFlags (short check : Bool) {p : Params} (hp : p.resources.length ≤ 1) :
    let f := (paramsFlags short check p).foldl (fun s g => g.update s) ({ } : EnsureFlags)
    f.name = some p.name ∧ f.params p.name = p ∧ f.check = check := by
  simp only [paramsFlags, List.foldl_append, foldl_outerFlags]
  obtain ⟨name, state, node, timeout, force, resources⟩ := p
  rcases resources with _ | ⟨spec, _ | ⟨second, rest⟩⟩
  · exact ⟨rfl, rfl, rfl⟩
  · rw [List.flatMap_cons, List.flatMap_nil, List.append_nil, foldl_specFlags short spec rfl]
    exact ⟨rfl, rfl, rfl⟩
  · simp at hp

theorem foldl_ensureWords (own : List Flag) (globals : List GlobalFlag)
    (s : Scoped EnsureFlags) :
    (own.map Sum.inl ++ globals.map Sum.inr).foldl (fun t f => ensureWords.update f t) s =
      ⟨globals.foldl (fun t g => g.update t) s.globals,
        own.foldl (fun t f => f.update t) s.own⟩ := by
  rw [List.foldl_append, List.foldl_map, List.foldl_map]
  have hown : ∀ s : Scoped EnsureFlags,
      own.foldl (fun t f => ensureWords.update (Sum.inl f) t) s =
        ⟨s.globals, own.foldl (fun t f => f.update t) s.own⟩ := by
    induction own with
    | nil => exact fun _ => rfl
    | cons f own ih => exact fun s => ih _
  rw [hown]
  generalize own.foldl (fun t f => f.update t) s.own = settings
  obtain ⟨g, _⟩ := s
  induction globals generalizing g with
  | nil => rfl
  | cons f globals ih => exact ih _

theorem scan_command {s : State Globals} (hs : s.Clear) (rest : List String) :
    rootLevel.scan s ("ensure" :: rest) = .ok (s, some ("ensure", rest)) := by
  have hcommand : rootLevel.isCommand s "ensure" = true := by
    rw [Level.isCommand, State.awaitsValue, hs.pending_eq, hs.operandsOnly_eq]
    decide
  rw [Level.scan, hcommand]
  rfl

theorem readEnsure_words (short check : Bool) {p : Params} (hp : p.resources.length ≤ 1)
    (inner : Globals) {words : List String}
    (hwords : words.Perm ((paramsFlags short check p).map Flag.word ++
      inner.flags.map GlobalFlag.word)) :
    readCommand "ensure" words = .ok (inner, .ensure p check) := by
  have hwords' : words.Perm (((paramsFlags short check p).map Sum.inl ++
      inner.flags.map Sum.inr).map ensureWords.word) := by
    simpa [ensureWords] using hwords
  have hdistinct : (((paramsFlags short check p).map Sum.inl ++
      inner.flags.map Sum.inr).map ensureWords.option).Nodup := by
    have hsub := (paramsFlags_sublist short check hp).append (globalFlags_sublist inner)
    have horder : (paramsOptionNames ++ globalOptionNames).Nodup := by decide
    have hnodup : ((paramsFlags short check p).map Flag.option ++
        inner.flags.map GlobalFlag.option).Nodup := List.Nodup.sublist hsub horder
    simpa [ensureWords] using hnodup
  obtain ⟨s, hscan, hclear, hsettings⟩ :=
    ensureWords.scan_perm hdistinct hwords' { own := { } } []
  rw [List.append_nil, Level.scan] at hscan
  rw [foldl_ensureWords, Globals.foldl_flags] at hsettings
  obtain ⟨hname, hparams, hcheck⟩ := foldl_paramsFlags short check hp
  have hread : ensureLevel.read { own := { } } words = .ok s.settings := by
    rw [Level.read, hscan]
    exact hclear.finish_eq
  change readEnsure words = _
  rw [readEnsure, hread, hsettings]
  simp only [hname, hparams, hcheck, require, bind, Except.bind, pure, Except.pure]

/-- Parameters with one definition at most, and whether they are only to be checked, can be told by
flags in any order, with global flags among them and before the command. Global flags that are
given on both sides count as they stand after the command. -/
theorem parse_ensure_flags (env : Params.Environment) (p : Params) (check short : Bool)
    (outer inner : Globals) (before after : List String) (hp : p.resources.length ≤ 1)
    (hbefore : before.Perm (outer.flags.map GlobalFlag.word))
    (hafter : after.Perm ((paramsFlags short check p).map Flag.word ++
      inner.flags.map GlobalFlag.word)) :
    parse env (before ++ "ensure" :: after) = .ok {
      verbose := outer.verbose || inner.verbose
      quiet := outer.quiet || inner.quiet
      logFormat := (inner.logFormat <|> outer.logFormat).getD .text
      pcs := (inner.pcs <|> outer.pcs <|> env "PCS_BINARY").getD "pcs"
      command := .ensure p check } := by
  have hdistinct : (outer.flags.map rootWords.option).Nodup := by
    have horder : globalOptionNames.Nodup := by decide
    exact List.Nodup.sublist (globalFlags_sublist outer) horder
  obtain ⟨s, hscan, hclear, hsettings⟩ :=
    rootWords.scan_perm hdistinct hbefore { } ("ensure" :: after)
  have houter : s.settings = outer := hsettings.trans outer.foldl_flags
  rw [scan_command hclear] at hscan
  rw [parse, hscan]
  simp only [bind, Except.bind, readEnsure_words short check hp inner hafter, hclear.finish_eq,
    houter]
  rfl

/-- The flags of a move whose texts look like options themselves, in no order at all. -/
theorem parse_ensure_flags_shuffled :
    let p : Params :=
      { name := "vip", state := .relocated, node := some "--node=2", timeout := 40, force := false,
        resources := [{ type := "IPaddr2", group := some "-v", disabled := true,
                        resourceOptions := some "ip=1 nic=-" }] }
    let outer : Globals := { verbose := true, logFormat := some .json }
    let inner : Globals := { quiet := true, pcs := some "--pcs" }
    let before := ["--log-format=json", "-v"]
    let after := ["--options=ip=1 nic=-", "--group=-v", "--check", "--force=false", "--disabled",
      "--type=IPaddr2", "-q", "--node=--node=2", "--provider=heartbeat", "--name=vip",
      "--standard=ocf", "--pcs=--pcs", "--timeout=40", "--state=relocated"]
    (p.resources.length ≤ 1 ∧ before.Perm (outer.flags.map GlobalFlag.word) ∧
        after.Perm ((paramsFlags true true p).map Flag.word ++ inner.flags.map GlobalFlag.word)) ∧
      parse .empty (before ++ "ensure" :: after) = .ok {
        verbose := true, quiet := true, logFormat := .json, pcs := "--pcs",
        command := .ensure p true } := by
  intro p outer inner before after
  have hp : p.resources.length ≤ 1 := by decide
  have hbefore : before.Perm (outer.flags.map GlobalFlag.word) := by decide
  have hafter : after.Perm ((paramsFlags true true p).map Flag.word ++
      inner.flags.map GlobalFlag.word) := by decide
  have hparse := parse_ensure_flags .empty p true true outer inner before after hp hbefore hafter
  exact ⟨⟨hp, hbefore, hafter⟩, hparse⟩

end ResourceAgent.CommandLine
