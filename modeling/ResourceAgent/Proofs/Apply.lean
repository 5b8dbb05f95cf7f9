import ResourceAgent.Machine.Prepared
import ResourceAgent.Proofs.Params.Expansion
import ResourceAgent.Proofs.Program
import ResourceAgent.Proofs.Reconcile.Commands
import ResourceAgent.Proofs.Text.Utf8

/-!
# A parameter file is a gate

Loading a parameter file passes four stages: the text of the file, its references, the YAML, and the
validation. The first stage that fails decides the kind of the failure, and then nothing is run.
What has passed them all is validated once more and accepted again, so the operation asks its first
query, and from there on `apply` is `ensure`. Whether a machine can start that query is a matter of
the binary and of the name in it: a file may hold names that no command can have as an argument.
-/
namespace ResourceAgent

namespace Params

variable {disk : Disk} {env : Environment} {path text : String}

/-- The text refers to a variable that has no value. -/
def RefersUndefined (env : Environment) (text : String) : Prop :=
  ∃ references last, Divided text.toList references last ∧
    ∃ name ∈ references.map Prod.snd, env name = none

/-- Expansion fails for no other reason. -/
theorem expand_eq_error_iff :
    (∃ names, expand env text = .error names) ↔ RefersUndefined env text := by
  constructor
  · intro h
    obtain ⟨names, he⟩ := h
    obtain ⟨references, last, hd⟩ := exists_divided text.toList
    by_contra hdefined
    have hvalues : ∀ name ∈ references.map Prod.snd, env name = some ((env name).getD "") := by
      intro name hname
      cases hv : env name with
      | none => exact absurd ⟨references, last, hd, name, hname, hv⟩ hdefined
      | some value => rfl
    cases he.symm.trans (hd.expand_eq_ok hvalues)
  · intro h
    obtain ⟨references, last, hd, hundefined⟩ := h
    exact ⟨_, hd.expand_eq_error hundefined⟩

/-- How loading a file ends, by the first stage that fails. -/
inductive Loads (disk : Disk) (env : Environment) (path : String) :
    Except Failure Params → Prop
  | unreadable {fault : FileFault} : disk.readBytes path = .error fault →
      Loads disk env path (.error (unreadableFile path fault.message))
  | notText {bytes : List UInt8} : disk.readBytes path = .ok bytes →
      (∀ text, bytes ≠ Text.encodeUtf8 text) →
      Loads disk env path (.error (unreadableFile path FileFault.notText.message))
  | undefined {text : String} {names : List String} :
      disk.readBytes path = .ok (Text.encodeUtf8 text) → expand env text = .error names →
      Loads disk env path (.error (undefinedVariables names))
  | undecodable {text expanded reason : String} :
      disk.readBytes path = .ok (Text.encodeUtf8 text) → expand env text = .ok expanded →
      ofYamlText expanded = .error (.badYaml reason) →
      Loads disk env path (.error (.badYaml reason))
  | refused {text expanded : String} {p : Params} {defect : Defect} :
      disk.readBytes path = .ok (Text.encodeUtf8 text) → expand env text = .ok expanded →
      ofYamlText expanded = .ok p → p.validate = .error defect →
      Loads disk env path (.error (.validation defect.message))
  | accepted {text expanded : String} {p : Params} :
      disk.readBytes path = .ok (Text.encodeUtf8 text) → expand env text = .ok expanded →
      ofYamlText expanded = .ok p → p.validate = .ok () → Loads disk env path (.ok p)

/-- The kinds of failure, each with what it tells of the file. Nothing that comes after a stage has
a part in its condition. -/
structure LoadVerdict (disk : Disk) (env : Environment) (path : String)
    (loaded : Except Failure Params) : Prop where
  config_iff : (∃ reason, loaded = .error (.config reason)) ↔
    (∃ fault, disk.readBytes path = .error fault) ∨
      (∃ bytes, disk.readBytes path = .ok bytes ∧ ∀ text, bytes ≠ Text.encodeUtf8 text) ∨
      ∃ text, disk.readBytes path = .ok (Text.encodeUtf8 text) ∧ RefersUndefined env text
  yaml_iff : (∃ reason, loaded = .error (.badYaml reason)) ↔ ∃ text expanded,
    disk.readBytes path = .ok (Text.encodeUtf8 text) ∧ expand env text = .ok expanded ∧
      ∀ p, ofYamlText expanded ≠ .ok p
  validation_iff : (∃ reason, loaded = .error (.validation reason)) ↔ ∃ text expanded p,
    disk.readBytes path = .ok (Text.encodeUtf8 text) ∧ expand env text = .ok expanded ∧
      ofYamlText expanded = .ok p ∧ p.validate ≠ .ok ()
  ok_iff : ∀ {p}, loaded = .ok p ↔ ∃ text expanded,
    disk.readBytes path = .ok (Text.encodeUtf8 text) ∧ expand env text = .ok expanded ∧
      ofYamlText expanded = .ok p ∧ p.validate = .ok ()
  /-- There are no other failures. -/
  kinds : ∀ {failure}, loaded = .error failure → (∃ reason, failure = .config reason) ∨
    (∃ reason, failure = .badYaml reason) ∨ ∃ reason, failure = .validation reason

theorem Loads.verdict {loaded : Except Failure Params} (h : Loads disk env path loaded) :
    LoadVerdict disk env path loaded := by
  have hdefined : ∀ {text expanded}, expand env text = .ok expanded →
      ¬ RefersUndefined env text := by
    intro text expanded he hu
    obtain ⟨names, hn⟩ := expand_eq_error_iff.mpr hu
    cases he.symm.trans hn
  cases h with
  | unreadable hr => constructor <;> simp [hr, unreadableFile]
  | notText hr ht => constructor <;> simp [hr, ht, unreadableFile]
  | undefined hr he =>
      have hu := expand_eq_error_iff.mp ⟨_, he⟩
      constructor <;> simp [hr, Text.encodeUtf8_inj, undefinedVariables, he, hu]
  | undecodable hr he hy =>
      have hu := hdefined he
      constructor <;> simp [hr, Text.encodeUtf8_inj, he, hu, hy]
  | refused hr he hy hv =>
      have hu := hdefined he
      constructor <;> simp [hr, Text.encodeUtf8_inj, he, hu, hy, hv]
  | accepted hr he hy hv =>
      have hu := hdefined he
      constructor <;> simp [hr, Text.encodeUtf8_inj, he, hu, hy, hv]

/-- Decoding fails in one way. -/
theorem ofYamlText_eq_error {failure : Failure} (h : ofYamlText text = .error failure) :
    ∃ reason, failure = .badYaml reason := by
  unfold ofYamlText at h
  split at h
  · cases h
    exact ⟨_, rfl⟩
  · split at h
    · cases h
      exact ⟨_, rfl⟩
    · cases h

/-- The stages after the text of the file is known. -/
theorem loads_load (hr : disk.readBytes path = .ok (Text.encodeUtf8 text)) :
    Loads disk env path (load env text) := by
  unfold load
  cases he : expand env text with
  | error names => exact .undefined hr he
  | ok expanded =>
      cases hy : ofYamlText expanded with
      | error failure =>
          obtain ⟨reason, rfl⟩ := ofYamlText_eq_error hy
          simp only [hy]
          exact .undecodable hr he hy
      | ok p =>
          have hc : (Except.ok p >>= checked) = checked p := rfl
          simp only [hy, hc]
          unfold checked
          cases hv : p.validate with
          | error defect => exact .refused hr he hy hv
          | ok u => exact .accepted hr he hy hv

end Params

namespace Machine

variable {σ : Type} {machine : Machine σ} {call : Invocation}

/-- The machine can start the command. -/
def Starts (machine : Machine σ) (call : Invocation) : Prop :=
  ∃ installed, machine.start call = .ok installed

/-- The machine can start the program, in some command. -/
def CanStart (machine : Machine σ) (program : String) : Prop :=
  ∃ call : Invocation, call.program = program ∧ machine.Starts call

/-- A process can have the text as an argument. -/
def Fits (arg : String) : Prop := hasNul arg = false ∧ Disk.byteLength arg ≤ argumentLimit

instance (arg : String) : Decidable (Fits arg) := inferInstanceAs (Decidable (_ ∧ _))

instance (call : Invocation) : Decidable (machine.Starts call) :=
  match h : machine.start call with
  | .ok installed => isTrue ⟨installed, h⟩
  | .error _ => isFalse fun ⟨_, h'⟩ => nomatch h.symm.trans h'

theorem fits_args_iff {args : List String} : (∀ arg ∈ args, Fits arg) ↔
    args.any hasNul = false ∧ args.any (argumentLimit < Disk.byteLength ·) = false := by
  simp [Fits, forall_and]

/-- The program that a name or a path stands for. -/
structure Opens (machine : Machine σ) (program : String) (installed : Installed σ) : Prop where
  known : (isPath program || (machine.programs.lookup program).isSome) = true
  fits : hasNul program = false
  found : ∃ name, machine.programName program = .ok name ∧
    machine.programs.lookup name = some installed

/-- Of a program and its arguments, each has to be fit by itself. -/
theorem start_eq_ok_iff {installed : Installed σ} : machine.start call = .ok installed ↔
    machine.Opens call.program installed ∧ ∀ arg ∈ call.args, Fits arg := by
  rw [fits_args_iff]
  have hunknown : (!isPath call.program && (machine.programs.lookup call.program).isNone) =
      !(isPath call.program || (machine.programs.lookup call.program).isSome) := by
    rw [Bool.not_or, Option.not_isSome]
  unfold start
  rw [hunknown]
  split_ifs with hk hnul hlong
  · exact iff_of_false not_false fun ⟨ho, _⟩ => by simp [ho.known] at hk
  · exact iff_of_false not_false fun ⟨ho, hn, _⟩ => by simp [ho.fits, hn] at hnul
  · exact iff_of_false not_false fun ⟨_, _, hl⟩ => by cases hl.symm.trans hlong
  · rw [Bool.not_eq_true, Bool.not_eq_false'] at hk
    rw [Bool.not_eq_true, Bool.or_eq_false_iff] at hnul
    constructor
    · intro h
      refine ⟨⟨hk, hnul.1, ?_⟩, hnul.2, Bool.not_eq_true _ ▸ hlong⟩
      split at h
      · cases h
      · next name hname =>
          split at h
          · next installed' hl =>
              cases h
              exact ⟨name, hname, hl⟩
          · cases h
    · rintro ⟨⟨-, -, name, hname, hl⟩, -⟩
      simp only [hname, hl]

/-- Whether a command starts is decided by its program and by its arguments one by one. -/
theorem starts_iff :
    machine.Starts call ↔ machine.CanStart call.program ∧ ∀ arg ∈ call.args, Fits arg := by
  constructor
  · intro h
    obtain ⟨installed, hs⟩ := h
    exact ⟨⟨call, rfl, installed, hs⟩, (start_eq_ok_iff.mp hs).2⟩
  · rintro ⟨⟨call', hprogram, installed, hs⟩, hargs⟩
    obtain ⟨hopens, -⟩ := start_eq_ok_iff.mp hs
    rw [hprogram] at hopens
    exact ⟨installed, start_eq_ok_iff.mpr ⟨hopens, hargs⟩⟩

end Machine

namespace Commands

theorem loads_loaded {disk : Disk} (around : Surroundings) (path : String)
    (hread : around.readText = disk.readText) :
    Params.Loads disk around.environment path (loaded around path) := by
  unfold loaded
  rw [hread]
  unfold Disk.readText
  cases hb : disk.readBytes path with
  | error fault => exact .unreadable hb
  | ok bytes =>
      cases hd : Text.decodeUtf8 bytes with
      | error fault =>
          simp only [hd]
          refine .notText hb ?_
          intro text he
          cases hd.symm.trans (Text.decodeUtf8_eq_ok_iff.mpr he)
      | ok text =>
          have he := Text.decodeUtf8_eq_ok_iff.mp hd
          simp only [hd]
          exact Params.loads_load (he ▸ hb)

/-- What is run waits for the parameters: without them nothing is, and with them what `ensure` runs
for them. -/
structure Gated {σ : Type} (runner : Runner σ) (state : σ) (pcs : String) (check : Bool)
    (loaded : Except Failure Params) (work : Work Report) : Prop where
  calls_eq_nil_iff : (work.run.hold runner state).calls = [] ↔ ∃ failure, loaded = .error failure
  refused : ∀ {failure}, loaded = .error failure →
    work.outcome runner state = ⟨.error (.failed failure), [], state⟩
  admitted : ∀ {p}, loaded = .ok p → p.validate = .ok () ∧
    work.outcome runner state = (ensure pcs p check).outcome runner state

variable {σ : Type} (runner : Runner σ) (state : σ) (pcs : String) (check : Bool) {p : Params}

/-- A command that cannot be started fails. -/
theorem run_of_not_starts {machine : Machine σ} {call : Invocation}
    (h : ¬ machine.Starts call) : ∃ failure, (machine.run call state).answer = .error failure := by
  unfold Machine.run
  cases hs : machine.start call with
  | error failure => exact ⟨failure, rfl⟩
  | ok program => exact absurd ⟨program, hs⟩ h

/-- A query starts if its binary can be started and the name fits into a command. -/
theorem starts_query_iff {machine : Machine σ} :
    machine.Starts ((manager pcs p.timeout check).query p) ↔
      machine.CanStart pcs ∧ Machine.Fits p.name := by
  have hargs : ((manager pcs p.timeout check).query p).args = ["resource", "config", p.name] := rfl
  have hwords : Machine.Fits "resource" ∧ Machine.Fits "config" := by decide
  rw [Machine.starts_iff, hargs]
  simp [hwords, manager, Manager.query, Pcs.Client.invocation]

section

variable {around : Surroundings} (htext : around.isText = true) {path : String}

include htext

/-- With the parameters loaded, `apply` takes a course of theirs. -/
theorem apply_course (hl : loaded around path = .ok p) :
    let o := (apply around pcs path check).outcome runner state
    Manager.Course (manager pcs p.timeout check) p o.exchanges o.value := by
  intro o
  have ho : o = ((manager pcs p.timeout check).ensure p).outcome runner state := by
    rw [← outcome_ensure]
    simp only [o, outcome_apply runner state htext, hl]
  rw [ho]
  exact Manager.ensure_course runner state _ p

theorem gated_of_validate
    (hv : ∀ {p}, loaded around path = .ok p → p.validate = .ok ()) :
    Gated runner state pcs check (loaded around path) (apply around pcs path check) := by
  have hcalls := Dialogue.calls_hold runner state (apply around pcs path check).run
  have ho := outcome_apply runner state htext pcs path check
  cases hl : loaded around path with
  | error failure =>
      rw [hl] at ho
      have hx : (apply around pcs path check).run.exchanges runner state = [] :=
        congrArg Outcome.exchanges ho
      rw [hx] at hcalls
      refine ⟨iff_of_true hcalls ⟨failure, rfl⟩, ?_, nofun⟩
      intro failure' hf
      cases hf
      exact ho
  | ok p =>
      rw [hl] at ho
      have hne := (apply_course runner state pcs check htext hl).ne_nil (hv hl)
      refine ⟨⟨?_, nofun⟩, nofun, ?_⟩
      · intro hnil
        rw [hcalls, List.map_eq_nil_iff] at hnil
        exact absurd hnil hne
      · intro p' hp
        cases hp
        exact ⟨hv hl, ho⟩

/-- Once the query can be started, something is run; and if it cannot, nothing is run after it. -/
theorem exists_starts_iff (machine : Machine σ) (hl : loaded around path = .ok p)
    (hv : p.validate = .ok ()) :
    (∃ call ∈ ((apply around pcs path check).run.hold machine.run state).calls,
        machine.Starts call) ↔
      machine.Starts ((manager pcs p.timeout check).query p) := by
  have hc := apply_course machine.run state pcs check htext hl
  obtain ⟨answer, rest, hx⟩ := hc.exists_first hv
  have hcalls : ((apply around pcs path check).run.hold machine.run state).calls =
      (manager pcs p.timeout check).query p :: rest.map Prod.fst := by
    rw [Dialogue.calls_hold]
    exact congrArg (List.map Prod.fst) hx
  rw [hcalls]
  constructor
  · intro h
    by_contra hnot
    obtain ⟨failure, hf⟩ := run_of_not_starts state hnot
    have hanswer : answer = .error failure :=
      (Dialogue.answer_of_exchanges_cons machine.run state hx).trans hf
    have hlength := (hc.failing (i := 0) (by rw [hx]; rfl)
      (Manager.fails_query_iff.mpr (by rw [hanswer]; rfl))).1
    rw [hx] at hlength
    have hnil : rest = [] := List.length_eq_zero_iff.mp (by simpa using hlength)
    obtain ⟨call, hcall, hstarts⟩ := h
    rw [hnil, List.map_nil, List.mem_singleton] at hcall
    exact hnot (hcall ▸ hstarts)
  · intro h
    exact ⟨_, List.mem_cons_self, h⟩

/-- What a machine starts of `apply`: the first command, with the name in it, decides. -/
structure Started {σ : Type} (machine : Machine σ) (pcs : String) (loaded : Except Failure Params)
    (calls : List Invocation) : Prop where
  exists_iff : (∃ call ∈ calls, machine.Starts call) ↔ ∃ p, loaded = .ok p ∧
    machine.Starts ⟨pcs, ["resource", "config", p.name], .ofSeconds p.timeout⟩
  /-- With a binary that can be started it takes a bad file, or a name that fits into no command. -/
  none_iff : machine.CanStart pcs → ((∀ call ∈ calls, ¬ machine.Starts call) ↔
    (∃ failure, loaded = .error failure) ∨ ∃ p, loaded = .ok p ∧ ¬ Machine.Fits p.name)

theorem started_of_validate (machine : Machine σ)
    (hv : ∀ {p}, loaded around path = .ok p → p.validate = .ok ()) :
    Started machine pcs (loaded around path)
      ((apply around pcs path check).run.hold machine.run state).calls := by
  cases hl : loaded around path with
  | error failure =>
      have hgate := gated_of_validate machine.run state pcs check htext hv
      rw [hgate.calls_eq_nil_iff.mpr ⟨failure, hl⟩]
      constructor <;> simp
  | ok p =>
      have hstarts := exists_starts_iff state pcs check htext machine hl (hv hl)
      constructor
      · rw [hstarts]
        simp only [Except.ok.injEq, exists_eq_left']
        exact Iff.rfl
      · intro hcan
        have hnone := not_congr hstarts
        rw [starts_query_iff pcs check] at hnone
        simpa [hcan] using hnone

end

/-- Loading decides alone whether `apply` asks for anything to be run. The kind of its failure is
that of the first stage that fails; what it comes to without a failure is valid, and `apply` is then
`ensure`, also as the program shows it. A machine that can start the binary starts a command of
`apply` unless the name that was loaded fits into no command. -/
theorem apply_gated (runner : Runner σ) (state : σ) (disk : Disk)
    (input : Except Text.Utf8Fault String) (vars : List Variable)
    (htext : ∀ v ∈ vars, v.text?.isSome = true) (pcs path : String) (check : Bool) :
    let around : Surroundings := { readText := disk.readText, input, vars }
    (loadFile around path).outcome runner state =
        ⟨(loaded around path).mapError .failed, [], state⟩ ∧
      Params.LoadVerdict disk around.environment path (loaded around path) ∧
      Gated runner state pcs check (loaded around path) (apply around pcs path check) ∧
      (∀ machine : Machine σ, Started machine pcs (loaded around path)
        ((apply around pcs path check).run.hold machine.run state).calls) ∧
      ∀ (words words' : List String) (cli cli' : CommandLine.Cli) (p : Params),
        loaded around path = .ok p →
        Program.parse around words = .ok cli → cli.command = .apply path check →
        Program.parse around words' = .ok cli' → cli'.command = .ensure p check →
        cli'.pcs = cli.pcs →
        (Program.run around runner state words').exit =
            (Program.run around runner state words).exit ∧
          (Program.run around runner state words').state =
            (Program.run around runner state words).state ∧
          Program.calls around runner state words' =
            Program.calls around runner state words := by
  intro around
  have ht : around.isText = true := List.all_eq_true.mpr htext
  have hverdict : Params.LoadVerdict disk around.environment path (loaded around path) :=
    (loads_loaded around path rfl).verdict
  have hvalid : ∀ {p}, loaded around path = .ok p → p.validate = .ok () := by
    intro p hl
    obtain ⟨text, expanded, -, -, -, hv⟩ := hverdict.ok_iff.mp hl
    exact hv
  refine ⟨outcome_loadFile runner state around path, hverdict, ?_, ?_, ?_⟩
  · exact gated_of_validate runner state pcs check ht hvalid
  · exact fun machine => started_of_validate state pcs check ht machine hvalid
  · intro words words' cli cli' p hl h hcommand h' hcommand' hpcs
    refine Program.run_congr runner state h h' ?_
    rw [hcommand, hcommand', hpcs, Program.work, Program.work, Work.outcome_map, Work.outcome_map,
      outcome_apply runner state ht, hl]

/-- A file with a reference, and the options that say the same. -/
theorem apply_gated_absent :
    let text := "name: $\x7bVIP\x7d\nstate: absent\ntimeout: 0x3c\n"
    let disk := Disk.system.put ["p.yaml"] (.file (Text.encodeUtf8 text))
    let vars : List Variable := [.ofText "VIP" "vip"]
    let around : Surroundings := { readText := disk.readText, vars }
    let p : Params := { name := "vip", state := .absent, timeout := 60 }
    let words := ["apply", "p.yaml"]
    let words' := ["ensure", "--state=absent", "--timeout", "60", "--name", "vip"]
    let answers : List Answer := [.ok { stdout := "Resource: vip" }]
    (∀ v ∈ vars, v.text?.isSome = true) ∧ loaded around "p.yaml" = .ok p ∧ p.validate = .ok () ∧
      (Program.run around scripted answers words').exit =
        (Program.run around scripted answers words).exit ∧
      (Program.calls around scripted answers words).map Invocation.args =
        [["resource", "config", "vip"], ["resource", "delete", "vip", "--force"]] := by
  intro text disk vars around p words words' answers
  have htext : ∀ v ∈ vars, v.text?.isSome = true := by decide +kernel
  have hl : loaded around "p.yaml" = .ok p := by decide +kernel
  have h : Program.parse around words =
      .ok ⟨false, false, .text, "pcs", .apply "p.yaml" false⟩ := by decide +kernel
  have h' : Program.parse around words' =
      .ok ⟨false, false, .text, "pcs", .ensure p false⟩ := by decide +kernel
  have hcalls : (Program.calls around scripted answers words').map Invocation.args =
      [["resource", "config", "vip"], ["resource", "delete", "vip", "--force"]] := by
    decide +kernel
  obtain ⟨-, -, hgate, -, hprogram⟩ :=
    apply_gated scripted answers disk (.ok "") vars htext "pcs" "p.yaml" false
  obtain ⟨hexit, -, hsame⟩ := hprogram words words' _ _ p hl h rfl h' rfl rfl
  refine ⟨htext, hl, (hgate.admitted hl).1, hexit, ?_⟩
  rw [← hsame]
  exact hcalls

/-- A name in a file may hold the character NUL. It is loaded, and although the binary can be
started nothing is. -/
theorem apply_starts_nothing :
    let text := "name: \"a\\0b\"\nstate: absent\n"
    let machine := Prepared.machine [(["p.yaml"], .file (Text.encodeUtf8 text))]
    let around : Surroundings := { readText := machine.disk.readText }
    loaded around "p.yaml" = .ok { name := "a\x00b", state := .absent } ∧
      machine.CanStart "pcs" ∧
      ∀ call ∈ ((apply around "pcs" "p.yaml" false).run.hold machine.run { }).calls,
        ¬ machine.Starts call := by
  intro text machine around
  have hstarts : machine.Starts ⟨"pcs", [], .ofSeconds 1⟩ := by decide +kernel
  exact ⟨by decide +kernel, ⟨_, rfl, hstarts⟩, by decide +kernel⟩

end Commands

end ResourceAgent
